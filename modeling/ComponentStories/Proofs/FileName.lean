import ComponentStories.FileName
import ComponentStories.Proofs.FileSystem.Path
import Mathlib.Data.List.Infix

/-
# Names of definitions, of templates and of their stories files

The name of a definition is the name of its component and a suffix, and the template of the
component has a name that is not longer (`Defines.utf8ByteSize_template_le`).  The name of a
template whose suffix is in lower case is a stem and the suffix, and its stories file has the same
stem.  So different templates have different stories files, and no stories file has the name of a
template.  Where the suffix is in letters of another case, the stories file does not have the suffix
of stories files (`storiesSuffix_storiesFile_iff`).
-/

namespace ComponentStories.FileName

open ComponentStories.Path

/-- The name of a file that is looked at as a template and has the suffix in lower case. -/
structure IsPlainTemplate (name : String) : Prop where
  /-- It is a name. -/
  isName : IsName name
  /-- It is looked at. -/
  form : isTemplate name = true
  /-- Its suffix is in lower case. -/
  lower : endsAsTemplate name = true

variable {name other : String}

/-- A name of a template is a stem and the suffix. -/
theorem IsPlainTemplate.exists_stem (h : IsPlainTemplate name) :
    ∃ stem, stem ≠ [] ∧ name.toList = stem ++ templateSuffix := by
  have hform := h.form
  rw [isTemplate, hasForm] at hform
  split at hform
  · rename_i stem rest hsplit
    obtain ⟨happend, hlength, hne⟩ := splitEnd?_eq_some hsplit
    refine ⟨stem, hne, ?_⟩
    have hlower : templateSuffix <:+ name.toList := List.isSuffixOf_iff_suffix.mp h.lower
    have hrest : rest <:+ name.toList := ⟨stem, happend⟩
    have heq : templateSuffix = rest :=
      (List.suffix_of_suffix_length_le hlower hrest hlength.ge).eq_of_length hlength.symm
    rw [heq, happend]
  · exact absurd hform Bool.false_ne_true

/-- The suffix of stories files. -/
def storiesSuffix : List Char := ".stories.json".toList

/-- The stories file of a template has the same stem. -/
theorem toList_storiesFile {stem : List Char} (h : name.toList = stem ++ templateSuffix) :
    (storiesFile name).toList = stem ++ storiesSuffix := by
  have hsplit : name.toList = (stem ++ ".stories.".toList) ++ "twig".toList := by
    rw [h, List.append_assoc]
    rfl
  have htwig : withoutTwig name.toList = stem ++ ".stories.".toList := by
    rw [withoutTwig, if_pos (List.isSuffixOf_iff_suffix.mpr ⟨_, hsplit.symm⟩), hsplit]
    have hlength : ((stem ++ ".stories.".toList) ++ "twig".toList).length - 4 =
        (stem ++ ".stories.".toList).length := by
      rw [List.length_append]
      rfl
    rw [hlength, List.take_left]
  rw [storiesFile, String.toList_ofList, htwig, List.append_assoc]
  rfl

/-- The name of a stories file is a name. -/
theorem IsPlainTemplate.isName_storiesFile (h : IsPlainTemplate name) :
    IsName (storiesFile name) := by
  obtain ⟨stem, hne, hname⟩ := h.exists_stem
  have hstories := toList_storiesFile hname
  have hlength : 13 < (storiesFile name).toList.length := by
    rw [hstories, List.length_append]
    have := List.length_pos_iff.mpr hne
    have : storiesSuffix.length = 13 := rfl
    omega
  refine ⟨?_, ?_, ?_, ?_, ?_⟩
  · intro heq
    rw [heq] at hlength
    exact absurd hlength (by decide)
  · intro heq
    rw [heq] at hlength
    exact absurd hlength (by decide)
  · intro heq
    rw [heq] at hlength
    exact absurd hlength (by decide)
  · have hslash := h.isName.slash
    rw [hname, List.mem_append, not_or] at hslash
    rw [hstories, List.mem_append, not_or]
    exact ⟨hslash.1, by decide⟩
  · have hsize := h.isName.size
    have htext : name = String.ofList stem ++ ".stories.twig" := by
      rw [← String.toList_inj, hname, String.toList_append, String.toList_ofList]
      rfl
    have hfile : storiesFile name = String.ofList stem ++ ".stories.json" := by
      rw [← String.toList_inj, hstories, String.toList_append, String.toList_ofList]
      rfl
    rw [hfile, String.utf8ByteSize_append]
    rw [htext, String.utf8ByteSize_append] at hsize
    exact hsize

/-- Different templates have different stories files. -/
theorem IsPlainTemplate.eq_of_storiesFile_eq (h : IsPlainTemplate name) (h' : IsPlainTemplate other)
    (heq : storiesFile name = storiesFile other) : name = other := by
  obtain ⟨stem, -, hname⟩ := h.exists_stem
  obtain ⟨stem', -, hother⟩ := h'.exists_stem
  have hstories := congrArg String.toList heq
  rw [toList_storiesFile hname, toList_storiesFile hother, List.append_left_inj] at hstories
  rw [← String.toList_inj, hname, hother, hstories]

/-- No stories file is looked at as a template. -/
theorem IsPlainTemplate.isTemplate_storiesFile (h : IsPlainTemplate name) :
    isTemplate (storiesFile name) = false := by
  obtain ⟨stem, -, hname⟩ := h.exists_stem
  have hstories := toList_storiesFile hname
  rw [isTemplate, hasForm]
  split
  · rename_i front rest hsplit
    obtain ⟨happend, hlength, -⟩ := splitEnd?_eq_some hsplit
    rw [hstories] at happend
    have hsuffix : templateSuffix.length = storiesSuffix.length := by decide
    rw [(List.append_inj' happend (hlength.trans hsuffix)).2]
    have hmatch : matchesAllLower templateSuffix storiesSuffix = false := by decide
    rw [hmatch, Bool.and_false]
  · rfl

/-! ## Names in letters of any case -/

/-- A text that is matched in two parts has two parts. -/
theorem exists_of_matchesAllLower_append {as bs cs : List Char}
    (h : matchesAllLower (as ++ bs) cs = true) : ∃ front rest, cs = front ++ rest ∧
      matchesAllLower as front = true ∧ matchesAllLower bs rest = true := by
  induction as generalizing cs with
  | nil => exact ⟨[], cs, rfl, rfl, h⟩
  | cons a as ih =>
    cases cs with
    | nil => exact absurd h Bool.false_ne_true
    | cons c cs =>
      obtain ⟨hc, hcs⟩ := Bool.and_eq_true_iff.mp h
      obtain ⟨front, rest, rfl, hfront, hrest⟩ := ih hcs
      exact ⟨c :: front, rest, rfl, Bool.and_eq_true_iff.mpr ⟨hc, hfront⟩, hrest⟩

/-- A name that is looked at is at least as long as the suffix, and no dot is at its end. -/
theorem of_isTemplate (h : isTemplate name = true) :
    templateSuffix.length ≤ name.toList.length ∧ ∀ front, name.toList ≠ front ++ ['.'] := by
  rw [isTemplate, hasForm] at h
  split at h
  · rename_i stem suffix hsplit
    obtain ⟨happend, hlength, -⟩ := splitEnd?_eq_some hsplit
    obtain ⟨-, hmatch⟩ := Bool.and_eq_true_iff.mp h
    have hparts : templateSuffix = ".stories.twi".toList ++ ['g'] := rfl
    rw [hparts] at hmatch
    obtain ⟨front, last, rfl, -, hlast⟩ := exists_of_matchesAllLower_append hmatch
    constructor
    · rw [← happend, List.length_append, hlength]
      exact Nat.le_add_left _ _
    · intro other heq
      cases last with
      | nil => exact absurd hlast Bool.false_ne_true
      | cons c cs =>
        obtain ⟨hc, hcs⟩ := Bool.and_eq_true_iff.mp hlast
        cases cs with
        | nil =>
          rw [← happend, ← List.append_assoc] at heq
          obtain rfl := List.singleton_inj.mp (List.append_inj' heq rfl).2
          exact absurd hc (by decide)
        | cons _ _ => exact absurd hcs Bool.false_ne_true
  · exact absurd h Bool.false_ne_true

/-- The name of the stories file of a name is not shorter. -/
theorem length_le_storiesFile (name : String) :
    name.toList.length ≤ (storiesFile name).toList.length := by
  rw [storiesFile, String.toList_ofList, List.length_append, withoutTwig]
  have hjson : "json".toList.length = 4 := rfl
  split
  · rw [List.length_take]
    omega
  · exact Nat.le_add_right _ _

/-- **The stories file of a name that is looked at has the suffix of stories files** exactly if the
name has its suffix in lower case. -/
theorem storiesSuffix_storiesFile_iff (h : isTemplate name = true) :
    storiesSuffix <:+ (storiesFile name).toList ↔ templateSuffix <:+ name.toList := by
  have hstories : storiesSuffix = ".stories.".toList ++ "json".toList := rfl
  have htemplate : templateSuffix = ".stories.".toList ++ "twig".toList := rfl
  constructor
  · intro hsuffix
    rw [storiesFile, String.toList_ofList, hstories] at hsuffix
    obtain ⟨front, hfront⟩ := hsuffix
    rw [← List.append_assoc, List.append_left_inj] at hfront
    by_cases htwig : "twig".toList <:+ name.toList
    · obtain ⟨rest, hrest⟩ := htwig
      have hname : withoutTwig name.toList = rest := by
        rw [withoutTwig, if_pos (List.isSuffixOf_iff_suffix.mpr ⟨rest, hrest⟩), ← hrest,
          List.length_append]
        exact List.take_left
      rw [htemplate, ← hrest, ← hname, ← hfront]
      exact ⟨front, (List.append_assoc _ _ _).symm⟩
    · -- nothing was taken off, so the name would end in the dot in front of the extension
      rw [withoutTwig, if_neg (mt List.isSuffixOf_iff_suffix.mp htwig)] at hfront
      have hdot : ".stories.".toList = ".stories".toList ++ ['.'] := rfl
      rw [hdot, ← List.append_assoc] at hfront
      exact absurd hfront.symm ((of_isTemplate h).2 _)
  · rintro ⟨stem, hstem⟩
    rw [toList_storiesFile hstem.symm]
    exact List.suffix_append _ _

/-! ## Definitions of components -/

/-- A name is a machine name and the suffix, whose basic letters may have either case. -/
def HasStem (name m : String) : Prop :=
  ∃ suffix, name = m ++ suffix ∧ m ≠ "" ∧ suffix.toList.map Char.toLower = componentSuffix

theorem HasStem.unique {m m' : String} (h : HasStem name m) (h' : HasStem name m') : m = m' := by
  obtain ⟨suffix, hname, -, hlower⟩ := h
  obtain ⟨suffix', hname', -, hlower'⟩ := h'
  have hlength := congrArg List.length (hlower.trans hlower'.symm)
  rw [List.length_map, List.length_map] at hlength
  have htext := congrArg String.toList (hname.symm.trans hname')
  rw [String.toList_append, String.toList_append] at htext
  exact String.toList_inj.mp (List.append_inj' htext hlength).1

/-- A text is split into two parts of which the second has the length asked for,
and the first is not empty. -/
theorem splitEnd?_eq_some_iff {n : Nat} {s a b : List Char} :
    splitEnd? n s = some (a, b) ↔ a ++ b = s ∧ b.length = n ∧ a ≠ [] := by
  refine ⟨splitEnd?_eq_some, ?_⟩
  rintro ⟨rfl, rfl, hne⟩
  have hpos := List.length_pos_iff.mpr hne
  rw [splitEnd?, List.length_append, if_pos (by omega), Nat.add_sub_cancel, List.take_left,
    List.drop_left]

/-- **The machine name of a path** is that of the name at its end. -/
theorem machineName?_eq_some_iff {path m : String} :
    machineName? path = some m ↔ ∃ name, fileName? path = some name ∧ HasStem name m := by
  rw [machineName?]
  constructor
  · intro h
    obtain ⟨name, hname, h⟩ := Option.bind_eq_some_iff.mp h
    obtain ⟨⟨stem, suffix⟩, hsplit, h⟩ := Option.bind_eq_some_iff.mp h
    obtain ⟨hlower, hstem⟩ := Option.ite_none_right_eq_some.mp h
    obtain ⟨happend, -, hne⟩ := splitEnd?_eq_some hsplit
    obtain rfl : String.ofList stem = m := Option.some.inj hstem
    refine ⟨name, hname, String.ofList suffix, ?_, ?_, ?_⟩
    · rw [← String.toList_inj, ← happend, String.toList_append, String.toList_ofList,
        String.toList_ofList]
    · rwa [ne_eq, ← String.toList_eq_nil_iff, String.toList_ofList]
    · rwa [String.toList_ofList]
  · rintro ⟨name, hname, suffix, rfl, hne, hlower⟩
    have hlength : suffix.toList.length = componentSuffix.length := by
      rw [← hlower, List.length_map]
    have hsplit : splitEnd? componentSuffix.length (m ++ suffix).toList =
        some (m.toList, suffix.toList) :=
      splitEnd?_eq_some_iff.mpr
        ⟨String.toList_append.symm, hlength, mt String.toList_eq_nil_iff.mp hne⟩
    refine Option.bind_eq_some_iff.mpr ⟨_, hname, Option.bind_eq_some_iff.mpr ⟨_, hsplit, ?_⟩⟩
    dsimp only
    rw [if_pos hlower, String.ofList_toList]

/-- A text without `s` and `k` is matched by a text that is the same in lower case. -/
theorem matchesAllLower_iff {suffix rest : List Char} (hs : 's' ∉ suffix) (hk : 'k' ∉ suffix) :
    matchesAllLower suffix rest = true ↔ rest.map Char.toLower = suffix := by
  induction suffix generalizing rest with
  | nil => cases rest <;> simp [matchesAllLower]
  | cons a suffix ih =>
    rw [List.mem_cons, not_or] at hs hk
    cases rest with
    | nil => simp [matchesAllLower]
    | cons c rest =>
      have hhere : matchesLower a c = true ↔ c.toLower = a := by
        simp [matchesLower, Ne.symm hs.1, Ne.symm hk.1]
      rw [matchesAllLower, Bool.and_eq_true, hhere, ih hs.2 hk.2, List.map_cons, List.cons.injEq]

/-- **A name is looked at as a definition** if it is a stem and the
suffix in letters of any case. -/
theorem isComponent_iff : isComponent name = true ↔ ∃ stem suffix,
    name.toList = stem ++ suffix ∧ stem ≠ [] ∧ stem.all isStemChar = true ∧
      suffix.map Char.toLower = componentSuffix := by
  have hmatch : ∀ {rest}, matchesAllLower componentSuffix rest = true ↔
      rest.map Char.toLower = componentSuffix := matchesAllLower_iff (by decide) (by decide)
  rw [isComponent, hasForm]
  constructor
  · intro h
    split at h
    · rename_i stem rest hsplit
      obtain ⟨happend, -, hne⟩ := splitEnd?_eq_some hsplit
      rw [Bool.and_eq_true] at h
      exact ⟨stem, rest, happend.symm, hne, h.1, hmatch.mp h.2⟩
    · exact absurd h Bool.false_ne_true
  · rintro ⟨stem, suffix, hname, hne, hstem, hlower⟩
    have hlength : suffix.length = componentSuffix.length := by
      rw [← hlower, List.length_map]
    rw [splitEnd?_eq_some_iff.mpr ⟨hname.symm, hlength, hne⟩]
    exact Bool.and_eq_true_iff.mpr ⟨hstem, hmatch.mpr hlower⟩

/-- A name that is looked at as a definition has a machine name, of
characters that may stand in one. -/
theorem exists_hasStem_of_isComponent (h : isComponent name = true) :
    ∃ m, HasStem name m ∧ m.toList.all isStemChar = true := by
  obtain ⟨stem, suffix, htext, hne, hstem, hlower⟩ := isComponent_iff.mp h
  refine ⟨String.ofList stem, ⟨String.ofList suffix, ?_, ?_, ?_⟩, ?_⟩
  · rw [← String.toList_inj, htext, String.toList_append, String.toList_ofList,
    String.toList_ofList]
  · rwa [ne_eq, ← String.toList_eq_nil_iff, String.toList_ofList]
  · rwa [String.toList_ofList]
  · rwa [String.toList_ofList]

/-- The name of a file that is looked at as the definition of a component with a machine name. -/
structure Defines (name machineName : String) : Prop where
  /-- It is a name. -/
  isName : IsName name
  /-- It is looked at. -/
  form : isComponent name = true
  /-- The machine name stands in it. -/
  machine : machineName? name = some machineName

theorem machineName?_join (path : String) (h : IsName name) :
    machineName? (join path name) = machineName? name := by
  rw [machineName?, machineName?, fileName?_join path h, fileName?_of_isName h]

variable {machineName : String}

/-- The name of a definition is the machine name, in which every
character may stand, and a suffix. -/
theorem Defines.exists_suffix (h : Defines name machineName) :
    ∃ suffix, name.toList = machineName.toList ++ suffix ∧ machineName.toList ≠ [] ∧
      suffix.length = componentSuffix.length ∧ machineName.toList.all isStemChar = true := by
  obtain ⟨self, hself, hstem⟩ := machineName?_eq_some_iff.mp h.machine
  obtain rfl : name = self := Option.some.inj ((fileName?_of_isName h.isName).symm.trans hself)
  obtain ⟨m, hm, hchars⟩ := exists_hasStem_of_isComponent h.form
  obtain rfl := hm.unique hstem
  obtain ⟨suffix, rfl, hne, hlower⟩ := hm
  refine ⟨suffix.toList, String.toList_append, mt String.toList_eq_nil_iff.mp hne, ?_, hchars⟩
  rw [← hlower, List.length_map]

/-- No text has fewer bytes than characters. -/
theorem length_le_utf8ByteSize_ofList (s : List Char) :
    s.length ≤ (String.ofList s).utf8ByteSize := by
  induction s with
  | nil => exact Nat.zero_le _
  | cons c s ih =>
    have hcons : String.ofList (c :: s) = String.singleton c ++ String.ofList s := by
      rw [← String.toList_inj]
      simp
    have hc := Char.utf8Size_pos c
    rw [hcons, String.utf8ByteSize_append, String.utf8ByteSize_singleton, List.length_cons]
    omega

/-- The name of the template is not longer than that of the definition. -/
theorem Defines.utf8ByteSize_template_le (h : Defines name machineName) :
    (template machineName).utf8ByteSize ≤ name.utf8ByteSize := by
  obtain ⟨suffix, hname, -, hlength, -⟩ := h.exists_suffix
  have htext : name = machineName ++ String.ofList suffix := by
    rw [← String.toList_inj, hname, String.toList_append, String.toList_ofList]
  have hsuffix : (String.ofList templateSuffix).utf8ByteSize = 13 := by decide
  have hle := length_le_utf8ByteSize_ofList suffix
  rw [hlength, show componentSuffix.length = 14 from rfl] at hle
  rw [htext, template, String.utf8ByteSize_append, String.utf8ByteSize_append, hsuffix]
  omega

theorem toList_template (machineName : String) :
    (template machineName).toList = machineName.toList ++ templateSuffix := by
  rw [template, String.toList_append, String.toList_ofList]

theorem storiesFile_template (machineName : String) :
    storiesFile (template machineName) = machineName ++ ".stories.json" := by
  rw [← String.toList_inj, toList_storiesFile (toList_template machineName), String.toList_append]
  rfl

/-- A text of characters that may stand in a stem makes a name that is looked at as a template. -/
theorem isTemplate_template (hne : machineName ≠ "")
    (hstem : machineName.toList.all isStemChar = true) :
    isTemplate (template machineName) = true := by
  have hsplit : splitEnd? templateSuffix.length (template machineName).toList =
      some (machineName.toList, templateSuffix) :=
    splitEnd?_eq_some_iff.mpr ⟨(toList_template machineName).symm, rfl,
      mt String.toList_eq_nil_iff.mp hne⟩
  have hmatch : matchesAllLower templateSuffix templateSuffix = true := by decide
  rw [isTemplate, hasForm, hsplit]
  exact Bool.and_eq_true_iff.mpr ⟨hstem, hmatch⟩

theorem endsAsTemplate_template (machineName : String) :
    endsAsTemplate (template machineName) = true := by
  rw [endsAsTemplate, List.isSuffixOf_iff_suffix, toList_template]
  exact List.suffix_append _ _

/-- The name of the template is a name. -/
theorem Defines.isName_template (h : Defines name machineName) : IsName (template machineName) := by
  obtain ⟨suffix, hname, hne, -⟩ := h.exists_suffix
  have htemplate := toList_template machineName
  have hlength : 13 < (template machineName).toList.length := by
    have hpos := List.length_pos_iff.mpr hne
    rw [htemplate, List.length_append, show templateSuffix.length = 13 from rfl]
    omega
  have hlong : ∀ s : String, s.toList.length ≤ 13 → template machineName ≠ s := by
    rintro _ hs rfl
    omega
  refine ⟨hlong "" (by decide), hlong "." (by decide), hlong ".." (by decide), ?_, ?_⟩
  · have hslash := h.isName.slash
    rw [hname, List.mem_append, not_or] at hslash
    rw [htemplate, List.mem_append, not_or]
    exact ⟨hslash.1, by decide⟩
  · exact h.utf8ByteSize_template_le.trans h.isName.size

/-- A character that ends paths is in the name of the template only if it is
in that of the definition. -/
theorem Defines.nul_notMem_template (h : Defines name machineName) (hnul : '\x00' ∉ name.toList) :
    '\x00' ∉ (template machineName).toList := by
  obtain ⟨suffix, hname, -⟩ := h.exists_suffix
  rw [hname, List.mem_append, not_or] at hnul
  rw [toList_template, List.mem_append, not_or]
  exact ⟨hnul.1, by decide⟩

theorem Defines.isPlainTemplate (h : Defines name machineName) :
    IsPlainTemplate (template machineName) := by
  obtain ⟨-, -, hne, -, hstem⟩ := h.exists_suffix
  exact ⟨h.isName_template, isTemplate_template (mt String.toList_eq_nil_iff.mpr hne) hstem,
    endsAsTemplate_template machineName⟩

end ComponentStories.FileName
