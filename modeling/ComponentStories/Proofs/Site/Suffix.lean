import ComponentStories.FileSystem.Listing
import ComponentStories.Proofs.Site.Templates

/-
# Three readings of the suffix of a template

The walk looks at a name whatever the case of the letters of its suffix, the check of a path wants
them in lower case, and so does the name of the stories file.  Below a directory without links these
agree on a name exactly if its suffix is in lower case (`IsCandidate.templateFault?_eq_none_iff`,
`IsCandidate.storiesSuffix_iff`), and a single name on which they do not agree is what makes the
whole search fail (`templatesIn_agrees_iff`).
-/

namespace ComponentStories.Site

open ComponentStories.Path FileSystem FileName

/-- A file below a directory of a site and its name, which is looked at as that of a template,
whatever the case of the letters of its suffix. -/
def IsCandidate (site : Site) (fs : FileSystem) (dir t name : String) : Prop :=
  ∃ dirs, (∀ n ∈ dirs ++ [name], IsName n) ∧
    t = (dirs ++ [name]).foldl join (join site.root dir) ∧ isTemplate name = true ∧
    fs.isFile t = true

variable {site : Site} {fs : FileSystem} {dir t name : String} {r d : Location}

/-! ## One file -/

/-- The name of a candidate is its file name, and it is at the end of its path. -/
theorem IsCandidate.exists_join (h : site.IsCandidate fs dir t name) :
    fileName? t = some name ∧ ∃ path, t = join path name := by
  obtain ⟨dirs, hnames, rfl, -⟩ := h
  rw [List.foldl_concat]
  exact ⟨fileName?_join _ (hnames name (List.mem_append_right _ List.mem_cons_self)), _, rfl⟩

/-- The path of a candidate ends in the suffix if its name does. -/
theorem IsCandidate.endsAsTemplate_iff (h : site.IsCandidate fs dir t name) :
    endsAsTemplate t = true ↔ templateSuffix <:+ name.toList := by
  obtain ⟨-, path, rfl⟩ := h.exists_join
  obtain ⟨-, -, -, hform, -⟩ := h
  constructor
  · intro hends
    exact List.isSuffixOf_iff_suffix.mp (endsAsTemplate_of_join hform hends)
  · intro hsuffix
    exact List.isSuffixOf_iff_suffix.mpr (hsuffix.trans (toList_end_join path name))

/-- **The path of the stories file of a candidate ends in the suffix of stories files** exactly if
the name of the candidate has its suffix in lower case. -/
theorem IsCandidate.storiesSuffix_iff (h : site.IsCandidate fs dir t name) :
    storiesSuffix <:+ (site.storiesPath t).toList ↔ templateSuffix <:+ name.toList := by
  have hname := h.exists_join.1
  obtain ⟨-, -, -, hform, -⟩ := h
  rw [← storiesSuffix_storiesFile_iff hform, storiesPath, hname, Option.getD_some]
  constructor
  · intro hsuffix
    have hlength : storiesSuffix.length ≤ (storiesFile name).toList.length :=
      calc storiesSuffix.length = templateSuffix.length := by decide
        _ ≤ name.toList.length := (of_isTemplate hform).1
        _ ≤ (storiesFile name).toList.length := length_le_storiesFile name
    exact List.suffix_of_suffix_length_le hsuffix (toList_end_join _ _) hlength
  · exact fun hsuffix => hsuffix.trans (toList_end_join _ _)

/-! ## All files below a directory -/

/-- The files below a directory that are looked at are the candidates. -/
theorem mem_templateFiles_iff_isCandidate (hdir : fs.locate (join site.root dir) = .ok d)
    (hbelow : fs.IsTreeBelow d) :
    t ∈ site.templateFiles fs dir ↔ ∃ name, site.IsCandidate fs dir t name := by
  rw [templateFiles, List.mem_filter, hbelow.mem_filesBelow_iff hdir]
  constructor
  · rintro ⟨⟨-, hfile, names, hne, hnames, rfl⟩, hname⟩
    obtain ⟨dirs, name, rfl⟩ := (List.eq_nil_or_concat' names).resolve_left hne
    rw [List.foldl_concat,
      fileName?_join _ (hnames name (List.mem_append_right _ List.mem_cons_self))] at hname
    exact ⟨name, dirs, hnames, rfl, hname, hfile⟩
  · rintro ⟨name, h⟩
    have hname := h.exists_join.1
    obtain ⟨dirs, hnames, rfl, hform, hfile⟩ := h
    obtain ⟨content, time, hitem⟩ := isFile_iff.mp hfile
    obtain ⟨-, hitem⟩ :=
      (hbelow.item_foldl_join_eq_ok_iff hdir (List.concat_ne_nil _ _) hnames).mp hitem
    have hdirectory : fs.entryAt? d = some .directory := by
      apply hbelow.directory_of_append (List.concat_ne_nil name dirs)
      rw [entryAt?, hitem]
      exact Option.some_ne_none _
    refine ⟨⟨(isDirectory_iff_of_locate hdir).mpr hdirectory, hfile, _, List.concat_ne_nil _ _,
      hnames, rfl⟩, ?_⟩
    rw [hname]
    exact hform

section Search

variable (hroot : fs.locate site.root = .ok r) (hdir : fs.locate (join site.root dir) = .ok d)
  (hinside : r <+: d) (hbelow : fs.IsTreeBelow d)

include hroot hdir hinside hbelow

/-- A candidate is below the root, if the directory is. -/
theorem IsCandidate.isInside (h : site.IsCandidate fs dir t name) :
    isInside fs t site.root = true := by
  obtain ⟨dirs, hnames, rfl, -, hfile⟩ := h
  obtain ⟨content, time, hitem⟩ := isFile_iff.mp hfile
  obtain ⟨l, hlocate, -⟩ := item_eq_ok_iff.mp hitem
  obtain ⟨-, rfl, -⟩ :=
    (hbelow.locate_foldl_join_eq_ok_iff hdir (List.concat_ne_nil _ _) hnames).mp hlocate
  exact isInside_of_locate hlocate hroot (hinside.trans (List.prefix_append _ _))

/-- A candidate can only be refused for its name, and it is if the suffix is not in lower case. -/
theorem IsCandidate.templateFault?_eq (h : site.IsCandidate fs dir t name) :
    site.templateFault? fs t =
      if templateSuffix <:+ name.toList then none else some (.invalidTemplatePath t) := by
  have hends := h.endsAsTemplate_iff
  rw [templateFault?, h.isInside hroot hdir hinside hbelow]
  by_cases hlower : templateSuffix <:+ name.toList
  · rw [hends.mpr hlower, if_pos hlower]
    rfl
  · rw [Bool.eq_false_iff.mpr (mt hends.mp hlower), if_neg hlower]
    rfl

/-- **A candidate is without fault** exactly if its name has the suffix in lower case. -/
theorem IsCandidate.templateFault?_eq_none_iff (h : site.IsCandidate fs dir t name) :
    site.templateFault? fs t = none ↔ templateSuffix <:+ name.toList := by
  rw [h.templateFault?_eq hroot hdir hinside hbelow, ite_eq_left_iff]
  simp

/-- The fault that a search gives is that a candidate has its suffix in letters of another case. -/
theorem exists_isCandidate_of_templatesIn_eq_error {e : GenerateError}
    (h : site.templatesIn fs dir = .error e) : ∃ t name, site.IsCandidate fs dir t name ∧
      ¬ templateSuffix <:+ name.toList ∧ e = .invalidTemplatePath t := by
  obtain ⟨t, ht, hfault⟩ := exists_of_templatesIn_eq_error h
  obtain ⟨name, hname⟩ := (mem_templateFiles_iff_isCandidate hdir hbelow).mp ht
  rw [hname.templateFault?_eq hroot hdir hinside hbelow] at hfault
  obtain ⟨hlower, he⟩ := Option.ite_none_left_eq_some.mp hfault
  exact ⟨t, name, hname, hlower, (Option.some.inj he).symm⟩

/-- The search finds the files below the directory if and only if no candidate has its suffix in
letters of another case. -/
theorem templatesIn_eq_ok_iff_lower :
    site.templatesIn fs dir = .ok (site.templateFiles fs dir) ↔
      ∀ t name, site.IsCandidate fs dir t name → templateSuffix <:+ name.toList := by
  rw [templatesIn_eq_ok_iff, and_iff_left rfl]
  simp only [mem_templateFiles_iff_isCandidate hdir hbelow, forall_exists_index]
  exact forall₂_congr fun t name => forall_congr' fun h =>
    h.templateFault?_eq_none_iff hroot hdir hinside hbelow

end Search

/-- **The readings of the suffix agree exactly on lower case.**  Take any directory at or below the
root, without links below it; the ways to the root and to the directory may have links.  A file
whose name is looked at is without fault, and the path of its stories file ends in the suffix of
stories files, exactly if its name has the suffix in lower case.  The only fault that a search gives
is that such a file has its suffix in letters of another case.  So a search is never refused for a
name exactly if all these suffixes are in lower case, and then it finds all the files. -/
theorem templatesIn_agrees_iff (site : Site) (hroot : fs.locate site.root = .ok r)
    (hdir : fs.locate (join site.root dir) = .ok d) (hinside : r <+: d)
    (hbelow : fs.IsTreeBelow d) :
    (∀ t name, site.IsCandidate fs dir t name →
      (site.templateFault? fs t = none ↔ templateSuffix <:+ name.toList) ∧
      (storiesSuffix <:+ (site.storiesPath t).toList ↔ templateSuffix <:+ name.toList)) ∧
    (∀ e, site.templatesIn fs dir = .error e → ∃ t name, site.IsCandidate fs dir t name ∧
      ¬ templateSuffix <:+ name.toList ∧ e = .invalidTemplatePath t) ∧
    ((∀ t, site.templatesIn fs dir ≠ .error (.invalidTemplatePath t)) ↔
      ∀ t name, site.IsCandidate fs dir t name → templateSuffix <:+ name.toList) ∧
    ((∀ t name, site.IsCandidate fs dir t name → templateSuffix <:+ name.toList) →
      ∃ paths, site.templatesIn fs dir = .ok paths ∧
        ∀ t, t ∈ paths ↔ ∃ name, site.IsCandidate fs dir t name) := by
  have hfind := templatesIn_eq_ok_iff_lower hroot hdir hinside hbelow
  have herror : ∀ e, site.templatesIn fs dir = .error e → _ :=
    fun e he => exists_isCandidate_of_templatesIn_eq_error hroot hdir hinside hbelow he
  refine ⟨fun t name h => ⟨?_, h.storiesSuffix_iff⟩, herror, ⟨fun hnever => ?_, ?_⟩, fun hlower =>
    ⟨_, hfind.mpr hlower, fun t => mem_templateFiles_iff_isCandidate hdir hbelow⟩⟩
  · exact h.templateFault?_eq_none_iff hroot hdir hinside hbelow
  · rw [← hfind]
    cases hfound : site.templatesIn fs dir with
    | ok paths => rw [(templatesIn_eq_ok_iff.mp hfound).2]
    | error e =>
      obtain ⟨t, -, -, -, rfl⟩ := herror e hfound
      exact absurd hfound (hnever t)
  · intro hlower t heq
    exact absurd ((hfind.mpr hlower).symm.trans heq) (by simp)

/-- A site whose root is reached over a link, with a link beside the directory that is searched. -/
def reached : FileSystem := FileSystem.ofItems ["box"] [
  (["box", "site"], ⟨.link "../srv/web", 0⟩), (["srv"], ⟨.directory, 0⟩),
  (["srv", "web"], ⟨.directory, 0⟩), (["srv", "web", "modules"], ⟨.link "themes", 0⟩),
  (["srv", "web", "themes"], ⟨.directory, 0⟩),
  (["srv", "web", "themes", "card.stories.twig"], ⟨.file (.text "one"), 0⟩),
  (["srv", "web", "themes", "deep"], ⟨.directory, 0⟩),
  (["srv", "web", "themes", "deep", "HERO-2.stories.twig"], ⟨.file (.text "two"), 0⟩),
  (["srv", "web", "themes", "deep", "notes.STORIES"], ⟨.file (.text "none"), 0⟩)]

/-- All suffixes are in lower case, so the search is not refused and finds the file further down. -/
theorem templatesIn_agrees_iff_reached :
    let site : Site := ⟨"site", "out"⟩
    reached.locate "site" = .ok ["srv", "web"] ∧
    reached.locate (join "site" "themes") = .ok ["srv", "web", "themes"] ∧
    reached.IsTreeBelow ["srv", "web", "themes"] ∧
    (∀ t name, site.IsCandidate reached "themes" t name → templateSuffix <:+ name.toList) ∧
    ∃ paths, site.templatesIn reached "themes" = .ok paths ∧
      "site/themes/deep/HERO-2.stories.twig" ∈ paths ∧
      storiesSuffix <:+ (site.storiesPath "site/themes/deep/HERO-2.stories.twig").toList := by
  intro site
  have hroot : reached.locate "site" = .ok ["srv", "web"] := by decide +kernel
  have hdir : reached.locate (join "site" "themes") = .ok ["srv", "web", "themes"] := by
    decide +kernel
  have hbelow : reached.IsTreeBelow ["srv", "web", "themes"] :=
    isTreeBelow_of_forall_items (by decide +kernel)
  obtain ⟨hone, -, hnever, hall⟩ := templatesIn_agrees_iff site hroot hdir (by decide) hbelow
  have hfound : site.templatesIn reached "themes" =
      .ok ["site/themes/card.stories.twig", "site/themes/deep/HERO-2.stories.twig"] := by
    rw [templatesIn_eq_ok_iff]
    decide +kernel
  have hlower := hnever.mp fun t heq => absurd (hfound.symm.trans heq) (by simp)
  obtain ⟨paths, hpaths, hmem⟩ := hall hlower
  have hhero : "site/themes/deep/HERO-2.stories.twig" ∈ paths := by
    rw [← Except.ok.inj (hfound.symm.trans hpaths)]
    exact List.mem_cons_of_mem _ List.mem_cons_self
  obtain ⟨name, hname⟩ := (hmem _).mp hhero
  exact ⟨hroot, hdir, hbelow, hlower, paths, hpaths, hhero,
    (hone _ _ hname).2.mpr (hlower _ _ hname)⟩

/-- A site with two templates, of which one has its suffix in capitals. -/
def shouting : FileSystem := FileSystem.ofItems ["box"] [
  (["box", "web"], ⟨.directory, 0⟩), (["box", "web", "themes"], ⟨.directory, 0⟩),
  (["box", "web", "themes", "card.stories.twig"], ⟨.file (.text "one"), 0⟩),
  (["box", "web", "themes", "hero.STORIES.TWIG"], ⟨.file (.text "two"), 0⟩)]

/-- **One name that is looked at makes the whole search fail**, though nothing is a link and all
lies below the root: the name does not pass the check, its stories file would not have the suffix of
stories files, and the template beside it is not found either. -/
theorem templatesIn_disagrees_shouting :
    let site : Site := ⟨"web", "out"⟩
    shouting.IsTree ∧ shouting.isDirectory (join "web" "themes") = true ∧
    isInside shouting (join "web" "themes") "web" = true ∧
    isTemplate "hero.STORIES.TWIG" = true ∧
    site.templateFiles shouting "themes" =
      ["web/themes/card.stories.twig", "web/themes/hero.STORIES.TWIG"] ∧
    site.templateFault? shouting "web/themes/card.stories.twig" = none ∧
    site.templatesIn shouting "themes" =
      .error (.invalidTemplatePath "web/themes/hero.STORIES.TWIG") ∧
    site.storiesPath "web/themes/hero.STORIES.TWIG" = "out/hero.STORIES.TWIGjson" := by
  refine ⟨isTree_of_forall_items (by decide +kernel), ?_⟩
  decide +kernel

end ComponentStories.Site
