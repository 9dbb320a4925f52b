import ComponentStories.Proofs.Site.Generate
import Mathlib.Data.List.Nodup
import Mathlib.Data.Set.Defs
import Mathlib.Logic.Relation

/-
# The history of a site

Templates are written and stories files are generated or removed, step by step.  A template is
always given a later time than its stories file, so a stories file that is not older than its
template was made from the text that the template has now.  That is the invariant (`Sound`): every
stories file is fresh.  A run keeps it and makes all stories files current, those included whose
neighbours cannot be made (`isCurrent_generateAll`).
-/

namespace ComponentStories.Site

open ComponentStories.Path FileSystem

/-! ## Steps -/

/-- The templates of a site have names from a collection, each of them its own. -/
structure Orderly (site : Site) (names : Set String) (fs : FileSystem) : Prop where
  /-- The names are from the collection. -/
  known : ∀ t name, site.HasTemplate fs t name → name ∈ names
  /-- No two templates have the same name. -/
  single : ∀ t t' name, site.HasTemplate fs t name → site.HasTemplate fs t' name → t = t'

/-- How a history of a site begins whose templates have names from a collection: the root and the
directory of the stories files stand in a directory tree, and no stories file is there yet. -/
structure Begins (site : Site) (names : Set String) (fs : FileSystem) : Prop where
  /-- There are no links. -/
  tree : fs.IsTree
  /-- The root is there. -/
  root : fs.isDirectory site.root = true
  /-- The directory of the stories files is there. -/
  storiesDir : fs.isDirectory site.storiesDir = true
  /-- The templates are in order. -/
  orderly : site.Orderly names fs
  /-- Nothing is where the stories files go. -/
  free : ∀ name ∈ names, fs.modified (site.storiesPath name) = .ok none

/-- The names of the templates that are found tell whether these are in order. -/
theorem orderly_of_found {site : Site} {names : Set String} {fs : FileSystem} (htree : fs.IsTree)
    (hroot : fs.isDirectory site.root = true) {found : List String}
    (hfound : (templateDirs.flatMap (site.templateFiles fs)).map fileName? = found.map some)
    (hknown : ∀ name ∈ found, name ∈ names) (hsingle : found.Nodup) : site.Orderly names fs := by
  obtain ⟨-, r, hr⟩ := htree.isDirectory_iff.mp hroot
  have hmem : ∀ t name, site.HasTemplate fs t name →
      t ∈ templateDirs.flatMap (site.templateFiles fs) := by
    rintro t name ⟨dir, hdir, dirs, h⟩
    exact List.mem_flatMap.mpr
      ⟨dir, hdir, (mem_templateFiles_iff htree hr hdir).mpr ⟨dirs, name, h⟩⟩
  constructor
  · intro t name ht
    have hname := List.mem_map_of_mem (f := fileName?) (hmem t name ht)
    rw [hfound, ht.fileName?_eq] at hname
    obtain ⟨n, hn, heq⟩ := List.mem_map.mp hname
    exact hknown name (Option.some.inj heq ▸ hn)
  · intro t t' name ht ht'
    have hnodup : ((templateDirs.flatMap (site.templateFiles fs)).map fileName?).Nodup := by
      rw [hfound]
      exact hsingle.map fun _ _ heq => Option.some.inj heq
    exact List.inj_on_of_nodup_map hnodup (hmem t name ht) (hmem t' name ht')
      (ht.fileName?_eq.trans ht'.fileName?_eq.symm)

/-- A step in the history of a site. -/
inductive Step (site : Site) (names : Set String) (serverUrl : Option String) :
    FileSystem → FileSystem → Prop
  /-- A template is written, new or not, and given a later time than its stories file.  Directories
  are made on the way to it, but none where a stories file goes. -/
  | edit {fs fs₁ fs₂ : FileSystem} (t name : String) (content : Content) (time : Int) :
    fs.write t content = (.ok (), fs₁) → fs₁.setModified t time = .ok fs₂ →
    site.HasTemplate fs₂ t name → site.Orderly names fs₂ →
    (∀ made, fs.modified (site.storiesPath t) = .ok (some made) → made < time) →
    (∀ n ∈ names, fs.modified (site.storiesPath n) = .ok none →
      fs₂.modified (site.storiesPath n) = .ok none) → Step site names serverUrl fs fs₂
  /-- A stories file is removed. -/
  | delete {fs fs' : FileSystem} (name : String) : name ∈ names →
    fs.remove (site.storiesPath name) = .ok fs' → Step site names serverUrl fs fs'
  /-- The stories files are generated, those that are missing or older than their templates. -/
  | run (fs : FileSystem) : Step site names serverUrl fs (site.generateAll ⟨false, serverUrl⟩ fs).2

/-! ## The invariant -/

/-- What holds all along: the root and the directory of the stories files stay where they are, every
stories file has a place, and is fresh. -/
structure Sound (site : Site) (names : Set String) (serverUrl : Option String) (r d : Location)
    (fs : FileSystem) : Prop where
  /-- There are no links. -/
  tree : fs.IsTree
  /-- The root has a path. -/
  rootPath : pathFault? site.root = none
  /-- The root is there. -/
  root : fs.LeadsTo site.root r
  /-- The directory of the stories files is there. -/
  storiesDir : fs.LeadsTo site.storiesDir d
  /-- The stories files have paths. -/
  path : ∀ n ∈ names, pathFault? (join site.storiesDir (FileName.storiesFile n)) = none
  /-- No directory takes their place. -/
  room : ∀ n ∈ names, fs.entryAt? (d ++ [FileName.storiesFile n]) ≠ some .directory
  /-- The templates are in order. -/
  orderly : site.Orderly names fs
  /-- The stories files are fresh. -/
  fresh : ∀ t name, site.HasTemplate fs t name → site.Fresh serverUrl fs t

variable {site : Site} {names : Set String} {serverUrl : Option String} {r d l : Location}
  {fs fs' : FileSystem} {t name : String}

/-- **The invariant holds at the beginning**, when there are no stories files. -/
theorem Begins.exists_sound (h : site.Begins names fs)
    (hplain : ∀ n ∈ names, FileName.IsPlainTemplate n) (serverUrl : Option String) :
    ∃ r d, site.Sound names serverUrl r d fs := by
  obtain ⟨hrootPath, r, hr⟩ := h.tree.isDirectory_iff.mp h.root
  obtain ⟨-, d, hd⟩ := h.tree.isDirectory_iff.mp h.storiesDir
  have hfree : ∀ n ∈ names,
      fs.modified (join site.storiesDir (FileName.storiesFile n)) = .ok none := by
    intro n hn
    rw [← storiesPath_eq_of_isName site (hplain n hn).isName]
    exact h.free n hn
  have hpath : ∀ n ∈ names, pathFault? (join site.storiesDir (FileName.storiesFile n)) = none :=
    fun n hn => pathFault?_eq_none_of_modified
      (join_ne_empty _ (hplain n hn).isName_storiesFile) (hfree n hn)
  refine ⟨r, d, h.tree, hrootPath, hr, hd, hpath, ?_, h.orderly, ?_⟩
  · intro n hn hdirectory
    obtain ⟨since, hitem⟩ := entryAt?_eq_some_iff.mp hdirectory
    have hmodified := hfree n hn
    rw [FileSystem.modified, h.tree.item_join hd (hplain n hn).isName_storiesFile (hpath n hn),
      hitem] at hmodified
    exact absurd hmodified (by simp)
  · intro t n ht source time content made _ hmade
    have hmodified := hfree n (h.orderly.known t n ht)
    rw [← ht.storiesPath_eq, FileSystem.modified, hmade] at hmodified
    exact absurd hmodified (by simp)

/-! ## Changes in one place -/

/-- The templates of a site are the same files in two file systems. -/
structure SameTemplates (site : Site) (fs fs' : FileSystem) : Prop where
  /-- They are at the same paths. -/
  hasTemplate : ∀ t name, site.HasTemplate fs' t name ↔ site.HasTemplate fs t name
  /-- They are the same files there. -/
  sameFile : ∀ t name, site.HasTemplate fs t name → SameFile fs fs' t

theorem SameTemplates.refl (site : Site) (fs : FileSystem) : site.SameTemplates fs fs :=
  ⟨fun _ _ => Iff.rfl, fun t _ _ => SameFile.refl fs t⟩

theorem SameTemplates.trans {fs'' : FileSystem} (h : site.SameTemplates fs fs')
    (h' : site.SameTemplates fs' fs'') : site.SameTemplates fs fs'' where
  hasTemplate t name := (h'.hasTemplate t name).trans (h.hasTemplate t name)
  sameFile t name ht :=
    (h.sameFile t name ht).trans (h'.sameFile t name ((h.hasTemplate t name).mpr ht))

theorem Orderly.of_sameTemplates (h : site.Orderly names fs) (hsame : site.SameTemplates fs fs') :
    site.Orderly names fs' where
  known t name ht := h.known t name ((hsame.hasTemplate t name).mp ht)
  single t t' name ht ht' :=
    h.single t t' name ((hsame.hasTemplate t name).mp ht) ((hsame.hasTemplate t' name).mp ht')

/-- A template elsewhere stays when a directory tree changes in one place, and is the same file. -/
theorem hasTemplate_iff_of_keeps (h : Keeps fs fs' l) (htree : fs.IsTree)
    (hr : fs.LeadsTo site.root r)
    (hother : ∀ dir dirs, t = (dir :: (dirs ++ [name])).foldl join site.root →
      FileName.isTemplate name = true → r ++ dir :: (dirs ++ [name]) ≠ l) :
    (site.HasTemplate fs' t name ↔ site.HasTemplate fs t name) ∧
      (site.HasTemplate fs t name → SameFile fs fs' t) := by
  have hsame : ∀ fs₀, site.HasTemplate fs₀ t name → SameFile fs fs' t := by
    rintro fs₀ ⟨dir, hdir, dirs, hnames, rfl, hform, -⟩
    exact h.sameFile_foldl_join htree hr (List.cons_ne_nil _ _) (isName_of_mem_way hdir hnames)
      (hother dir dirs rfl hform)
  exact ⟨⟨fun ht => ht.of_sameFile (hsame _ ht).symm, fun ht => ht.of_sameFile (hsame _ ht)⟩,
    hsame fs⟩

theorem way_ne_stories {m dir : String} {dirs : List String} (hm : FileName.IsPlainTemplate m)
    (hform : FileName.isTemplate name = true) :
    r ++ dir :: (dirs ++ [name]) ≠ d ++ [FileName.storiesFile m] := by
  intro heq
  rw [← List.cons_append, ← List.append_assoc] at heq
  obtain rfl : name = FileName.storiesFile m := (List.append_singleton_inj.mp heq).2
  rw [hm.isTemplate_storiesFile] at hform
  exact absurd hform Bool.false_ne_true

/-- A stories file elsewhere stays the same when a directory tree changes in one place. -/
theorem sameFile_stories_of_keeps (h : Keeps fs fs' l) (htree : fs.IsTree)
    (hd : fs.LeadsTo site.storiesDir d) (hname : FileName.IsPlainTemplate name)
    (hpath : site.storiesPath t = join site.storiesDir (FileName.storiesFile name))
    (hother : d ++ [FileName.storiesFile name] ≠ l) : SameFile fs fs' (site.storiesPath t) := by
  have hnames : ∀ n ∈ [FileName.storiesFile name], IsName n :=
    List.forall_mem_singleton.mpr hname.isName_storiesFile
  have hsame : SameFile fs fs' ([FileName.storiesFile name].foldl join site.storiesDir) :=
    h.sameFile_foldl_join htree hd (List.cons_ne_nil _ _) hnames hother
  rwa [List.foldl_cons, List.foldl_nil, ← hpath] at hsame

/-! ## Generating keeps the invariant -/

/-- **A change where the stories file of a name goes keeps the invariant**, if the stories file of a
template of this name is fresh afterwards.  Templates are none of it, and other stories files stay
as they are: those that are current stay current. -/
theorem Sound.of_keeps (h : site.Sound names serverUrl r d fs)
    (hplain : ∀ n ∈ names, FileName.IsPlainTemplate n) {m : String} (hm : m ∈ names)
    (hkeeps : Keeps fs fs' (d ++ [FileName.storiesFile m]))
    (hroom : ∀ n ∈ names, fs'.entryAt? (d ++ [FileName.storiesFile n]) ≠ some .directory)
    (hfresh : ∀ t, site.HasTemplate fs t m → site.Fresh serverUrl fs' t) :
    site.Sound names serverUrl r d fs' ∧ site.SameTemplates fs fs' ∧
      ∀ t n, site.HasTemplate fs t n → n ≠ m → site.IsCurrent serverUrl fs t →
        site.IsCurrent serverUrl fs' t := by
  have hstays : ∀ t n, (site.HasTemplate fs' t n ↔ site.HasTemplate fs t n) ∧
      (site.HasTemplate fs t n → SameFile fs fs' t) :=
    fun t n => hasTemplate_iff_of_keeps hkeeps h.tree h.root
      fun dir dirs _ hform => way_ne_stories (hplain m hm) hform
  have hsame : site.SameTemplates fs fs' := ⟨fun t n => (hstays t n).1, fun t n => (hstays t n).2⟩
  have hother : ∀ n ∈ names, n ≠ m →
      d ++ [FileName.storiesFile n] ≠ d ++ [FileName.storiesFile m] := by
    intro n hn hne heq
    have hfile : FileName.storiesFile n = FileName.storiesFile m := by simpa using heq
    exact hne ((hplain n hn).eq_of_storiesFile_eq (hplain m hm) hfile)
  have hstories : ∀ t n, site.HasTemplate fs t n → n ≠ m →
      SameFile fs fs' (site.storiesPath t) := by
    intro t n ht hne
    have hn := h.orderly.known t n ht
    exact sameFile_stories_of_keeps hkeeps h.tree h.storiesDir (hplain n hn) ht.storiesPath_eq
      (hother n hn hne)
  refine ⟨⟨hkeeps.tree, h.rootPath, hkeeps.leadsTo h.root, hkeeps.leadsTo h.storiesDir, h.path,
    hroom, h.orderly.of_sameTemplates hsame, ?_⟩, hsame, ?_⟩
  · intro t n ht
    have ht := (hsame.hasTemplate t n).mp ht
    by_cases hne : n = m
    · exact hfresh t (hne ▸ ht)
    · exact (h.fresh t n ht).congr (hsame.sameFile t n ht) (hstories t n ht hne)
  · intro t n ht hne hcurrent
    exact hcurrent.congr (hsame.sameFile t n ht) (hstories t n ht hne)

/-- **Generating one stories file keeps the invariant** and makes it current; those that
are current stay current. -/
theorem Sound.generate (h : site.Sound names serverUrl r d fs)
    (hplain : ∀ n ∈ names, FileName.IsPlainTemplate n) (ht : site.HasTemplate fs t name)
    (force : Bool) {fs' : FileSystem} (hfs' : fs' = (site.generate ⟨force, serverUrl⟩ t fs).2) :
    site.Sound names serverUrl r d fs' ∧ site.SameTemplates fs fs' ∧
      ∀ u n, site.HasTemplate fs u n → u = t ∨ site.IsCurrent serverUrl fs u →
        site.IsCurrent serverUrl fs' u := by
  have hname := h.orderly.known t name ht
  have hspace := hplain name hname
  rcases snd_generate_eq h.tree h.storiesDir ht hspace (h.path name hname) (h.room name hname)
    (h.fresh t name ht) force with ⟨heq, hcurrent⟩ | ⟨source, file, hsource, hfile, hchange⟩
  · rw [heq] at hfs'
    subst hfs'
    refine ⟨h, .refl site fs', ?_⟩
    rintro u n - (rfl | hu)
    · exact hcurrent
    · exact hu
  rw [hchange] at hfs'
  have hkeeps : Keeps fs fs' (d ++ [FileName.storiesFile name]) := by
    rw [hfs']
    exact h.tree.keeps_change h.storiesDir.directory_right hspace.isName_storiesFile
      (h.room name hname) (.text file.render)
  have hroom : ∀ n ∈ names, fs'.entryAt? (d ++ [FileName.storiesFile n]) ≠ some .directory := by
    intro n hn
    rw [hfs', entryAt?_change]
    split
    · simp
    · exact h.room n hn
  have hmade : fs'.readText (site.storiesPath t) = .ok file.render := by
    rw [readText_eq_ok_iff, ht.storiesPath_eq, hkeeps.tree.item_join (hkeeps.leadsTo h.storiesDir)
      hspace.isName_storiesFile (h.path name hname), hfs', itemAt?_change_self]
    exact ⟨_, rfl⟩
  have hcurrent : site.IsCurrent serverUrl fs' t := by
    -- the template is the same file, so its text still gives what was written
    have hsame : SameFile fs fs' t := (hasTemplate_iff_of_keeps hkeeps h.tree h.root
      fun dir dirs _ hform => way_ne_stories hspace hform).2 ht
    exact isCurrent_of_readText (hsame.readText_eq_ok_iff.mpr hsource) hfile hmade
  have hfresh : ∀ u, site.HasTemplate fs u name → site.Fresh serverUrl fs' u := by
    intro u hu
    rw [h.orderly.single u t name hu ht]
    exact hcurrent.fresh
  obtain ⟨hsound, hsame, hothers⟩ := h.of_keeps hplain hname hkeeps hroom hfresh
  refine ⟨hsound, hsame, fun u n hu hor => ?_⟩
  by_cases hut : u = t
  · rw [hut]
    exact hcurrent
  · refine hothers u n hu ?_ (hor.resolve_left hut)
    rintro rfl
    exact hut (h.orderly.single u t n hu ht)

/-- **A run keeps the invariant** and makes the stories files of the templates
that it goes through current. -/
theorem Sound.turns (h : site.Sound names serverUrl r d fs)
    (hplain : ∀ n ∈ names, FileName.IsPlainTemplate n) (force : Bool) {ts : List String}
    (hts : ∀ t ∈ ts, ∃ n, site.HasTemplate fs t n) {fs' : FileSystem}
    (hfs' : fs' = (inTurn (site.generate ⟨force, serverUrl⟩) ts fs).2) :
    site.Sound names serverUrl r d fs' ∧ site.SameTemplates fs fs' ∧
      ∀ u n, site.HasTemplate fs u n → u ∈ ts ∨ site.IsCurrent serverUrl fs u →
        site.IsCurrent serverUrl fs' u := by
  induction ts generalizing fs with
  | nil =>
    obtain rfl : fs' = fs := hfs'
    refine ⟨h, .refl site fs', fun u n hu hor => ?_⟩
    exact hor.resolve_left List.not_mem_nil
  | cons t ts ih =>
    obtain ⟨⟨n, ht⟩, hts⟩ := List.forall_mem_cons.mp hts
    obtain ⟨hsound, hsame, hcurrent⟩ := h.generate hplain ht force rfl
    have hts' : ∀ u ∈ ts, ∃ m, site.HasTemplate (site.generate ⟨force, serverUrl⟩ t fs).2 u m := by
      intro u hu
      obtain ⟨m, hm⟩ := hts u hu
      exact ⟨m, (hsame.hasTemplate u m).mpr hm⟩
    obtain ⟨hsound', hsame', hcurrent'⟩ := ih hsound hts' hfs'
    refine ⟨hsound', hsame.trans hsame', ?_⟩
    intro u m hu hor
    refine hcurrent' u m ((hsame.hasTemplate u m).mpr hu) ?_
    rcases hor with hmem | hu'
    · rcases List.mem_cons.mp hmem with rfl | hmem
      · exact Or.inr (hcurrent u m hu (Or.inl rfl))
      · exact Or.inl hmem
    · exact Or.inr (hcurrent u m hu (Or.inr hu'))

/-- A run goes through all templates. -/
theorem Sound.exists_generateAll_eq (h : site.Sound names serverUrl r d fs)
    (hplain : ∀ n ∈ names, FileName.IsPlainTemplate n) (force : Bool) :
    ∃ ts, (∀ t, t ∈ ts ↔ ∃ n, site.HasTemplate fs t n) ∧
      site.generateAll ⟨force, serverUrl⟩ fs =
        (.ok (inTurn (site.generate ⟨force, serverUrl⟩) ts fs).1,
          (inTurn (site.generate ⟨force, serverUrl⟩) ts fs).2) := by
  have hlower : ∀ t n, site.HasTemplate fs t n → FileName.endsAsTemplate n = true :=
    fun t n ht => (hplain n (h.orderly.known t n ht)).lower
  obtain ⟨ts, hts, hmem⟩ :=
    exists_templates_eq_ok h.tree (h.root.isDirectory h.rootPath) hlower
  refine ⟨ts, hmem, ?_⟩
  rw [generateAll, hts]

/-! ## Steps keep the invariant -/

/-- Where a stories file goes there is no directory after a change elsewhere either, if nothing
comes there that was not there before. -/
theorem Sound.room_of_keeps (h : site.Sound names serverUrl r d fs)
    (hplain : ∀ n ∈ names, FileName.IsPlainTemplate n) (hkeeps : Keeps fs fs' l)
    (hother : ∀ n ∈ names, d ++ [FileName.storiesFile n] ≠ l)
    (hfree : ∀ n ∈ names, fs.modified (site.storiesPath n) = .ok none →
      fs'.modified (site.storiesPath n) = .ok none) :
    ∀ n ∈ names, fs'.entryAt? (d ++ [FileName.storiesFile n]) ≠ some .directory := by
  intro n hn hdirectory
  have hname := (hplain n hn).isName_storiesFile
  have hitem := h.tree.item_join h.storiesDir hname (h.path n hn)
  cases hbefore : fs.itemAt? (d ++ [FileName.storiesFile n]) with
  | none =>
    obtain ⟨since, hnow⟩ := entryAt?_eq_some_iff.mp hdirectory
    have hfree := hfree n hn
    rw [storiesPath_eq_of_isName site (hplain n hn).isName, FileSystem.modified,
      FileSystem.modified, hitem, hbefore,
      hkeeps.tree.item_join (hkeeps.leadsTo h.storiesDir) hname (h.path n hn),
      hnow] at hfree
    exact absurd (hfree rfl) (by simp)
  | some i =>
    obtain ⟨entry, since⟩ := i
    have hentry : fs.entryAt? (d ++ [FileName.storiesFile n]) = some entry :=
      entryAt?_eq_some_iff.mpr ⟨since, hbefore⟩
    cases entry with
    | file old =>
      have hafter := (hkeeps.file _ (hother n hn) old since).mpr hbefore
      exact itemAt?_ne_file hdirectory old since hafter
    | directory => exact h.room n hn hentry
    | link target => exact h.tree.plain _ _ hentry

/-- A template that is written is newer than its stories file, which is fresh whatever it holds. -/
theorem Sound.edit (h : site.Sound names serverUrl r d fs)
    (hplain : ∀ n ∈ names, FileName.IsPlainTemplate n) {fs₁ fs₂ : FileSystem} {content : Content}
    {time : Int} (hwrite : fs.write t content = (.ok (), fs₁))
    (hset : fs₁.setModified t time = .ok fs₂) (ht : site.HasTemplate fs₂ t name)
    (horderly : site.Orderly names fs₂)
    (hlate : ∀ made, fs.modified (site.storiesPath t) = .ok (some made) → made < time)
    (hfree : ∀ n ∈ names, fs.modified (site.storiesPath n) = .ok none →
      fs₂.modified (site.storiesPath n) = .ok none) : site.Sound names serverUrl r d fs₂ := by
  have hpath := ht.storiesPath_eq
  have hname := horderly.known t name ht
  obtain ⟨dir, hdir, dirs, hnames, rfl, hform, -⟩ := ht
  have hway := isName_of_mem_way hdir hnames
  obtain ⟨hkeeps₁, time₁, hwritten⟩ := h.tree.keeps_write h.root (List.cons_ne_nil _ _) hway hwrite
  obtain rfl := hkeeps₁.tree.setModified_foldl_join (hkeeps₁.leadsTo h.root) (List.cons_ne_nil _ _)
    hway hset
  have hkeeps := hkeeps₁.trans (hkeeps₁.tree.keeps_stamp (r ++ dir :: (dirs ++ [name])) time)
  have hedited : (fs₁.stamp (r ++ dir :: (dirs ++ [name])) time).itemAt?
      (r ++ dir :: (dirs ++ [name])) = some ⟨.file content, time⟩ := by
    rw [itemAt?_stamp, if_pos rfl, hwritten]
    rfl
  generalize fs₁.stamp (r ++ dir :: (dirs ++ [name])) time = fs₂ at *
  have hother : ∀ n ∈ names, d ++ [FileName.storiesFile n] ≠ r ++ dir :: (dirs ++ [name]) :=
    fun n hn => (way_ne_stories (hplain n hn) hform).symm
  refine ⟨hkeeps.tree, h.rootPath, hkeeps.leadsTo h.root, hkeeps.leadsTo h.storiesDir, h.path,
    h.room_of_keeps hplain hkeeps hother hfree, horderly, ?_⟩
  intro u n hu
  by_cases hut : u = (dir :: (dirs ++ [name])).foldl join site.root
  · -- its stories file is older
    rw [hut]
    intro source time' old made hitem hmade hlater
    obtain ⟨-, hnow⟩ := (hkeeps.tree.item_foldl_join_eq_ok_iff (hkeeps.leadsTo h.root)
      (List.cons_ne_nil _ _) hway).mp hitem
    rw [hedited] at hnow
    simp only [Option.some.injEq, Item.mk.injEq] at hnow
    rw [← hnow.2] at hlater
    rw [sameFile_stories_of_keeps hkeeps h.tree h.storiesDir (hplain name hname) hpath
      (hother name hname)] at hmade
    exact absurd (hlate made (by rw [FileSystem.modified, hmade])) hlater
  · obtain ⟨hiff, hsame⟩ := @hasTemplate_iff_of_keeps site r _ fs fs₂ u n hkeeps h.tree h.root
      fun dir' dirs' hu' _ heq => hut (by rw [hu', List.append_cancel_left heq])
    have hn := horderly.known u n hu
    have hbefore := hiff.mp hu
    exact (h.fresh u n hbefore).congr (hsame hbefore)
      (sameFile_stories_of_keeps hkeeps h.tree h.storiesDir (hplain n hn) hu.storiesPath_eq
        (hother n hn))

/-- A stories file that is removed is none that is older or newer. -/
theorem Sound.delete (h : site.Sound names serverUrl r d fs)
    (hplain : ∀ n ∈ names, FileName.IsPlainTemplate n) (hname : name ∈ names)
    (hremove : fs.remove (site.storiesPath name) = .ok fs') :
    site.Sound names serverUrl r d fs' := by
  have hspace := hplain name hname
  rw [storiesPath_eq_of_isName site hspace.isName] at hremove
  obtain ⟨⟨content, hfile⟩, rfl⟩ :=
    h.tree.remove_join_eq_ok h.storiesDir hspace.isName_storiesFile hremove
  have hkeeps := h.tree.keeps_erase h.storiesDir.directory_right hfile
  have hroom : ∀ n ∈ names, (fs.erase (d ++ [FileName.storiesFile name])).entryAt?
      (d ++ [FileName.storiesFile n]) ≠ some .directory := by
    intro n hn
    rw [entryAt?_erase]
    split
    · simp
    · exact h.room n hn
  refine (h.of_keeps hplain hname hkeeps hroom ?_).1
  intro t ht source time content made hitem hmade
  have hnone : (fs.erase (d ++ [FileName.storiesFile name])).itemAt?
      (d ++ [FileName.storiesFile name]) = none := by
    have hentry := entryAt?_erase fs (d ++ [FileName.storiesFile name])
      (d ++ [FileName.storiesFile name])
    rwa [if_pos rfl, entryAt?, Option.map_eq_none_iff] at hentry
  rw [ht.storiesPath_eq, hkeeps.tree.item_join (hkeeps.leadsTo h.storiesDir)
    hspace.isName_storiesFile (h.path name hname), hnone] at hmade
  exact absurd hmade (by simp)

/-- Every step keeps the invariant. -/
theorem Sound.step (h : site.Sound names serverUrl r d fs)
    (hplain : ∀ n ∈ names, FileName.IsPlainTemplate n)
    (hstep : site.Step names serverUrl fs fs') : site.Sound names serverUrl r d fs' := by
  cases hstep with
  | edit t name content time hwrite hset ht horderly hlate hfree =>
    exact h.edit hplain hwrite hset ht horderly hlate hfree
  | delete name hname hremove => exact h.delete hplain hname hremove
  | run =>
    obtain ⟨ts, hts, hrun⟩ := h.exists_generateAll_eq hplain false
    rw [hrun]
    exact (h.turns hplain false (fun t ht => (hts t).mp ht) rfl).1

/-- All steps keep the invariant. -/
theorem Sound.steps (h : site.Sound names serverUrl r d fs)
    (hplain : ∀ n ∈ names, FileName.IsPlainTemplate n)
    (hsteps : Relation.ReflTransGen (site.Step names serverUrl) fs fs') :
    site.Sound names serverUrl r d fs' := by
  induction hsteps with
  | refl => exact h
  | tail _ hstep ih => exact ih.step hplain hstep

/-! ## Every run -/

/-- **After every run the stories files are current.**  Take any history of a site in a directory
tree whose templates have different names with the suffix in lower case, where no stories file was
there at first: templates are written and given later times than their stories files, stories files
are removed and generated.  Then a run goes through, changes no template, and afterwards the
stories file of every template whose text gives one is just that, forced or not and whatever
becomes of other templates. -/
theorem isCurrent_generateAll {site : Site} {names : Set String} {serverUrl : Option String}
    {fs₀ fs : FileSystem} (hplain : ∀ n ∈ names, FileName.IsPlainTemplate n)
    (hbegin : site.Begins names fs₀)
    (hsteps : Relation.ReflTransGen (site.Step names serverUrl) fs₀ fs) (force : Bool) :
    ∃ attempts fs', site.generateAll ⟨force, serverUrl⟩ fs = (.ok attempts, fs') ∧
      (∀ t name, site.HasTemplate fs' t name ↔ site.HasTemplate fs t name) ∧
      ∀ t name, site.HasTemplate fs' t name →
        fs'.readText t = fs.readText t ∧ site.IsCurrent serverUrl fs' t := by
  obtain ⟨r, d, hsound₀⟩ := hbegin.exists_sound hplain serverUrl
  have hsound := hsound₀.steps hplain hsteps
  obtain ⟨ts, hts, hrun⟩ := hsound.exists_generateAll_eq hplain force
  obtain ⟨-, hsame, hcurrent⟩ := hsound.turns hplain force (fun t ht => (hts t).mp ht) rfl
  refine ⟨_, _, hrun, hsame.hasTemplate, fun t name ht => ?_⟩
  have ht := (hsame.hasTemplate t name).mp ht
  obtain ⟨content, time, hitem⟩ := isFile_iff.mp ht.isFile
  refine ⟨?_, hcurrent t name ht (Or.inl ((hts t).mpr ⟨name, ht⟩))⟩
  rw [FileSystem.readText, FileSystem.readText, hitem,
    (hsame.sameFile t name ht content time).mpr hitem]

/-- A site whose stories files stand beside its root. -/
def sample : Site := ⟨"web", "web/../storybook/stories"⟩

/-- The text of a template with a title and no stories. -/
def titledTemplate (title : String) : String :=
  "\x7b% stories card with \x7b title: '" ++ title ++ "' \x7d %\x7d\x7b% endstories %\x7d"

/-- A file system with the site and two templates, one of which gives no stories file. -/
def sampleStart : FileSystem where
  items := [([], ⟨.directory, 0⟩), (["box"], ⟨.directory, 0⟩),
    (["box", "storybook"], ⟨.directory, 0⟩),
    (["box", "storybook", "stories"], ⟨.directory, 0⟩), (["box", "web"], ⟨.directory, 0⟩),
    (["box", "web", "modules"], ⟨.directory, 0⟩),
    (["box", "web", "modules", "menu.stories.twig"], ⟨.file (.text "nothing"), 0⟩),
    (["box", "web", "themes"], ⟨.directory, 0⟩),
    (["box", "web", "themes", "card.stories.twig"], ⟨.file (.text (titledTemplate "One")), 0⟩)]
  working := ["box"]
  clock := 0

/-- The file system after a run. -/
def sampleRun : FileSystem := (sample.generateAll ⟨false, none⟩ sampleStart).2

/-- The file system after a change of the first template. -/
def sampleEdited : FileSystem :=
  (sampleRun.write "web/themes/card.stories.twig" (.text (titledTemplate "Two"))).2.stamp
    ["box", "web", "themes", "card.stories.twig"] 100

/-- The names of the two templates. -/
def sampleNames : List String := ["card.stories.twig", "menu.stories.twig"]

/-- Nothing was generated at the beginning. -/
theorem begins_sample : sample.Begins (· ∈ sampleNames) sampleStart := by
  have hchecks : (∀ e ∈ sampleStart.items, sampleStart.Fits e.1 e.2) ∧
      sampleStart.isDirectory sample.root = true ∧
      sampleStart.isDirectory sample.storiesDir = true ∧
      (templateDirs.flatMap (sample.templateFiles sampleStart)).map fileName? =
        sampleNames.map some ∧
      ∀ n ∈ sampleNames, sampleStart.modified (sample.storiesPath n) = .ok none := by
    decide +kernel
  obtain ⟨hfits, hroot, hdir, hfound, hfree⟩ := hchecks
  have htree := isTree_of_forall_items hfits
  exact ⟨htree, hroot, hdir, orderly_of_found htree hroot hfound (fun _ h => h) (by decide), hfree⟩

/-- The first template was changed after its stories file was made. -/
theorem edited_sample :
    (∀ e ∈ sampleEdited.items, sampleEdited.Fits e.1 e.2) ∧
      sampleEdited.isDirectory sample.root = true ∧
      (templateDirs.flatMap (sample.templateFiles sampleEdited)).map fileName? =
        sampleNames.map some ∧
      (sampleRun.write "web/themes/card.stories.twig" (.text (titledTemplate "Two"))).1 = .ok () ∧
      (sampleRun.write "web/themes/card.stories.twig" (.text (titledTemplate "Two"))).2.locate
        "web/themes/card.stories.twig" = .ok ["box", "web", "themes", "card.stories.twig"] ∧
      sampleEdited.isFile "web/themes/card.stories.twig" = true ∧
      sampleEdited.readText "web/themes/card.stories.twig" = .ok (titledTemplate "Two") ∧
      sampleRun.modified (sample.storiesPath "web/themes/card.stories.twig") = .ok (some 1) ∧
      ∀ n ∈ sampleNames, sampleRun.modified (sample.storiesPath n) = .ok none →
        sampleEdited.modified (sample.storiesPath n) = .ok none := by
  decide +kernel

/-- The first template is one after its change. -/
theorem hasTemplate_sample :
    sample.HasTemplate sampleEdited "web/themes/card.stories.twig" "card.stories.twig" := by
  obtain ⟨-, -, -, -, -, hfile, -⟩ := edited_sample
  exact ⟨"themes", by decide, [], by decide, by decide, by decide, hfile⟩

/-- The change of the first template is a step. -/
theorem step_sample : sample.Step (· ∈ sampleNames) none sampleRun sampleEdited := by
  obtain ⟨hfits, hroot, hfound, hwrite, hlocate, -, -, hmade, hfree⟩ := edited_sample
  refine .edit "web/themes/card.stories.twig" "card.stories.twig" (.text (titledTemplate "Two")) 100
    (Prod.ext hwrite rfl) ?_ hasTemplate_sample ?_ ?_ hfree
  · rw [setModified, hlocate]
    rfl
  · exact orderly_of_found (isTree_of_forall_items hfits) hroot hfound (fun _ h => h) (by decide)
  · intro made hmade'
    have heq := hmade.symm.trans hmade'
    simp only [Except.ok.injEq, Option.some.injEq] at heq
    omega

/-- A run after that writes its stories file again, though the other template fails. -/
theorem isCurrent_generateAll_sample :
    (∀ n ∈ sampleNames, FileName.IsPlainTemplate n) ∧
    sample.Begins (· ∈ sampleNames) sampleStart ∧
    Relation.ReflTransGen (sample.Step (· ∈ sampleNames) none) sampleStart sampleEdited ∧
    ∃ attempts fs', sample.generateAll ⟨false, none⟩ sampleEdited = (.ok attempts, fs') ∧
      fs'.readText (sample.storiesPath "web/themes/card.stories.twig") = .ok
        ("\x7b\"title\":\"Two\",\"parameters\":\x7b\"server\":\x7b\"id\":\"card\"\x7d\x7d," ++
          "\"stories\":[]\x7d") := by
  have hplain : ∀ n ∈ sampleNames, FileName.IsPlainTemplate n := by
    have hchecks : ∀ n ∈ sampleNames,
        IsName n ∧ FileName.isTemplate n = true ∧ FileName.endsAsTemplate n = true := by
      decide +kernel
    exact fun n hn => ⟨(hchecks n hn).1, (hchecks n hn).2.1, (hchecks n hn).2.2⟩
  have hsteps : Relation.ReflTransGen (sample.Step (· ∈ sampleNames) none) sampleStart
      sampleEdited :=
    (Relation.ReflTransGen.single (.run sampleStart)).tail step_sample
  obtain ⟨attempts, fs', hrun, hiff, hcurrent⟩ :=
    isCurrent_generateAll hplain begins_sample hsteps false
  have hrender : (Template.storiesFile? (titledTemplate "Two") "").map StoriesFile.render = some
      ("\x7b\"title\":\"Two\",\"parameters\":\x7b\"server\":\x7b\"id\":\"card\"\x7d\x7d," ++
        "\"stories\":[]\x7d") := by
    decide +kernel
  obtain ⟨file, hfile, htext⟩ := Option.map_eq_some_iff.mp hrender
  refine ⟨hplain, begins_sample, hsteps, attempts, fs', hrun, ?_⟩
  obtain ⟨-, -, -, -, -, -, hread, -⟩ := edited_sample
  obtain ⟨hsame, hnow⟩ := hcurrent _ _ ((hiff _ _).mpr hasTemplate_sample)
  rw [hnow (titledTemplate "Two") file (hsame.trans hread) hfile, htext]

end ComponentStories.Site
