import ComponentStories.Proofs.FileName
import ComponentStories.Proofs.FileSystem.Walk
import ComponentStories.Site

/-
# The templates of a site

A template of a site is a file below one of the directories that are looked through, with a name
that is looked at (`HasTemplate`).  In a directory tree whose templates have the suffix in lower
case all of them are found, and nothing else is (`exists_templates_eq_ok`).
-/

namespace ComponentStories.Site

open ComponentStories.Path

/-- A template of a site and its name: a file at a path that leads down from the root, below one of
the directories that are looked through, with a name that is looked at. -/
def HasTemplate (site : Site) (fs : FileSystem) (t name : String) : Prop :=
  ∃ dir ∈ templateDirs, ∃ dirs, (∀ n ∈ dirs ++ [name], IsName n) ∧
    t = (dir :: (dirs ++ [name])).foldl join site.root ∧
    FileName.isTemplate name = true ∧ fs.isFile t = true

variable {site : Site} {fs : FileSystem} {r : Location} {t name : String} {paths : List String}

theorem isName_of_mem_templateDirs {dir : String} (h : dir ∈ templateDirs) : IsName dir := by
  have hall : ∀ dir ∈ templateDirs, IsName dir := by decide
  exact hall dir h

theorem isName_of_mem_way {dir : String} (hdir : dir ∈ templateDirs) {dirs : List String}
    (h : ∀ n ∈ dirs ++ [name], IsName n) : ∀ n ∈ dir :: (dirs ++ [name]), IsName n :=
  List.forall_mem_cons.mpr ⟨isName_of_mem_templateDirs hdir, h⟩

theorem HasTemplate.isFile (h : site.HasTemplate fs t name) : fs.isFile t = true := by
  obtain ⟨-, -, -, -, -, -, hfile⟩ := h
  exact hfile

theorem HasTemplate.fileName?_eq (h : site.HasTemplate fs t name) : fileName? t = some name := by
  obtain ⟨dir, -, dirs, hnames, rfl, -⟩ := h
  rw [List.foldl_cons, List.foldl_append]
  exact fileName?_join _ (hnames name (List.mem_append_right _ List.mem_cons_self))

theorem HasTemplate.storiesPath_eq (h : site.HasTemplate fs t name) :
    site.storiesPath t = join site.storiesDir (FileName.storiesFile name) := by
  rw [storiesPath, h.fileName?_eq]
  rfl

theorem storiesPath_eq_of_isName (site : Site) (h : IsName name) :
    site.storiesPath name = join site.storiesDir (FileName.storiesFile name) := by
  rw [storiesPath, fileName?_of_isName h]
  rfl

/-! ## Looking for templates -/

/-- A file below a directory of the root stands in a directory. -/
theorem isDirectory_of_isFile (htree : fs.IsTree) (hr : fs.LeadsTo site.root r) {dir : String}
    {names : List String} (hne : names ≠ []) (hnames : ∀ n ∈ dir :: names, IsName n)
    (hfile : fs.isFile ((dir :: names).foldl join site.root) = true) :
    fs.isDirectory (join site.root dir) = true := by
  obtain ⟨hdir, hrest⟩ := List.forall_mem_cons.mp hnames
  obtain ⟨content, time, hitem⟩ := FileSystem.isFile_iff.mp hfile
  obtain ⟨hfault, hitem⟩ :=
    (htree.item_foldl_join_eq_ok_iff hr (List.cons_ne_nil dir names) hnames).mp hitem
  have hentry : fs.entryAt? (r ++ [dir]) = some .directory := by
    apply htree.directory_of_append hne
    rw [← List.append_cons, FileSystem.entryAt?, hitem]
    exact Option.some_ne_none _
  rw [List.foldl_cons] at hfault
  have hpath : FileSystem.pathFault? (join site.root dir) = none :=
    FileSystem.pathFault?_eq_none_of_front (join_ne_empty _ hdir)
      (toList_front_foldl_join _ hrest) hfault
  exact (htree.leadsTo_join hr hdir hentry).isDirectory hpath

/-- The files below a directory that are looked at are the templates below it. -/
theorem mem_templateFiles_iff (htree : fs.IsTree) (hr : fs.LeadsTo site.root r) {dir : String}
    (hdir : dir ∈ templateDirs) :
    t ∈ site.templateFiles fs dir ↔ ∃ dirs name, (∀ n ∈ dirs ++ [name], IsName n) ∧
      t = (dir :: (dirs ++ [name])).foldl join site.root ∧
      FileName.isTemplate name = true ∧ fs.isFile t = true := by
  rw [templateFiles, List.mem_filter, htree.mem_filesBelow_iff]
  constructor
  · rintro ⟨⟨-, hfile, names, hne, hnames, rfl⟩, hname⟩
    obtain ⟨dirs, name, rfl⟩ := (List.eq_nil_or_concat' names).resolve_left hne
    refine ⟨dirs, name, hnames, rfl, ?_, hfile⟩
    rw [List.foldl_concat,
      fileName?_join _ (hnames name (List.mem_append_right _ List.mem_cons_self))] at hname
    exact hname
  · rintro ⟨dirs, name, hnames, rfl, hname, hfile⟩
    have hway := isName_of_mem_way hdir hnames
    have hne : dirs ++ [name] ≠ [] := List.concat_ne_nil _ _
    refine ⟨⟨isDirectory_of_isFile htree hr hne hway hfile, hfile, dirs ++ [name], hne, hnames,
      rfl⟩, ?_⟩
    rw [List.foldl_cons, List.foldl_concat,
      fileName?_join _ (hnames name (List.mem_append_right _ List.mem_cons_self))]
    exact hname

/-- A path is inside of another one if its location begins with that of the other. -/
theorem isInside_of_locate {path root : String} {l r : Location} (hpath : fs.locate path = .ok l)
    (hroot : fs.locate root = .ok r) (h : r <+: l) : isInside fs path root = true := by
  rw [isInside, hpath, hroot]
  exact List.isPrefixOf_iff_prefix.mpr h

/-- A template with the suffix in lower case is not at fault. -/
theorem HasTemplate.templateFault?_eq_none (h : site.HasTemplate fs t name) (htree : fs.IsTree)
    (hroot : fs.isDirectory site.root = true) (hlower : FileName.endsAsTemplate name = true) :
    site.templateFault? fs t = none := by
  obtain ⟨hfault, r, hr⟩ := htree.isDirectory_iff.mp hroot
  obtain ⟨dir, hdir, dirs, hnames, rfl, -, hfile⟩ := h
  have hway := isName_of_mem_way hdir hnames
  have hsuffix :
      FileName.endsAsTemplate ((dir :: (dirs ++ [name])).foldl join site.root) = true := by
    rw [List.foldl_cons, List.foldl_append]
    rw [FileName.endsAsTemplate, List.isSuffixOf_iff_suffix] at hlower ⊢
    have hname : IsName name := hnames name (List.mem_append_right _ List.mem_cons_self)
    exact hlower.trans (toList_end_join _ name)
  have hinside : isInside fs ((dir :: (dirs ++ [name])).foldl join site.root) site.root = true := by
    obtain ⟨content, time, hitem⟩ := FileSystem.isFile_iff.mp hfile
    obtain ⟨l, hlocate, -⟩ := FileSystem.item_eq_ok_iff.mp hitem
    obtain ⟨-, rfl, -⟩ :=
      (htree.locate_foldl_join_eq_ok_iff hr (List.cons_ne_nil _ _) hway).mp hlocate
    have hroot := FileSystem.locate_eq_ok_iff.mpr (hr.resolve hfault (by decide))
    exact isInside_of_locate hlocate hroot (List.prefix_append _ _)
  rw [templateFault?, hsuffix, hinside]
  rfl

/-- A path without fault has the suffix of templates and is inside of the root. -/
theorem templateFault?_eq_none_iff : site.templateFault? fs t = none ↔
    FileName.endsAsTemplate t = true ∧ isInside fs t site.root = true := by
  rw [templateFault?]
  cases FileName.endsAsTemplate t <;> cases isInside fs t site.root <;> simp

/-- The templates below a directory are all that is found there, if nothing of it is at fault. -/
theorem templatesIn_eq_ok_iff {dir : String} : site.templatesIn fs dir = .ok paths ↔
    (∀ t ∈ site.templateFiles fs dir, site.templateFault? fs t = none) ∧
      paths = site.templateFiles fs dir := by
  rw [templatesIn, ← List.findSome?_eq_none_iff]
  cases (site.templateFiles fs dir).findSome? (site.templateFault? fs) <;> simp [eq_comm]

/-- A fault that a search gives is one of something that is found. -/
theorem exists_of_templatesIn_eq_error {dir : String} {e : GenerateError}
    (h : site.templatesIn fs dir = .error e) :
    ∃ t ∈ site.templateFiles fs dir, site.templateFault? fs t = some e := by
  rw [templatesIn] at h
  split at h
  · rename_i e' hfault
    rw [← Except.error.inj h]
    exact List.exists_of_findSome?_eq_some hfault
  · exact absurd h (by simp)

/-- The templates below some directories are those below each of them, if there are no faults. -/
theorem templatesInAll_eq_ok_iff {dirs : List String} : site.templatesInAll fs dirs = .ok paths ↔
    (∀ dir ∈ dirs, ∀ t ∈ site.templateFiles fs dir, site.templateFault? fs t = none) ∧
      paths = dirs.flatMap (site.templateFiles fs) := by
  induction dirs generalizing paths with
  | nil => simp [templatesInAll, eq_comm]
  | cons dir dirs ih =>
    rw [templatesInAll, templatesIn, List.forall_mem_cons, List.flatMap_cons]
    cases hfault : (site.templateFiles fs dir).findSome? (site.templateFault? fs) with
    | some e =>
      obtain ⟨t, ht, hte⟩ := List.exists_of_findSome?_eq_some hfault
      refine iff_of_false (by simp) fun h => ?_
      rw [h.1.1 t ht] at hte
      exact absurd hte (by simp)
    | none =>
      rw [List.findSome?_eq_none_iff] at hfault
      dsimp only
      cases hrest : site.templatesInAll fs dirs with
      | error e =>
        refine iff_of_false (by simp [Except.map]) fun h => ?_
        have hok := ih.mpr ⟨h.1.2, rfl⟩
        exact absurd (hrest.symm.trans hok) (by simp)
      | ok rest =>
        obtain ⟨hfaults, rfl⟩ := ih.mp hrest
        constructor
        · intro h
          exact ⟨⟨hfault, hfaults⟩, (Except.ok.inj h).symm⟩
        · rintro ⟨-, rfl⟩
          rfl

/-- The templates that are found are those below the directories that are looked through,
and they are without fault. -/
theorem mem_of_templates_eq_ok (h : site.templates fs = .ok paths) : t ∈ paths ↔
    site.templateFault? fs t = none ∧ ∃ dir ∈ templateDirs, t ∈ site.templateFiles fs dir := by
  obtain ⟨hfaults, rfl⟩ := templatesInAll_eq_ok_iff.mp h
  rw [List.mem_flatMap, iff_and_self]
  rintro ⟨dir, hdir, ht⟩
  exact hfaults dir hdir t ht

/-- **All templates are found**, if their suffixes are in lower case, and nothing else is. -/
theorem exists_templates_eq_ok (htree : fs.IsTree) (hroot : fs.isDirectory site.root = true)
    (hlower : ∀ t name, site.HasTemplate fs t name → FileName.endsAsTemplate name = true) :
    ∃ paths, site.templates fs = .ok paths ∧
      ∀ t, t ∈ paths ↔ ∃ name, site.HasTemplate fs t name := by
  obtain ⟨-, r, hr⟩ := htree.isDirectory_iff.mp hroot
  have hfind : ∀ t dir, dir ∈ templateDirs → t ∈ site.templateFiles fs dir →
      ∃ name, site.HasTemplate fs t name := by
    intro t dir hdir ht
    obtain ⟨dirs, name, h⟩ := (mem_templateFiles_iff htree hr hdir).mp ht
    exact ⟨name, dir, hdir, dirs, h⟩
  refine ⟨_, templatesInAll_eq_ok_iff.mpr ⟨fun dir hdir t ht => ?_, rfl⟩, fun t => ?_⟩
  · obtain ⟨name, h⟩ := hfind t dir hdir ht
    exact h.templateFault?_eq_none htree hroot (hlower t name h)
  rw [List.mem_flatMap]
  constructor
  · rintro ⟨dir, hdir, ht⟩
    exact hfind t dir hdir ht
  · rintro ⟨name, dir, hdir, dirs, h⟩
    exact ⟨dir, hdir, (mem_templateFiles_iff htree hr hdir).mpr ⟨dirs, name, h⟩⟩

/-- A name that is looked at has the suffix in lower case if a path that ends in it has. -/
theorem endsAsTemplate_of_join (hform : FileName.isTemplate name = true) {path : String}
    (h : FileName.endsAsTemplate (join path name) = true) :
    FileName.endsAsTemplate name = true := by
  rw [FileName.endsAsTemplate, List.isSuffixOf_iff_suffix] at h ⊢
  exact List.suffix_of_suffix_length_le h (toList_end_join path name)
    (FileName.of_isTemplate hform).1

/-- **What is found as a template is one**, with the suffix in lower case,
and nothing is passed over. -/
theorem mem_templates_iff (htree : fs.IsTree) (hr : fs.LeadsTo site.root r)
    (h : site.templates fs = .ok paths) : t ∈ paths ↔
      ∃ name, site.HasTemplate fs t name ∧ FileName.IsPlainTemplate name := by
  constructor
  · intro ht
    obtain ⟨hfault, dir, hdir, ht⟩ := (mem_of_templates_eq_ok h).mp ht
    obtain ⟨dirs, name, hnames, rfl, hform, hfile⟩ := (mem_templateFiles_iff htree hr hdir).mp ht
    refine ⟨name, ⟨dir, hdir, dirs, hnames, rfl, hform, hfile⟩, ?_⟩
    have hname : IsName name := hnames name (List.mem_append_right _ List.mem_cons_self)
    have hlower := (templateFault?_eq_none_iff.mp hfault).1
    rw [List.foldl_cons, List.foldl_concat] at hlower
    exact ⟨hname, hform, endsAsTemplate_of_join hform hlower⟩
  · rintro ⟨name, ⟨dir, hdir, dirs, hway⟩, -⟩
    have ht := (mem_templateFiles_iff htree hr hdir).mpr ⟨dirs, name, hway⟩
    obtain ⟨hfaults, -⟩ := templatesInAll_eq_ok_iff.mp h
    exact (mem_of_templates_eq_ok h).mpr ⟨hfaults dir hdir t ht, dir, hdir, ht⟩

end ComponentStories.Site
