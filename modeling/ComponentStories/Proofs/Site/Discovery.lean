import ComponentStories.FileSystem.Listing
import ComponentStories.Proofs.FileSystem.Ascending
import ComponentStories.Proofs.Site.Templates
import ComponentStories.Proofs.Text.Bytes

/-
# Looking for templates is complete, ordered and all or nothing

What is found below a directory is told by the names that lead down to it: all files whose names are
looked at, in the order of the bytes of these names, compared one name after the other
(`exists_templateFiles_eq`).  All stories files are made from what is found below the directories
that are looked through, one behind the other, and nothing is made if a single template is at fault
(`generateAll_eq`, `discovery_exact`).
-/

namespace ComponentStories.Site

open ComponentStories.Path FileSystem

variable {site : Site} {fs : FileSystem} {dir : String} {paths : List String}

/-! ## Below one directory -/

theorem nodup_templateFiles (htree : fs.IsTree) (site : Site) (dir : String) :
    (site.templateFiles fs dir).Nodup := by
  rw [templateFiles, ← filesBelowIn_children]
  exact (htree.nodup_filesBelowIn fs.enumerates_children).filter _

/-- Below what is no directory nothing is found. -/
theorem templatesIn_of_not_isDirectory (htree : fs.IsTree)
    (h : fs.isDirectory (join site.root dir) = false) : site.templatesIn fs dir = .ok [] := by
  have hnone : site.templateFiles fs dir = [] := by
    refine List.eq_nil_iff_forall_not_mem.mpr fun t ht => ?_
    have hbelow := htree.mem_filesBelow_iff.mp (List.mem_filter.mp ht).1
    exact absurd (h.symm.trans hbelow.1) Bool.false_ne_true
  rw [templatesIn_eq_ok_iff, hnone]
  exact ⟨List.forall_mem_nil _, rfl⟩

/-- **What is found below a directory** is told by the names that lead to it, in
the order of their bytes. -/
theorem exists_templateFiles_eq (htree : fs.IsTree) (site : Site) (dir : String) :
    ∃ ways : List (List String),
      site.templateFiles fs dir = ways.map (fun names => names.foldl join (join site.root dir)) ∧
      ways.Pairwise (fun names names' => names.map Text.bytes < names'.map Text.bytes) ∧
      ∀ names, names ∈ ways ↔ fs.isDirectory (join site.root dir) = true ∧
        (∀ n ∈ names, IsName n) ∧ fs.isFile (names.foldl join (join site.root dir)) = true ∧
        ∃ dirs name, names = dirs ++ [name] ∧ FileName.isTemplate name = true := by
  obtain ⟨ways, hpaths, hordered, hmem⟩ := htree.exists_filesBelow_eq (join site.root dir)
  refine ⟨ways.filter fun names =>
    (fileName? (names.foldl join (join site.root dir))).any FileName.isTemplate, ?_, ?_, ?_⟩
  · rw [templateFiles, hpaths, List.filter_map]
    rfl
  · exact (hordered.filter _).imp Text.map_bytes_lt_iff.mpr
  · intro names
    rw [List.mem_filter, hmem]
    constructor
    · rintro ⟨⟨hdir, hne, hnames, hfile⟩, hform⟩
      obtain ⟨dirs, name, rfl⟩ := (List.eq_nil_or_concat' names).resolve_left hne
      rw [List.foldl_concat,
        fileName?_join _ (hnames name (List.mem_append_right _ List.mem_cons_self))] at hform
      exact ⟨hdir, hnames, hfile, dirs, name, rfl, hform⟩
    · rintro ⟨hdir, hnames, hfile, dirs, name, rfl, hform⟩
      refine ⟨⟨hdir, List.concat_ne_nil _ _, hnames, hfile⟩, ?_⟩
      rw [List.foldl_concat,
        fileName?_join _ (hnames name (List.mem_append_right _ List.mem_cons_self))]
      exact hform

/-! ## Below all directories -/

/-- Below some directories what is found is looked at as a whole. -/
theorem templatesInAll_eq (site : Site) (fs : FileSystem) (dirs : List String) :
    site.templatesInAll fs dirs =
      match (dirs.flatMap (site.templateFiles fs)).findSome? (site.templateFault? fs) with
      | some e => .error e
      | none => .ok (dirs.flatMap (site.templateFiles fs)) := by
  induction dirs with
  | nil => rfl
  | cons dir dirs ih =>
    rw [templatesInAll, templatesIn, ih, List.flatMap_cons, List.findSome?_append]
    cases (site.templateFiles fs dir).findSome? (site.templateFault? fs) with
    | some e => rfl
    | none =>
      rw [Option.none_or]
      cases (dirs.flatMap (site.templateFiles fs)).findSome? (site.templateFault? fs) <;> rfl

/-- What is found below the directories that are looked through. -/
def found (site : Site) (fs : FileSystem) : List String :=
  site.templateFiles fs "themes" ++ site.templateFiles fs "modules" ++
    site.templateFiles fs "profiles"

/-- **All stories files are made from what is found, or none** if something of it is at fault. -/
theorem generateAll_eq (site : Site) (request : Request) (fs : FileSystem) :
    site.generateAll request fs =
      match (site.found fs).findSome? (site.templateFault? fs) with
      | some e => (.error e, fs)
      | none =>
        (.ok (inTurn (site.generate request) (site.found fs) fs).1,
          (inTurn (site.generate request) (site.found fs) fs).2) := by
  have hfound : templateDirs.flatMap (site.templateFiles fs) = site.found fs := by
    simp [templateDirs, found]
  rw [generateAll, templates, templatesInAll_eq, hfound]
  cases (site.found fs).findSome? (site.templateFault? fs) <;> rfl

/-- **Looking for templates is complete, ordered and all or nothing** in a directory tree.  What is
found below a directory, if nothing of it is at fault, is every file below it whose name is looked
at, each once, and comes in the order of the bytes of the names that lead down to it, compared one
after the other.  Below a missing directory nothing is found.  Making all stories files gives one
result for each template that is found, below the directories in turn, each in the state that the
templates in front of it left; but if a template is at fault, wherever it is, the first such fault
is given and nothing is changed. -/
theorem discovery_exact (htree : fs.IsTree) (site : Site) (request : Request) :
    (∀ dir paths, site.templatesIn fs dir = .ok paths → paths.Nodup ∧ ∃ ways : List (List String),
      paths = ways.map (fun names => names.foldl join (join site.root dir)) ∧
      ways.Pairwise (fun names names' => names.map Text.bytes < names'.map Text.bytes) ∧
      ∀ names, names ∈ ways ↔ fs.isDirectory (join site.root dir) = true ∧
        (∀ n ∈ names, IsName n) ∧ fs.isFile (names.foldl join (join site.root dir)) = true ∧
        ∃ dirs name, names = dirs ++ [name] ∧ FileName.isTemplate name = true) ∧
    (∀ dir, fs.isDirectory (join site.root dir) = false → site.templatesIn fs dir = .ok []) ∧
    let found := site.templateFiles fs "themes" ++ site.templateFiles fs "modules" ++
      site.templateFiles fs "profiles"
    ((∀ t ∈ found, site.templateFault? fs t = none) →
      ∃ attempts after, site.generateAll request fs = (.ok attempts, after) ∧
        attempts.length = found.length ∧
        ∀ front t back, found = front ++ t :: back → attempts[front.length]? =
          some (site.generate request t (inTurn (site.generate request) front fs).2).1) ∧
    ((∃ t ∈ found, site.templateFault? fs t ≠ none) →
      ∃ front t back e, found = front ++ t :: back ∧
        (∀ u ∈ front, site.templateFault? fs u = none) ∧
        site.templateFault? fs t = some e ∧ site.generateAll request fs = (.error e, fs)) := by
  refine ⟨fun dir paths hpaths => ?_, fun dir => templatesIn_of_not_isDirectory htree, ?_, ?_⟩
  · obtain ⟨-, rfl⟩ := templatesIn_eq_ok_iff.mp hpaths
    exact ⟨nodup_templateFiles htree site dir, exists_templateFiles_eq htree site dir⟩
  · intro hfaults
    rw [generateAll_eq]
    change ∀ t ∈ site.found fs, _ at hfaults
    rw [List.findSome?_eq_none_iff.mpr hfaults]
    refine ⟨_, _, rfl, length_inTurn _ _ _, fun front t back hfound => ?_⟩
    change site.found fs = _ at hfound
    rw [hfound, inTurn_append, List.getElem?_append_right (length_inTurn _ _ _).le, length_inTurn,
      Nat.sub_self]
    rfl
  · rintro ⟨t, ht, hfault⟩
    have hsome : (site.found fs).findSome? (site.templateFault? fs) ≠ none := fun hnone =>
      hfault (List.findSome?_eq_none_iff.mp hnone t ht)
    obtain ⟨e, he⟩ := Option.ne_none_iff_exists'.mp hsome
    obtain ⟨front, u, back, hfound, hu, hfront⟩ := List.findSome?_eq_some_iff.mp he
    refine ⟨front, u, back, e, hfound, hfront, hu, ?_⟩
    rw [generateAll_eq, he]

/-- A site with three templates, of which one has its suffix in capitals. -/
def depot : FileSystem := FileSystem.ofItems ["box"] [
  (["box", "web"], ⟨.directory, 0⟩), (["box", "web", "themes"], ⟨.directory, 0⟩),
  (["box", "web", "themes", "a.stories.twig"], ⟨.file (.text "one"), 0⟩),
  (["box", "web", "themes", "readme.twig"], ⟨.file (.text "none"), 0⟩),
  (["box", "web", "themes", "a"], ⟨.directory, 0⟩),
  (["box", "web", "themes", "a", "z.stories.twig"], ⟨.file (.text "two"), 0⟩),
  (["box", "web", "profiles"], ⟨.directory, 0⟩),
  (["box", "web", "profiles", "b.STORIES.TWIG"], ⟨.file (.text "three"), 0⟩)]

/-- The templates of the first directory are found, going down before going on; there are none in
the second one, which is missing; and nothing is made because of the one in the third. -/
theorem discovery_exact_depot : depot.IsTree ∧
    (∃ paths, (⟨"web", "out"⟩ : Site).templatesIn depot "themes" = .ok paths ∧ paths.Nodup ∧
      paths = ["web/themes/a/z.stories.twig", "web/themes/a.stories.twig"]) ∧
    (⟨"web", "out"⟩ : Site).templatesIn depot "modules" = .ok [] ∧
    ∃ e, (⟨"web", "out"⟩ : Site).generateAll ⟨true, none⟩ depot = (.error e, depot) := by
  have htree : depot.IsTree := isTree_of_forall_items (by decide +kernel)
  obtain ⟨hscan, hmissing, -, hfault⟩ := discovery_exact htree ⟨"web", "out"⟩ ⟨true, none⟩
  have hthemes : (⟨"web", "out"⟩ : Site).templatesIn depot "themes" =
      .ok ["web/themes/a/z.stories.twig", "web/themes/a.stories.twig"] := by
    rw [templatesIn_eq_ok_iff]
    decide +kernel
  obtain ⟨-, -, -, e, -, -, -, hall⟩ := hfault
    ⟨"web/profiles/b.STORIES.TWIG", by decide +kernel, by decide +kernel⟩
  exact ⟨htree, ⟨_, hthemes, (hscan _ _ hthemes).1, rfl⟩,
    hmissing _ (by decide +kernel), e, hall⟩

end ComponentStories.Site
