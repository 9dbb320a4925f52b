import ComponentStories.Proofs.FileSystem.Order

/-
# The walk goes down before it goes on

A directory tells the names in it in ascending order (`pairwise_children`).  So the walk in a
directory tree passes the files below a directory in the order of the names that lead to them,
compared one after the other (`IsTree.exists_filesBelow_eq`).
-/

namespace ComponentStories.FileSystem

open ComponentStories.Path

variable {fs : FileSystem} {l d : Location} {path : String}

/-! ## The names that lead to files -/

/-- The names that lead from a directory to the files at a name in it or below it, if `walk` tells
those that lead on from a directory. -/
def waysAt (fs : FileSystem) (walk : Location → List (List String)) (dir : Location)
    (name : String) : List (List String) :=
  match fs.entryAt? (dir ++ [name]) with
  | some (.file _) => [[name]]
  | some .directory => (walk (dir ++ [name])).map (name :: ·)
  | _ => []

/-- The names that lead to the files below a directory, in the order of the walk. -/
def waysFrom (fs : FileSystem) : Nat → Location → List (List String)
  | 0, _ => []
  | fuel + 1, dir => (fs.children dir).flatMap (fs.waysAt (waysFrom fs fuel) dir)

/-- What leads to a file at a name or below it begins with the name. -/
theorem exists_of_mem_waysAt {walk : Location → List (List String)} {name : String}
    {names : List String} (h : names ∈ fs.waysAt walk d name) :
    ∃ rest, names = name :: rest ∧ (rest = [] ∨ rest ∈ walk (d ++ [name])) := by
  rw [waysAt] at h
  split at h
  · exact ⟨[], List.mem_singleton.mp h, Or.inl rfl⟩
  · obtain ⟨rest, hrest, rfl⟩ := List.mem_map.mp h
    exact ⟨rest, rfl, Or.inr hrest⟩
  · exact absurd h List.not_mem_nil

/-- In a directory tree the walk passes the paths that the names lead to. -/
theorem IsTree.filesFrom_eq (htree : fs.IsTree) (fuel : Nat) (inside : List Location) (d : Location)
    (path : String) : fs.filesFrom fuel inside d path =
      (fs.waysFrom fuel d).map fun names => names.foldl join path := by
  induction fuel generalizing inside d path with
  | zero => rfl
  | succ fuel ih =>
    rw [filesFrom, waysFrom, List.map_flatMap]
    refine List.flatMap_congr fun name _ => ?_
    rw [waysAt]
    cases hentry : fs.entryAt? (d ++ [name]) with
    | none => rfl
    | some entry =>
      cases entry with
      | file content => rfl
      | directory =>
        dsimp only
        rw [ih, List.map_map]
        rfl
      | link target => exact absurd hentry (htree.plain _ _)

/-- What leads to a file is some names. -/
theorem IsTree.isName_of_mem_waysFrom (htree : fs.IsTree) {fuel : Nat} {names : List String}
    (h : names ∈ fs.waysFrom fuel d) : names ≠ [] ∧ ∀ n ∈ names, IsName n := by
  induction fuel generalizing d names with
  | zero => exact absurd h List.not_mem_nil
  | succ fuel ih =>
    rw [waysFrom, List.mem_flatMap] at h
    obtain ⟨name, hname, hnames⟩ := h
    obtain ⟨rest, rfl, hrest⟩ := exists_of_mem_waysAt hnames
    refine ⟨List.cons_ne_nil _ _, List.forall_mem_cons.mpr ⟨?_, ?_⟩⟩
    · exact htree.name d name (mem_children_iff.mp hname)
    · rcases hrest with rfl | hrest
      · exact List.forall_mem_nil _
      · exact (ih hrest).2

/-- **The walk goes down before it goes on**: the names that lead to the files come in ascending
order, compared one after the other. -/
theorem pairwise_waysFrom (fs : FileSystem) (fuel : Nat) (d : Location) :
    (fs.waysFrom fuel d).Pairwise (· < ·) := by
  induction fuel generalizing d with
  | zero => exact List.Pairwise.nil
  | succ fuel ih =>
    rw [waysFrom, List.pairwise_flatMap]
    refine ⟨fun name _ => ?_, (fs.pairwise_children d).imp fun {a b} hlt names ha names' hb => ?_⟩
    · rw [waysAt]
      split
      · exact List.pairwise_singleton _ _
      · refine List.pairwise_map.mpr ((ih _).imp fun hlt => ?_)
        exact List.cons_lt_cons_iff.mpr (Or.inr ⟨rfl, hlt⟩)
      · exact List.Pairwise.nil
    · obtain ⟨rest, rfl, -⟩ := exists_of_mem_waysAt ha
      obtain ⟨rest', rfl, -⟩ := exists_of_mem_waysAt hb
      exact List.cons_lt_cons_iff.mpr (Or.inl hlt)

/-- **The files below a directory are passed in the order of the names that lead
to them**, every file once. -/
theorem IsTree.exists_filesBelow_eq (htree : fs.IsTree) (path : String) :
    ∃ ways : List (List String), fs.filesBelow path =
      ways.map (fun names => names.foldl join path) ∧
      ways.Pairwise (· < ·) ∧
      ∀ names, names ∈ ways ↔ fs.isDirectory path = true ∧ names ≠ [] ∧ (∀ n ∈ names, IsName n) ∧
        fs.isFile (names.foldl join path) = true := by
  by_cases hdir : fs.isDirectory path = true
  · obtain ⟨hfault, d, hd⟩ := htree.isDirectory_iff.mp hdir
    have hpaths : fs.filesBelow path = ((fs.waysFrom fs.walkFuel d).filter fun names =>
        fs.isFile (names.foldl join path)).map fun names => names.foldl join path := by
      rw [filesBelow, locate_eq_ok_iff.mpr (hd.resolve hfault (by decide))]
      dsimp only
      rw [if_pos hdir, htree.filesFrom_eq, List.filter_map]
      rfl
    refine ⟨_, hpaths, (fs.pairwise_waysFrom _ d).filter _, fun names => ?_⟩
    have hmem : names.foldl join path ∈ fs.filesBelow path ↔ _ := htree.mem_filesBelow_iff
    rw [hpaths, List.mem_map] at hmem
    constructor
    · intro hnames
      obtain ⟨hway, hfile⟩ := List.mem_filter.mp hnames
      obtain ⟨hne, hnames⟩ := htree.isName_of_mem_waysFrom hway
      exact ⟨hdir, hne, hnames, hfile⟩
    · rintro ⟨-, hne, hnames, hfile⟩
      -- the path is passed, and no other names lead to it
      obtain ⟨names', hway, heq⟩ := hmem.mpr ⟨hdir, hfile, names, hne, hnames, rfl⟩
      obtain ⟨-, hnames'⟩ := htree.isName_of_mem_waysFrom (List.mem_filter.mp hway).1
      rwa [foldl_join_injective hnames' hnames heq] at hway
  · have hnone : fs.filesBelow path = [] :=
      List.eq_nil_iff_forall_not_mem.mpr fun p hp => hdir (htree.mem_filesBelow_iff.mp hp).1
    refine ⟨[], hnone, List.Pairwise.nil, fun names => ?_⟩
    exact iff_of_false List.not_mem_nil fun hall => hdir hall.1

end ComponentStories.FileSystem
