import ComponentStories.Proofs.FileSystem.Walk
import Mathlib.Data.List.Lex
import Mathlib.Data.String.Basic

/-
# The walk in any order

A file system keeps its items in ascending order of their locations, so a directory tells the names
in it in ascending order (`pairwise_children`).  What stands in a directory may be told in any other
order, as long as every name is told once (`Enumerates`).  The walk that follows such an order
passes the same files as the walk in ascending order, and in a directory tree it passes each of them
once (`IsTree.nodup_filesBelowIn`).
-/

namespace ComponentStories.FileSystem

open ComponentStories.Path

variable {fs : FileSystem} {list : Location → List String} {l d : Location} {path : String}

/-! ## Names in order -/

/-- Names in one directory are compared as their locations are. -/
theorem concat_lt_concat_iff {a b : String} : l ++ [a] < l ++ [b] ↔ a < b := by
  induction l with
  | nil => simp [List.cons_lt_cons_iff]
  | cons n l ih =>
    rw [List.cons_append, List.cons_append, List.cons_lt_cons_iff, ih]
    simp

/-- **A directory tells the names in it in ascending order.** -/
theorem pairwise_children (fs : FileSystem) (l : Location) :
    (fs.children l).Pairwise (· < ·) := by
  rw [children, List.pairwise_filterMap]
  refine (List.pairwise_map.mp fs.ascending).imp fun {e e'} hlt name hname name' hname' => ?_
  rw [Option.ite_none_right_eq_some, eq_concat_iff] at hname hname'
  rw [hname, hname'] at hlt
  exact concat_lt_concat_iff.mp hlt

/-! ## Orders -/

/-- An order in which every directory tells what stands in it, every name once. -/
structure Enumerates (fs : FileSystem) (list : Location → List String) : Prop where
  /-- No name is told twice. -/
  nodup : ∀ l, (list l).Nodup
  /-- The names are those that something stands at. -/
  mem_iff : ∀ l name, name ∈ list l ↔ fs.entryAt? (l ++ [name]) ≠ none

/-- The ascending order is one. -/
theorem enumerates_children (fs : FileSystem) : fs.Enumerates fs.children where
  nodup l := (fs.pairwise_children l).imp ne_of_lt
  mem_iff _ _ := mem_children_iff

theorem Enumerates.of_perm (h : fs.Enumerates list) {list' : Location → List String}
    (hperm : ∀ l, (list' l).Perm (list l)) : fs.Enumerates list' where
  nodup l := (hperm l).nodup_iff.mpr (h.nodup l)
  mem_iff l name := (hperm l).mem_iff.trans (h.mem_iff l name)

/-! ## The walk -/

/-- The paths of the files at a name in a directory or below it, if `walk` goes on from a directory.
`dirs` are the directories that the walk is in. -/
def filesAt (fs : FileSystem) (walk : Location → String → List String) (dirs : List Location)
    (dir : Location) (path name : String) : List String :=
  let path := join path name
  match fs.entryAt? (dir ++ [name]) with
  | some (.file _) => [path]
  | some .directory => walk (dir ++ [name]) path
  | some (.link _) =>
    match fs.locate path with
    | .error _ => []
    | .ok l =>
      match fs.entryAt? l with
      | some (.file _) => [path]
      | some .directory => if dirs.contains l then [] else walk l path
      | _ => []
  | none => []

/-- The paths of the files below a directory when every directory is told in some order.  `inside`
are the directories that the walk is in above it. -/
def filesFromIn (fs : FileSystem) (list : Location → List String) :
    Nat → List Location → Location → String → List String
  | 0, _, _, _ => []
  | fuel + 1, inside, dir, path =>
    (list dir).flatMap
      (fs.filesAt (filesFromIn fs list fuel (dir :: inside)) (dir :: inside) dir path)

/-- The paths of the files below a directory, in the order of the walk. -/
def filesBelowIn (fs : FileSystem) (list : Location → List String) (path : String) : List String :=
  match fs.locate path with
  | .ok l =>
    if fs.isDirectory path then (fs.filesFromIn list fs.walkFuel [] l path).filter fs.isFile else []
  | .error _ => []

/-- In ascending order the walk is the one of the file system. -/
theorem filesFromIn_children : fs.filesFromIn fs.children = fs.filesFrom := by
  funext fuel
  induction fuel with
  | zero => rfl
  | succ fuel ih =>
    funext inside dir path
    rw [filesFromIn, ih]
    rfl

theorem filesBelowIn_children : fs.filesBelowIn fs.children = fs.filesBelow := by
  funext path
  rw [filesBelowIn, filesFromIn_children]
  rfl

/-- What is found at a name is the same if the walk goes on to the same files. -/
theorem mem_filesAt_congr {walk walk' : Location → String → List String} {dirs : List Location}
    {name p : String} (hwalk : ∀ l path, p ∈ walk l path ↔ p ∈ walk' l path) :
    p ∈ fs.filesAt walk dirs d path name ↔ p ∈ fs.filesAt walk' dirs d path name := by
  rw [filesAt, filesAt]
  split
  · exact Iff.rfl
  · exact hwalk _ _
  · split
    · exact Iff.rfl
    · split
      · exact Iff.rfl
      · split
        · exact Iff.rfl
        · exact hwalk _ _
      · exact Iff.rfl
  · exact Iff.rfl

/-- The walk passes the same files in any order. -/
theorem Enumerates.mem_filesFromIn_iff (h : fs.Enumerates list) {fuel : Nat}
    {inside : List Location} {p : String} :
    p ∈ fs.filesFromIn list fuel inside d path ↔ p ∈ fs.filesFrom fuel inside d path := by
  rw [← filesFromIn_children]
  induction fuel generalizing inside d path with
  | zero => exact Iff.rfl
  | succ fuel ih =>
    rw [filesFromIn, filesFromIn, List.mem_flatMap, List.mem_flatMap]
    apply exists_congr
    intro name
    refine and_congr ((h.mem_iff d name).trans mem_children_iff.symm) ?_
    exact mem_filesAt_congr fun _ _ => ih

/-- **The files below a directory are the same in any order.** -/
theorem Enumerates.mem_filesBelowIn_iff (h : fs.Enumerates list) {p : String} :
    p ∈ fs.filesBelowIn list path ↔ p ∈ fs.filesBelow path := by
  rw [filesBelowIn, filesBelow]
  cases fs.locate path with
  | error e => exact Iff.rfl
  | ok l =>
    dsimp only
    split
    · rw [List.mem_filter, List.mem_filter, h.mem_filesFromIn_iff]
    · exact Iff.rfl

/-! ## Each file once -/

theorem foldl_join_injective {names names' : List String} (h : ∀ n ∈ names, IsName n)
    (h' : ∀ n ∈ names', IsName n) (heq : names.foldl join path = names'.foldl join path) :
    names = names' := by
  have hstem := congrArg stem heq
  rw [stem_foldl_join path h, stem_foldl_join path h', List.append_cancel_left_eq] at hstem
  exact (List.map_inj_right fun _ _ => String.toList_inj.mp).mp hstem

/-- In a directory tree the path of a file at a name or below it has this name on it. -/
theorem IsTree.exists_of_mem_filesAt (htree : fs.IsTree) (h : fs.Enumerates list) {fuel : Nat}
    {inside dirs : List Location} {name p : String}
    (hp : p ∈ fs.filesAt (fs.filesFromIn list fuel inside) dirs d path name) :
    ∃ names, (∀ n ∈ name :: names, IsName n) ∧ p = (name :: names).foldl join path := by
  rw [filesAt] at hp
  split at hp
  · have hsome : fs.entryAt? (d ++ [name]) ≠ none :=
      (‹_› : fs.entryAt? (d ++ [name]) = _).trans_ne (Option.some_ne_none _)
    have hname := htree.name d name hsome
    exact ⟨[], List.forall_mem_singleton.mpr hname, List.mem_singleton.mp hp⟩
  · rw [h.mem_filesFromIn_iff, (htree.below _).mem_filesFrom_iff] at hp
    obtain ⟨names, -, -, rfl, content, hfile⟩ := hp
    rw [List.append_assoc, List.singleton_append] at hfile
    exact ⟨names, (htree.below _).isName_of_mem (hfile.trans_ne (Option.some_ne_none _)), rfl⟩
  · exact absurd ‹_› (htree.plain _ _)
  · exact absurd hp List.not_mem_nil

/-- **In a directory tree the walk passes every file once**, in any order. -/
theorem IsTree.nodup_filesFromIn (htree : fs.IsTree) (h : fs.Enumerates list) {fuel : Nat}
    {inside : List Location} : (fs.filesFromIn list fuel inside d path).Nodup := by
  induction fuel generalizing inside d path with
  | zero => exact List.nodup_nil
  | succ fuel ih =>
    rw [filesFromIn, List.nodup_flatMap]
    refine ⟨fun name _ => ?_, (h.nodup d).imp fun {a b} hne p ha hb => hne ?_⟩
    · rw [filesAt]
      split
      · exact List.nodup_singleton _
      · exact ih
      · exact absurd ‹_› (htree.plain _ _)
      · exact List.nodup_nil
    · -- a path that two names are on has them in the same place
      obtain ⟨names, hnames, rfl⟩ := htree.exists_of_mem_filesAt h ha
      obtain ⟨names', hnames', heq⟩ := htree.exists_of_mem_filesAt h hb
      exact (List.cons.inj (foldl_join_injective hnames hnames' heq)).1

/-- In a directory tree every file below a directory is passed once. -/
theorem IsTree.nodup_filesBelowIn (htree : fs.IsTree) (h : fs.Enumerates list) :
    (fs.filesBelowIn list path).Nodup := by
  rw [filesBelowIn]
  split
  · split
    · exact (htree.nodup_filesFromIn h).filter _
    · exact List.nodup_nil
  · exact List.nodup_nil

end ComponentStories.FileSystem
