import ComponentStories.FileSystem.Walk
import ComponentStories.Proofs.FileSystem.Ancestors
import ComponentStories.Proofs.FileSystem.Below
import Mathlib.Data.List.Nodup
import Mathlib.Data.List.Perm.Subperm

/-
# The walk in a directory tree

Where there are no links below a directory, the walk finds the files below it, all of them and
nothing else (`mem_filesBelow_iff`): it never comes back, and no way down is longer than there are
entries.  Over links too every file that it finds stands under names
(`Named.exists_of_mem_filesBelow`).
-/

namespace ComponentStories.FileSystem

open ComponentStories.Path

variable {fs : FileSystem} {l d : Location}

/-! ## What stands in a directory -/

/-- Something stands at a location if an item has it. -/
theorem mem_map_fst_items_iff : l ∈ fs.items.map Prod.fst ↔ fs.entryAt? l ≠ none := by
  rw [← getSorted?_ne_none_iff, entryAt?, itemAt?, ne_eq, ne_eq, Option.map_eq_none_iff]

/-- A location is one of a name in a directory if it is one step longer. -/
theorem eq_concat_iff {other : Location} {name : String} :
    (other.length = l.length + 1 ∧ other.take l.length = l) ∧ other.getLast? = some name ↔
      other = l ++ [name] := by
  constructor
  · rintro ⟨⟨hlength, htake⟩, hlast⟩
    obtain ⟨init, rfl⟩ := List.getLast?_eq_some_iff.mp hlast
    have hinit : init.length = l.length := by simpa using hlength
    rw [List.take_append_of_le_length hinit.ge, ← hinit, List.take_length] at htake
    rw [htake]
  · rintro rfl
    simp

/-- The names in a directory are those that something stands at. -/
theorem mem_children_iff {name : String} :
    name ∈ fs.children l ↔ fs.entryAt? (l ++ [name]) ≠ none := by
  rw [← mem_map_fst_items_iff, children, List.mem_filterMap, List.mem_map]
  apply exists_congr
  intro e
  apply and_congr_right
  intro _
  rw [Option.ite_none_right_eq_some, eq_concat_iff]

theorem IsTreeBelow.isName_of_mem (hbelow : fs.IsTreeBelow l) {names : List String}
    (h : fs.entryAt? (l ++ names) ≠ none) : ∀ n ∈ names, IsName n := by
  induction names using List.reverseRecOn with
  | nil => exact fun _ hn => absurd hn List.not_mem_nil
  | append_singleton names n ih =>
    rw [← List.append_assoc] at h
    rw [List.forall_mem_append, List.forall_mem_singleton]
    exact ⟨ih ((hbelow.parent _ _ h).trans_ne (Option.some_ne_none _)), hbelow.name _ _ h⟩

/-- No way down is longer than there are items. -/
theorem IsTreeBelow.length_le (hbelow : fs.IsTreeBelow l) {names : List String}
    (h : fs.entryAt? (l ++ names) ≠ none) : names.length ≤ fs.items.length := by
  -- the locations on the way are different, and something stands at each
  have hnodup : ((List.range names.length).map fun k => l ++ names.take (k + 1)).Nodup := by
    refine List.Nodup.map_on (fun i hi j hj heq => ?_) List.nodup_range
    have hlength := congrArg List.length heq
    simp only [List.length_append, List.length_take] at hlength
    rw [List.mem_range] at hi hj
    omega
  have hsubset : ((List.range names.length).map fun k => l ++ names.take (k + 1)) ⊆
      fs.items.map Prod.fst := by
    intro m hm
    obtain ⟨k, -, rfl⟩ := List.mem_map.mp hm
    rw [mem_map_fst_items_iff]
    rw [← List.take_append_drop (k + 1) names, ← List.append_assoc] at h
    by_cases hrest : names.drop (k + 1) = []
    · rwa [hrest, List.append_nil] at h
    · exact ((hbelow.append _).directory_of_append hrest h).trans_ne (Option.some_ne_none _)
  have hlength := (List.subperm_of_subset hnodup hsubset).length_le
  simpa using hlength

/-! ## Over links -/

/-- What stands in a directory has a name. -/
def Named (fs : FileSystem) : Prop := ∀ l n, fs.entryAt? (l ++ [n]) ≠ none → IsName n

theorem named_of_forall_items (h : ∀ e ∈ fs.items, ∀ n ∈ e.1.getLast?, IsName n) : fs.Named := by
  intro l n hsome
  obtain ⟨entry, hentry⟩ := Option.ne_none_iff_exists'.mp hsome
  obtain ⟨item, hitem, -⟩ := Option.map_eq_some_iff.mp hentry
  exact h _ (mem_of_getSorted? hitem) n List.getLast?_concat

/-- A file that the walk finds stands in a directory that names lead down to. -/
theorem Named.exists_of_mem_filesFrom (hnamed : fs.Named) {fuel : Nat} {inside : List Location}
    {path p : String} (h : p ∈ fs.filesFrom fuel inside d path) :
    ∃ dirs file, Way path dirs file p := by
  induction fuel generalizing inside d path with
  | zero => exact absurd h List.not_mem_nil
  | succ fuel ih =>
    rw [filesFrom, List.mem_flatMap] at h
    obtain ⟨name, hname, hp⟩ := h
    have hisName := hnamed d name (mem_children_iff.mp hname)
    have hhere : p ∈ [join path name] → ∃ dirs file, Way path dirs file p :=
      fun hmem => ⟨[], name, List.forall_mem_nil _, hisName, List.mem_singleton.mp hmem⟩
    have hbelow : ∀ {inside d}, p ∈ fs.filesFrom fuel inside d (join path name) →
        ∃ dirs file, Way path dirs file p := by
      intro inside d hmem
      obtain ⟨dirs, file, hway⟩ := ih hmem
      exact ⟨name :: dirs, file, List.forall_mem_cons.mpr ⟨hisName, hway.named⟩, hway.isName,
        hway.eq⟩
    dsimp only at hp
    split at hp
    · exact hhere hp
    · exact hbelow hp
    · -- a link to a file, to a directory, or to nothing that counts
      split at hp
      · exact absurd hp List.not_mem_nil
      split at hp
      · exact hhere hp
      · split at hp
        · exact absurd hp List.not_mem_nil
        · exact hbelow hp
      · exact absurd hp List.not_mem_nil
    · exact absurd hp List.not_mem_nil

/-- **A file that is found below a directory** stands in a directory that names lead down to. -/
theorem Named.exists_of_mem_filesBelow (hnamed : fs.Named) {path p : String}
    (h : p ∈ fs.filesBelow path) : path ≠ "" ∧ fs.isFile p = true ∧
      ∃ dirs file, Way path dirs file p := by
  rw [filesBelow] at h
  split at h
  · rename_i m hm
    split at h
    · obtain ⟨hmem, hfile⟩ := List.mem_filter.mp h
      refine ⟨?_, hfile, hnamed.exists_of_mem_filesFrom hmem⟩
      rintro rfl
      have hfault : pathFault? "" = some .notFound := by rw [pathFault?]; decide
      rw [locate_eq_ok_iff, resolve, hfault] at hm
      exact absurd hm (by simp)
    · exact absurd h List.not_mem_nil
  · exact absurd h List.not_mem_nil

/-! ## The walk -/

/-- The walk finds the files below a directory that are not deeper than it goes. -/
theorem IsTreeBelow.mem_filesFrom_iff (hbelow : fs.IsTreeBelow d) {fuel : Nat}
    {inside : List Location}
    {path p : String} : p ∈ fs.filesFrom fuel inside d path ↔
      ∃ names, names ≠ [] ∧ names.length ≤ fuel ∧ p = names.foldl join path ∧
        ∃ content, fs.entryAt? (d ++ names) = some (.file content) := by
  induction fuel generalizing inside d path with
  | zero =>
    refine iff_of_false List.not_mem_nil ?_
    rintro ⟨names, hne, hlength, -⟩
    exact hne (List.eq_nil_of_length_eq_zero (Nat.le_zero.mp hlength))
  | succ fuel ih =>
    rw [filesFrom, List.mem_flatMap]
    constructor
    · rintro ⟨name, hname, hp⟩
      dsimp only at hp
      split at hp
      · rename_i content hfile
        exact ⟨[name], List.cons_ne_nil _ _, by simp, List.mem_singleton.mp hp, content, hfile⟩
      · obtain ⟨names, hne, hlength, hp, content, hfile⟩ := (ih (hbelow.append [name])).mp hp
        refine ⟨name :: names, List.cons_ne_nil _ _, Nat.succ_le_succ hlength, hp, content, ?_⟩
        rw [List.append_cons]
        exact hfile
      · exact absurd ‹_› (hbelow.plain [name] _)
      · exact absurd hp List.not_mem_nil
    · rintro ⟨names, hne, hlength, rfl, content, hfile⟩
      obtain ⟨name, rest, rfl⟩ := List.exists_cons_of_ne_nil hne
      rw [List.append_cons] at hfile
      by_cases hrest : rest = []
      · rw [hrest, List.append_nil] at hfile
        refine ⟨name, mem_children_iff.mpr (hfile.trans_ne (Option.some_ne_none _)), ?_⟩
        simp [hfile, hrest]
      · have hdir : fs.entryAt? (d ++ [name]) = some .directory :=
          (hbelow.append [name]).directory_of_append hrest (hfile.trans_ne (Option.some_ne_none _))
        refine ⟨name, mem_children_iff.mpr (hdir.trans_ne (Option.some_ne_none _)), ?_⟩
        simp only [hdir]
        exact (ih (hbelow.append [name])).mpr ⟨rest, hrest, Nat.le_of_succ_le_succ hlength, rfl,
          content, hfile⟩

/-- **The walk finds the files below a directory** that has no links below it, all that a path can
stand for; the path to the directory itself may come over links. -/
theorem IsTreeBelow.mem_filesBelow_iff (hbelow : fs.IsTreeBelow d) {path p : String}
    (hpath : fs.locate path = .ok d) :
    p ∈ fs.filesBelow path ↔ fs.isDirectory path = true ∧ fs.isFile p = true ∧
      ∃ names, names ≠ [] ∧ (∀ n ∈ names, IsName n) ∧ p = names.foldl join path := by
  rw [filesBelow, hpath]
  by_cases hdir : fs.isDirectory path = true
  · simp only [hdir, if_true, List.mem_filter, true_and, hbelow.mem_filesFrom_iff]
    constructor
    · rintro ⟨⟨names, hne, -, rfl, content, hentry⟩, hfile⟩
      have hsome : fs.entryAt? (d ++ names) ≠ none := hentry.trans_ne (Option.some_ne_none _)
      exact ⟨hfile, names, hne, hbelow.isName_of_mem hsome, rfl⟩
    · rintro ⟨hfile, names, hne, hnames, rfl⟩
      obtain ⟨content, time, hitem⟩ := isFile_iff.mp hfile
      obtain ⟨-, hitem⟩ := (hbelow.item_foldl_join_eq_ok_iff hpath hne hnames).mp hitem
      have hentry : fs.entryAt? (d ++ names) = some (.file content) :=
        entryAt?_eq_some_iff.mpr ⟨time, hitem⟩
      refine ⟨⟨names, hne, ?_, rfl, content, hentry⟩, hfile⟩
      calc names.length ≤ fs.items.length :=
            hbelow.length_le (hentry.trans_ne (Option.some_ne_none _))
        _ ≤ fs.walkFuel := by
            have hle : fs.items.length ≤ fs.items.length + 2 := Nat.le_add_right _ 2
            exact hle.trans (Nat.le_mul_of_pos_left _ (Nat.succ_pos _))
  · simp [hdir]

/-- The same in a directory tree, where nothing has to be known of the path. -/
theorem IsTree.mem_filesBelow_iff (htree : fs.IsTree) {path p : String} :
    p ∈ fs.filesBelow path ↔ fs.isDirectory path = true ∧ fs.isFile p = true ∧
      ∃ names, names ≠ [] ∧ (∀ n ∈ names, IsName n) ∧ p = names.foldl join path := by
  cases hpath : fs.locate path with
  | ok d => exact (htree.below d).mem_filesBelow_iff hpath
  | error e =>
    have hdir : fs.isDirectory path = false := by rw [FileSystem.isDirectory, item, hpath]
    simp [filesBelow, hpath, hdir]

end ComponentStories.FileSystem
