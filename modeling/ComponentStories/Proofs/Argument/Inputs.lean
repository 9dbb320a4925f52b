import ComponentStories.Document
import Mathlib.Data.List.Basic

/-
# The inputs of a component

The inputs are the props and then the slots, where a slot may take the place of a prop.  So every
input is declared as one of the two (`mem_inputs`), and a component that declares any has an
argument; only the other components have no document (`assemble?_eq_none_iff`).
-/

namespace ComponentStories

/-! ## Entries of a map -/

/-- The entries after putting one are that one and old ones. -/
theorem mem_putEntry {α : Type} {name : String} {value : α} {l : List (String × α)} {e : String × α}
    (h : e ∈ putEntry name value l) : e = (name, value) ∨ e ∈ l := by
  induction l with
  | nil => exact Or.inl (List.mem_singleton.mp h)
  | cons f l ih =>
    rw [putEntry] at h
    split at h
    · rename_i hn
      rcases List.mem_cons.mp h with rfl | h
      · exact Or.inl (by rw [hn])
      · exact Or.inr (List.mem_cons_of_mem f h)
    · rcases List.mem_cons.mp h with rfl | h
      · exact Or.inr List.mem_cons_self
      · exact (ih h).imp id (List.mem_cons_of_mem f)

theorem putEntry_ne_nil {α : Type} (name : String) (value : α) (l : List (String × α)) :
    putEntry name value l ≠ [] := by
  cases l with
  | nil => exact List.cons_ne_nil _ _
  | cons f l =>
    rw [putEntry]
    split
    · exact List.cons_ne_nil _ _
    · exact List.cons_ne_nil _ _

namespace Ordered

variable {α : Type}

/-- The entries after inserting a list come from the list or were there. -/
theorem mem_entries_insertAll {m : Ordered α} {l : List (String × α)} {e : String × α}
    (h : e ∈ (m.insertAll l).entries) : e ∈ m.entries ∨ e ∈ l := by
  induction l generalizing m with
  | nil => exact Or.inl h
  | cons f l ih =>
    rw [insertAll_cons] at h
    rcases ih h with h | h
    · rcases mem_putEntry h with rfl | h
      · exact Or.inr List.mem_cons_self
      · exact Or.inl h
    · exact Or.inr (List.mem_cons_of_mem f h)

/-- A map with entries keeps some, whatever is inserted. -/
theorem entries_insertAll_ne_nil {m : Ordered α} (h : m.entries ≠ []) (l : List (String × α)) :
    (m.insertAll l).entries ≠ [] := by
  induction l generalizing m with
  | nil => exact h
  | cons f l ih =>
    rw [insertAll_cons]
    exact ih (putEntry_ne_nil f.1 f.2 m.entries)

/-- There are no entries after inserting a list exactly if there were none and the list has none. -/
theorem entries_insertAll_eq_nil_iff {m : Ordered α} {l : List (String × α)} :
    (m.insertAll l).entries = [] ↔ m.entries = [] ∧ l = [] := by
  constructor
  · intro h
    have hm : m.entries = [] := by
      by_contra hne
      exact entries_insertAll_ne_nil hne l h
    refine ⟨hm, ?_⟩
    cases l with
    | nil => rfl
    | cons f l =>
      rw [insertAll_cons] at h
      exact absurd h (entries_insertAll_ne_nil (putEntry_ne_nil f.1 f.2 m.entries) l)
  · rintro ⟨hm, rfl⟩
    exact hm

end Ordered

/-! ## Arguments and documents -/

namespace Component

variable {c : Component}

theorem mem_inputs {e : String × Definition} (h : e ∈ c.inputs.entries) :
    e ∈ c.properties.entries ∨ e ∈ c.slots.entries :=
  Ordered.mem_entries_insertAll h

theorem mem_arguments {a : Argument} (h : a ∈ c.arguments) :
    ∃ e, (e ∈ c.properties.entries ∨ e ∈ c.slots.entries) ∧
      a = Argument.ofDefinition e.1 e.2 (c.isRequired e.1) := by
  obtain ⟨e, he, rfl⟩ := List.mem_map.mp h
  exact ⟨e, mem_inputs he, rfl⟩

/-- What holds of the names of the inputs holds of the names of the arguments. -/
theorem forall_arguments {P : String → Prop} (h : ∀ n ∈ c.inputs.names, P n) :
    ∀ a ∈ c.arguments, P a.name := by
  intro a ha
  apply h
  rw [← map_name_arguments]
  exact List.mem_map_of_mem ha

/-- A component has no arguments exactly if it declares neither props nor slots. -/
theorem arguments_eq_nil_iff : c.arguments = [] ↔ c.hasNoInputs = true := by
  rw [arguments, List.map_eq_nil_iff, inputs, Ordered.entries_insertAll_eq_nil_iff, hasNoInputs,
    Ordered.isEmpty, Ordered.isEmpty, Bool.and_eq_true, List.isEmpty_iff, List.isEmpty_iff]

end Component

/-- **Exactly the components with neither props nor slots have no document.** -/
theorem StoryDocument.assemble?_eq_none_iff (id : String) (c : Component) (settings : Settings) :
    assemble? id c c.arguments settings = none ↔
      c.properties.isEmpty = true ∧ c.slots.isEmpty = true := by
  rw [← Bool.and_eq_true]
  show _ ↔ c.hasNoInputs = true
  rw [assemble?, ← Component.arguments_eq_nil_iff, ← List.isEmpty_iff]
  split
  · rename_i h
    exact iff_of_true rfl h
  · rename_i h
    exact iff_of_false (Option.some_ne_none _) h

end ComponentStories
