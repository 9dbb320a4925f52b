import ComponentStories.Sorted
import Mathlib.Data.List.Nodup

/-
# Looking up entries

A value that is found under a key is one of an entry with this key, and under each key that an entry
has something is found.  Where no key is there twice it is the value of this entry
(`getSorted?_eq_some_iff_mem`).
-/

namespace ComponentStories

variable {κ α : Type} [DecidableEq κ] {key : κ} {value : α} {l : List (κ × α)}

/-- Something is found exactly under the keys of entries. -/
theorem getSorted?_ne_none_iff : getSorted? key l ≠ none ↔ key ∈ l.map Prod.fst := by
  induction l with
  | nil => simp [getSorted?]
  | cons e l ih =>
    obtain ⟨k, v⟩ := e
    rw [getSorted?, List.map_cons, List.mem_cons, ← ih]
    by_cases hk : k = key
    · simp [hk]
    · simp [hk, Ne.symm hk]

/-- A value that is found under a key is one of an entry. -/
theorem mem_of_getSorted? (h : getSorted? key l = some value) : (key, value) ∈ l := by
  induction l with
  | nil => exact absurd h (by simp [getSorted?])
  | cons e l ih =>
    obtain ⟨k, v⟩ := e
    rw [getSorted?] at h
    split at h
    · rename_i hk
      rw [hk, Option.some.inj h]
      exact List.mem_cons_self
    · exact List.mem_cons_of_mem _ (ih h)

/-- Where no key is there twice, an entry is found under its key, and no other one is. -/
theorem getSorted?_eq_some_iff_mem (h : (l.map Prod.fst).Nodup) :
    getSorted? key l = some value ↔ (key, value) ∈ l := by
  refine ⟨mem_of_getSorted?, fun hmem => ?_⟩
  have hkey : key ∈ l.map Prod.fst := List.mem_map_of_mem (f := Prod.fst) hmem
  obtain ⟨other, hother⟩ := Option.ne_none_iff_exists'.mp (getSorted?_ne_none_iff.mpr hkey)
  have heq := List.inj_on_of_nodup_map h (mem_of_getSorted? hother) hmem rfl
  rw [hother, (Prod.mk.inj heq).2]

/-- An insertion under a key takes the place of the one before it. -/
theorem putSorted_putSorted [LT κ] [DecidableLT κ] (key : κ) (value other : α) (l : List (κ × α)) :
    putSorted key other (putSorted key value l) = putSorted key other l := by
  induction l with
  | nil => simp [putSorted]
  | cons e l ih =>
    obtain ⟨k, v⟩ := e
    by_cases hk : k = key
    · simp [putSorted, hk]
    · by_cases hlt : key < k
      · simp [putSorted, hk, hlt]
      · simp only [putSorted, hk, hlt, if_false, ih]

end ComponentStories
