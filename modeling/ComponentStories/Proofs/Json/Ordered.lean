import ComponentStories.Proofs.Json.Integer
import ComponentStories.Proofs.Sorted
import Mathlib.Data.List.Induction
import Mathlib.Data.String.Basic

/-
# Values in order

A value that was read has the fields of each of its objects in ascending order of their names
(`Json.IsOrdered`).  To sort such a value changes nothing, so its text is read back as the value
itself if its numbers are read back (`IsOrdered.read?_chars`); integers are.
-/

namespace ComponentStories

/-- An entry whose key is not below the others, and none of them, comes last. -/
theorem putSorted_eq_append {κ α : Type} [DecidableEq κ] [LT κ] [DecidableLT κ] {key : κ}
    {l : List (κ × α)} (h : ∀ e ∈ l, e.1 ≠ key ∧ ¬ key < e.1) (value : α) :
    putSorted key value l = l ++ [(key, value)] := by
  induction l with
  | nil => rfl
  | cons e l ih =>
    obtain ⟨hne, hlt⟩ := h e List.mem_cons_self
    rw [putSorted, if_neg hne, if_neg hlt, ih fun f hf => h f (List.mem_cons_of_mem e hf),
      List.cons_append]

namespace Json

/-! ## Ascending fields -/

/-- The fields of the objects in a value are in ascending order of their names. -/
inductive IsOrdered : Json → Prop
  /-- No value. -/
  | null : IsOrdered .null
  /-- A truth value. -/
  | bool (b : Bool) : IsOrdered (.bool b)
  /-- A number. -/
  | number (n : JsonNumber) : IsOrdered (.number n)
  /-- A text. -/
  | text (s : String) : IsOrdered (.text s)
  /-- A list of such values. -/
  | array {items : List Json} (h : ∀ v ∈ items, IsOrdered v) : IsOrdered (.array items)
  /-- Such values under ascending names. -/
  | object {fields : List (String × Json)} (names : (fields.map Prod.fst).Pairwise (· < ·))
      (h : ∀ e ∈ fields, IsOrdered e.2) : IsOrdered (.object fields)

variable {fields : List (String × Json)}

/-- Fields that become an object are the given ones. -/
theorem mem_sortFields {e : String × Json} (h : e ∈ sortFields fields) : e ∈ fields := by
  induction fields using List.reverseRecOn with
  | nil => exact h
  | append_singleton fields f ih =>
    rw [sortFields, List.foldl_append] at h
    rcases mem_putSorted h with rfl | h
    · exact List.mem_append_right _ (List.mem_singleton_self _)
    · exact List.mem_append_left _ (ih h)

/-- The fields of an object that is made are ascending. -/
theorem pairwise_sortFields (fields : List (String × Json)) :
    ((sortFields fields).map Prod.fst).Pairwise (· < ·) := by
  induction fields using List.reverseRecOn with
  | nil => exact .nil
  | append_singleton fields f ih =>
    rw [sortFields, List.foldl_append]
    exact pairwise_putSorted f.1 f.2 ih

theorem isOrdered_ofFields (h : ∀ e ∈ fields, e.2.IsOrdered) : (ofFields fields).IsOrdered :=
  .object (pairwise_sortFields fields) fun e he => h e (mem_sortFields he)

/-! ## Sorting changes nothing -/

/-- Ascending fields are already sorted. -/
theorem sortFields_eq_self (h : (fields.map Prod.fst).Pairwise (· < ·)) :
    sortFields fields = fields := by
  induction fields using List.reverseRecOn with
  | nil => rfl
  | append_singleton fields f ih =>
    rw [List.map_append, List.pairwise_append] at h
    have hlast : ∀ e ∈ fields, e.1 < f.1 := fun e he =>
      h.2.2 e.1 (List.mem_map_of_mem he) f.1 (List.mem_singleton_self f.1)
    rw [sortFields, List.foldl_append]
    show putSorted f.1 f.2 (sortFields fields) = _
    rw [ih h.1, putSorted_eq_append fun e he => ⟨(hlast e he).ne, (hlast e he).asymm⟩]

theorem sortedFields_eq (fields : List (String × Json)) :
    sortedFields fields = fields.map fun e => (e.1, e.2.sorted) := by
  induction fields with
  | nil => rw [sortedFields, List.map_nil]
  | cons e fields ih => rw [sortedFields, ih, List.map_cons]

/-- **A value in order is already sorted.** -/
theorem IsOrdered.sorted_eq {v : Json} (h : v.IsOrdered) : v.sorted = v := by
  induction h with
  | null => rw [sorted]
  | bool b => rw [sorted]
  | number n => rw [sorted]
  | text s => rw [sorted]
  | array _ ih => rw [sorted, sortedItems_eq, List.map_congr_left ih, List.map_id']
  | @object fields names _ ih =>
    have hfields : sortedFields fields = fields.map id :=
      (sortedFields_eq fields).trans (List.map_congr_left fun e he => Prod.ext rfl (ih e he))
    rw [sorted, hfields, List.map_id, ofFields, sortFields_eq_self names]

/-! ## Reading back -/

/-- No number of the value has a fraction or an exponent. -/
def IsIntegral (v : Json) : Prop := ∀ n ∈ v.numbers, ∃ i, n = .integer i

/-- **The text of a value in order is read back as the value itself**, if
its numbers are integers. -/
theorem IsOrdered.read?_chars {v : Json} (h : v.IsOrdered) (hnumbers : v.IsIntegral) :
    read? v.chars = some v := by
  have hrereads : ∀ n ∈ v.numbers, n.Rereads := by
    intro n hn
    obtain ⟨i, rfl⟩ := hnumbers n hn
    exact JsonNumber.rereads_integer i
  rw [Json.read?_chars hrereads, h.sorted_eq]

end Json

end ComponentStories
