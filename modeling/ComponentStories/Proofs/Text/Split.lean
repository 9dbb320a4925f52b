import ComponentStories.Text.Blank
import Mathlib.Data.List.Basic

/-
# Pieces of a text

A text is split at a separator into pieces without it, at least one, and these joined again are the
text.  There is only one way to do so (`splitAt_eq_iff`).
-/

namespace ComponentStories.Text

variable {sep : Char}

/-! ## Splitting -/

/-- The first piece of a text ends at the first separator. -/
theorem splitAt_append_cons {a : List Char} (ha : sep ∉ a) (s : List Char) :
    splitAt sep (a ++ sep :: s) = a :: splitAt sep s := by
  induction a with
  | nil => rw [List.nil_append, splitAt, if_pos rfl]
  | cons c a ih =>
    rw [List.mem_cons, not_or] at ha
    rw [List.cons_append, splitAt, if_neg (Ne.symm ha.1), ih ha.2]

theorem splitAt_of_notMem {a : List Char} (ha : sep ∉ a) : splitAt sep a = [a] := by
  induction a with
  | nil => rfl
  | cons c a ih =>
    rw [List.mem_cons, not_or] at ha
    rw [splitAt, if_neg (Ne.symm ha.1), ih ha.2]

theorem splitAt_ne_nil (s : List Char) : splitAt sep s ≠ [] := by
  cases s with
  | nil => exact List.cons_ne_nil _ _
  | cons c s =>
    rw [splitAt]
    split
    · exact List.cons_ne_nil _ _
    · split <;> exact List.cons_ne_nil _ _

/-- No piece holds the separator. -/
theorem notMem_of_mem_splitAt {s piece : List Char} (h : piece ∈ splitAt sep s) : sep ∉ piece := by
  induction s generalizing piece with
  | nil =>
    rw [List.mem_singleton.mp h]
    exact List.not_mem_nil
  | cons c s ih =>
    rw [splitAt] at h
    split at h
    · rcases List.mem_cons.mp h with rfl | h
      · exact List.not_mem_nil
      · exact ih h
    · rename_i hc
      split at h
      · rw [List.mem_singleton.mp h, List.mem_singleton]
        exact Ne.symm hc
      · rename_i first rest heq
        rcases List.mem_cons.mp h with rfl | h
        · rw [List.mem_cons, not_or]
          exact ⟨Ne.symm hc, ih (heq ▸ List.mem_cons_self)⟩
        · exact ih (heq ▸ List.mem_cons_of_mem first h)

/-- The pieces of a text are in it. -/
theorem subset_of_mem_splitAt {s piece : List Char} (h : piece ∈ splitAt sep s) : piece ⊆ s := by
  induction s generalizing piece with
  | nil =>
    rw [List.mem_singleton.mp h]
    exact List.nil_subset []
  | cons c s ih =>
    rw [splitAt] at h
    split at h
    · rcases List.mem_cons.mp h with rfl | h
      · exact List.nil_subset _
      · exact List.subset_cons_of_subset c (ih h)
    · split at h
      · rw [List.mem_singleton.mp h]
        exact List.cons_subset_cons c (List.nil_subset s)
      · rename_i first rest heq
        rcases List.mem_cons.mp h with rfl | h
        · exact List.cons_subset_cons c (ih (heq ▸ List.mem_cons_self))
        · exact List.subset_cons_of_subset c (ih (heq ▸ List.mem_cons_of_mem first h))

/-! ## Joining -/

/-- The first of at least two pieces stands in front of the first separator. -/
theorem join_cons (sep a : List Char) {ts : List (List Char)} (h : ts ≠ []) :
    join sep (a :: ts) = a ++ sep ++ join sep ts := by
  obtain ⟨t, r, rfl⟩ := List.exists_cons_of_ne_nil h
  rfl

/-- Pieces and further pieces are joined by one more separator. -/
theorem join_append (sep : List Char) {as bs : List (List Char)} (ha : as ≠ []) (hb : bs ≠ []) :
    join sep (as ++ bs) = join sep as ++ sep ++ join sep bs := by
  induction as with
  | nil => exact absurd rfl ha
  | cons a as ih =>
    by_cases has : as = []
    · rw [has, List.singleton_append, join_cons sep a hb]
      rfl
    · rw [List.cons_append, join_cons sep a (List.append_ne_nil_of_left_ne_nil has bs), ih has,
        join_cons sep a has]
      simp only [List.append_assoc]

/-- What stands in front of pieces that are joined to further ones does not depend on these. -/
theorem exists_join_append_eq (sep : List Char) (as : List (List Char)) :
    ∃ front, ∀ bs, bs ≠ [] → join sep (as ++ bs) = front ++ join sep bs := by
  by_cases ha : as = []
  · exact ⟨[], fun bs _ => by rw [ha, List.nil_append, List.nil_append]⟩
  · exact ⟨join sep as ++ sep, fun bs hb => join_append sep ha hb⟩

/-- Pieces that are joined are at the front of more pieces that are joined. -/
theorem join_prefix_join_append (sep : List Char) (as bs : List (List Char)) :
    join sep as <+: join sep (as ++ bs) := by
  by_cases ha : as = []
  · rw [ha]
    exact List.nil_prefix
  by_cases hb : bs = []
  · simp [hb]
  · rw [join_append sep ha hb, List.append_assoc]
    exact List.prefix_append _ _

/-- Pieces that are joined end as the last one does. -/
theorem getLast?_join_concat (sep : List Char) (as : List (List Char)) {last : List Char}
    (h : last ≠ []) : (join sep (as ++ [last])).getLast? = last.getLast? := by
  by_cases ha : as = []
  · rw [ha]
    rfl
  · rw [join_append sep ha (List.cons_ne_nil _ _)]
    exact List.getLast?_append_of_ne_nil _ h

/-- The pieces of a text make it up. -/
theorem join_splitAt (s : List Char) : join [sep] (splitAt sep s) = s := by
  induction s with
  | nil => rfl
  | cons c s ih =>
    rw [splitAt]
    split
    · rename_i hc
      rw [join_cons _ _ (splitAt_ne_nil s), ih, hc]
      rfl
    · obtain ⟨first, rest, heq⟩ := List.exists_cons_of_ne_nil (@splitAt_ne_nil sep s)
      rw [heq] at ih ⊢
      cases rest with
      | nil => exact congrArg (c :: ·) ih
      | cons second rest => exact congrArg (c :: ·) ih

/-- Texts without separators that are joined are the pieces. -/
theorem splitAt_join {ts : List (List Char)} (hne : ts ≠ []) (h : ∀ t ∈ ts, sep ∉ t) :
    splitAt sep (join [sep] ts) = ts := by
  induction ts with
  | nil => exact absurd rfl hne
  | cons t ts ih =>
    obtain ⟨ht, hts⟩ := List.forall_mem_cons.mp h
    by_cases hnil : ts = []
    · rw [hnil]
      exact splitAt_of_notMem ht
    · rw [join_cons _ _ hnil, List.append_assoc, List.singleton_append, splitAt_append_cons ht,
        ih hnil hts]

/-- **The pieces of a text are the texts without separators that make it up.** -/
theorem splitAt_eq_iff {s : List Char} {ts : List (List Char)} :
    splitAt sep s = ts ↔ ts ≠ [] ∧ (∀ t ∈ ts, sep ∉ t) ∧ join [sep] ts = s := by
  constructor
  · rintro rfl
    exact ⟨splitAt_ne_nil s, fun _ => notMem_of_mem_splitAt, join_splitAt s⟩
  · rintro ⟨hne, h, rfl⟩
    exact splitAt_join hne h

end ComponentStories.Text
