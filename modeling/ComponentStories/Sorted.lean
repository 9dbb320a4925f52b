/-
# Lists of entries in ascending order of their keys

`putSorted` inserts an entry into a list that is kept ascending by key and replaces the entry
of an equal key.  Looking up sees exactly the last insertion; this holds of every list, so no
order law is needed for it.  That the list stays ascending is `pairwise_putSorted` and
`pairwise_eraseSorted`.
-/

namespace ComponentStories

variable {κ α : Type} [DecidableEq κ] [LT κ] [DecidableLT κ]

/-- The entries with `value` under `key`: in the place of an equal key, otherwise in front
of the first greater key. -/
def putSorted (key : κ) (value : α) : List (κ × α) → List (κ × α)
  | [] => [(key, value)]
  | (k, v) :: rest =>
    if k = key then (k, value) :: rest
    else if key < k then (key, value) :: (k, v) :: rest
    else (k, v) :: putSorted key value rest

/-- The value under a key. -/
def getSorted? (key : κ) : List (κ × α) → Option α
  | [] => none
  | (k, v) :: rest => if k = key then some v else getSorted? key rest

/-- The entries of every other key. -/
def eraseSorted (key : κ) (l : List (κ × α)) : List (κ × α) :=
  l.filter fun e => !decide (e.1 = key)

/-- A new entry is seen under its own key and under no other. -/
theorem getSorted?_putSorted (key other : κ) (value : α) (l : List (κ × α)) :
    getSorted? other (putSorted key value l) =
      if key = other then some value else getSorted? other l := by
  induction l with
  | nil => simp [putSorted, getSorted?]
  | cons e l ih =>
    obtain ⟨k, v⟩ := e
    by_cases hk : k = key
    · subst hk
      simp only [putSorted, if_true, getSorted?]
      split <;> rfl
    · by_cases hl : key < k
      · simp only [putSorted, hk, hl, if_false, if_true, getSorted?]
      · simp only [putSorted, hk, hl, if_false, getSorted?, ih]
        by_cases ho : k = other
        · subst ho
          have h' : ¬ key = k := fun h => hk h.symm
          simp [h']
        · simp [ho]

omit [LT κ] [DecidableLT κ] in
/-- An erased key is found no more, every other key as before. -/
theorem getSorted?_eraseSorted (key other : κ) (l : List (κ × α)) :
    getSorted? other (eraseSorted key l) =
      if key = other then none else getSorted? other l := by
  induction l with
  | nil => simp [eraseSorted, getSorted?]
  | cons e l ih =>
    obtain ⟨k, v⟩ := e
    simp only [eraseSorted] at ih
    by_cases hk : k = key
    · subst hk
      simp only [eraseSorted, List.filter_cons, decide_true, Bool.not_true, Bool.false_eq_true,
        if_false, ih, getSorted?]
      split <;> simp_all
    · simp only [eraseSorted, List.filter_cons, hk, decide_false, Bool.not_false, if_true,
        getSorted?, ih]
      by_cases ho : k = other
      · subst ho
        have h' : ¬ key = k := fun h => hk h.symm
        simp [h']
      · simp [ho]

/-- The keys of the list after an insertion. -/
theorem mem_keys_putSorted (key other : κ) (value : α) (l : List (κ × α)) :
    other ∈ (putSorted key value l).map Prod.fst ↔ other = key ∨ other ∈ l.map Prod.fst := by
  induction l with
  | nil => simp [putSorted]
  | cons e l ih =>
    obtain ⟨k, v⟩ := e
    by_cases hk : k = key
    · subst hk; simp [putSorted]
    · by_cases hl : key < k
      · simp [putSorted, hk, hl]
      · simp only [putSorted, hk, hl, if_false, List.map_cons, List.mem_cons, ih]
        constructor
        · rintro (h | h | h)
          · exact Or.inr (Or.inl h)
          · exact Or.inl h
          · exact Or.inr (Or.inr h)
        · rintro (h | h | h)
          · exact Or.inr (Or.inl h)
          · exact Or.inl h
          · exact Or.inr (Or.inr h)

/-- The entries after an insertion are the new one and old ones. -/
theorem mem_putSorted {key : κ} {value : α} {l : List (κ × α)} {e : κ × α}
    (h : e ∈ putSorted key value l) : e = (key, value) ∨ e ∈ l := by
  induction l with
  | nil => exact Or.inl (List.mem_singleton.mp h)
  | cons f l ih =>
    rw [putSorted] at h
    split at h
    · rename_i hk
      rcases List.mem_cons.mp h with rfl | h
      · exact Or.inl (by rw [hk])
      · exact Or.inr (List.mem_cons_of_mem f h)
    · split at h
      · exact List.mem_cons.mp h
      · rcases List.mem_cons.mp h with rfl | h
        · exact Or.inr List.mem_cons_self
        · exact (ih h).imp id (List.mem_cons_of_mem f)

/-! ## Ascending lists -/

/-- An ascending list stays ascending when the order of the keys is strict and total. -/
theorem pairwise_putSorted [Std.Trichotomous (α := κ) (· < ·)]
    [Trans (α := κ) (β := κ) (γ := κ) (· < ·) (· < ·) (· < ·)] (key : κ) (value : α)
    {l : List (κ × α)} (h : (l.map Prod.fst).Pairwise (· < ·)) :
    ((putSorted key value l).map Prod.fst).Pairwise (· < ·) := by
  induction l with
  | nil => simp [putSorted]
  | cons e l ih =>
    obtain ⟨k, v⟩ := e
    simp only [List.map_cons, List.pairwise_cons] at h
    by_cases hk : k = key
    · subst hk; simpa [putSorted] using h
    · by_cases hl : key < k
      · simp only [putSorted, hk, hl, if_false, if_true, List.map_cons, List.pairwise_cons,
          List.mem_cons]
        refine ⟨?_, h⟩
        rintro b (rfl | hb)
        · exact hl
        · exact Trans.trans hl (h.1 b hb)
      · have hgt : k < key := Decidable.by_contra fun hgt =>
          hk (Std.Trichotomous.trichotomous (r := (· < ·)) k key hgt hl)
        simp only [putSorted, hk, hl, if_false, List.map_cons, List.pairwise_cons]
        refine ⟨?_, ih h.2⟩
        intro b hb
        rcases (mem_keys_putSorted key b value l).mp hb with rfl | hb
        · exact hgt
        · exact h.1 b hb

omit [DecidableLT κ] in
theorem pairwise_eraseSorted (key : κ) {l : List (κ × α)}
    (h : (l.map Prod.fst).Pairwise (· < ·)) :
    ((eraseSorted key l).map Prod.fst).Pairwise (· < ·) :=
  h.sublist (List.filter_sublist.map Prod.fst)

end ComponentStories
