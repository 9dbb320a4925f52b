import ComponentStories.Store.Memory
import Mathlib.Data.String.Basic

/-
# Writing at different paths

A store is independent if writing at one path does not matter to another one: what is there stays,
what comes of writing there stays, and it does not matter which of the two is written first.  A
store in memory is independent (`MemoryStore.independent`).  Its texts stand in the order of their
paths, and two insertions into a list in a strict order commute, whatever the list is
(`putSorted_comm`).
-/

namespace ComponentStories

/-! ## Insertions that commute -/

section Sorted

variable {κ α : Type} [DecidableEq κ] [LT κ] [DecidableLT κ] [Std.Asymm (α := κ) (· < ·)]
  [Std.Trichotomous (α := κ) (· < ·)] [Trans (α := κ) (β := κ) (γ := κ) (· < ·) (· < ·) (· < ·)]

omit [Std.Trichotomous (α := κ) (· < ·)]
  [Trans (α := κ) (β := κ) (γ := κ) (· < ·) (· < ·) (· < ·)] in
/-- An entry that is inserted at the very front stays in front of what is inserted behind it. -/
theorem putSorted_cons_of_lt {a b : κ} (h : a < b) (v w : α) (l : List (κ × α)) :
    putSorted b w ((a, v) :: l) = (a, v) :: putSorted b w l := by
  have hne : a ≠ b := by
    rintro rfl
    exact Std.Asymm.asymm a a h h
  rw [putSorted, if_neg hne, if_neg (Std.Asymm.asymm a b h)]

/-- **Insertions under different keys commute.** -/
theorem putSorted_comm {a b : κ} (hne : a ≠ b) (v w : α) (l : List (κ × α)) :
    putSorted a v (putSorted b w l) = putSorted b w (putSorted a v l) := by
  -- it is enough to look at two keys in ascending order
  suffices h : ∀ {a b : κ}, a < b → ∀ v w, putSorted a v (putSorted b w l) =
      putSorted b w (putSorted a v l) by
    by_cases hlt : a < b
    · exact h hlt v w
    · have hgt : b < a := by
        by_contra hgt
        exact hne (Std.Trichotomous.trichotomous a b hlt hgt)
      exact (h hgt w v).symm
  clear hne v w a b
  intro a b hlt v w
  have hba : ¬ b < a := Std.Asymm.asymm a b hlt
  have hne : a ≠ b := by
    rintro rfl
    exact hba hlt
  induction l with
  | nil => simp [putSorted, hlt, hba, hne, hne.symm]
  | cons e l ih =>
    obtain ⟨k, x⟩ := e
    by_cases hka : k = a
    · subst hka
      simp [putSorted, hba, hne]
    by_cases hak : a < k
    · -- the first entry goes in front of `k`, so it stands in front of the second one as well
      by_cases hkb : k = b
      · subst hkb
        simp [putSorted, hka, hak, hne, hba]
      by_cases hbk : b < k
      · simp [putSorted, hka, hak, hkb, hbk, hne, hne.symm, hlt, hba]
      · simp [putSorted, hka, hak, hkb, hbk, hne, hba]
    · have hlt' : k < a := by
        by_contra hgt
        exact hka (Std.Trichotomous.trichotomous k a hgt hak)
      have hkb : k < b := Trans.trans hlt' hlt
      rw [putSorted_cons_of_lt hkb, putSorted_cons_of_lt hlt', putSorted_cons_of_lt hlt',
        putSorted_cons_of_lt hkb, ih]

end Sorted

/-! ## Independent stores -/

/-- Writing at a path does not matter to a path of other parts. -/
class Store.Independent (σ : Type) [Store σ] : Prop where
  /-- What is at the other path stays. -/
  holds_write (s : σ) (p q t : String) : Path.parts p ≠ Path.parts q →
    Store.holds (Store.write s p t).2 q = Store.holds s q
  /-- What comes of writing at the other path stays. -/
  fst_write_write (s : σ) (p q t u : String) : Path.parts p ≠ Path.parts q →
    (Store.write (Store.write s p t).2 q u).1 = (Store.write s q u).1
  /-- It does not matter which of the paths is written first. -/
  snd_write_write (s : σ) (p q t u : String) : Path.parts p ≠ Path.parts q →
    (Store.write (Store.write s p t).2 q u).2 = (Store.write (Store.write s q u).2 p t).2

namespace MemoryStore

theorem file?_put_of_ne {m : MemoryStore} {path other text : String}
    (h : Path.parts path ≠ Path.parts other) : (m.put path text).file? other = m.file? other := by
  simp only [file?, put, getSorted?_putSorted, if_neg h]

theorem files_put (m : MemoryStore) (path text : String) : (m.put path text).files =
    putSorted (Path.parts path) ⟨((m.file? path).map StoredText.path).getD path, text⟩ m.files :=
  rfl

/-- Texts that are put at different paths may be put in either order. -/
theorem put_comm {m : MemoryStore} {p q t u : String} (h : Path.parts p ≠ Path.parts q) :
    (m.put p t).put q u = (m.put q u).put p t := by
  have hp : (m.put p t).file? q = m.file? q := file?_put_of_ne h
  have hq : (m.put q u).file? p = m.file? p := file?_put_of_ne h.symm
  apply MemoryStore.ext
  · rw [files_put (m.put p t), files_put (m.put q u), hp, hq, files_put m p, files_put m q]
    exact putSorted_comm h.symm _ _ _
  · rfl

@[simp] theorem failsAt_put (m : MemoryStore) (path text other : String) :
    (m.put path text).failsAt other = m.failsAt other := rfl

/-- **A store in memory is independent.** -/
instance independent : Store.Independent MemoryStore where
  holds_write s p q t h := by
    show ((s.write p t).2.file? q).isSome = (s.file? q).isSome
    rw [write]
    split
    · rfl
    · rw [file?_put_of_ne h]
  fst_write_write s p q t u h := by
    show ((s.write p t).2.write q u).1 = (s.write q u).1
    rw [write, write, write]
    by_cases hp : s.failsAt p = true
    · rw [if_pos hp]
    · rw [if_neg hp, failsAt_put]
      split <;> rfl
  snd_write_write s p q t u h := by
    show ((s.write p t).2.write q u).2 = ((s.write q u).2.write p t).2
    by_cases hp : s.failsAt p = true <;> by_cases hq : s.failsAt q = true <;>
      simp [write, hp, hq, put_comm h]

end MemoryStore

end ComponentStories
