/-
# White space and the trimming of texts

The Unicode property `White_Space` as a predicate on characters, and the removal of
characters of a given kind from the ends of a text.  Texts are lists of characters here;
`String` appears only at the borders of the library.
-/

namespace ComponentStories.Text

/-! ## The property -/

/-- The code points of the Unicode property `White_Space`. -/
def isBlankCode (n : Nat) : Bool :=
  (9 ≤ n && n ≤ 13) || n == 0x20 || n == 0x85 || n == 0xA0 || n == 0x1680 ||
    (0x2000 ≤ n && n ≤ 0x200A) || n == 0x2028 || n == 0x2029 || n == 0x202F ||
    n == 0x205F || n == 0x3000

/-- A character is blank when it has the Unicode property `White_Space`. -/
def isBlank (c : Char) : Bool := isBlankCode c.toNat

/-- An ASCII letter, an ASCII digit or the underscore. -/
def isWord (c : Char) : Bool :=
  ('a' ≤ c && c ≤ 'z') || ('A' ≤ c && c ≤ 'Z') || ('0' ≤ c && c ≤ '9') || c == '_'

/-- No word character is blank. -/
theorem isBlank_eq_false_of_isWord {c : Char} (h : isWord c = true) : isBlank c = false := by
  have hc : ∀ d : Char, c.toNat = d.toNat → c = d := fun d hd =>
    Char.ext (UInt32.toNat_inj.mp hd)
  simp only [isWord, Bool.or_eq_true, Bool.and_eq_true, decide_eq_true_eq, beq_iff_eq] at h
  simp only [Char.le_def, UInt32.le_iff_toNat_le] at h
  have e : ∀ d : Char, d.val.toNat = d.toNat := fun _ => rfl
  simp only [e] at h
  have k : (0x30 ≤ c.toNat ∧ c.toNat ≤ 0x39) ∨ (0x41 ≤ c.toNat ∧ c.toNat ≤ 0x5A) ∨
      c.toNat = 0x5F ∨ (0x61 ≤ c.toNat ∧ c.toNat ≤ 0x7A) := by
    rcases h with ((h | h) | h) | h
    · exact Or.inr (Or.inr (Or.inr h))
    · exact Or.inr (Or.inl h)
    · exact Or.inl h
    · exact Or.inr (Or.inr (Or.inl (by rw [h]; rfl)))
  simp only [isBlank, isBlankCode]
  simp only [Bool.or_eq_false_iff, Bool.and_eq_false_iff, decide_eq_false_iff_not,
    beq_eq_false_iff_ne]
  omega

/-! ## Trimming -/

/-- The text without the characters of kind `p` at its end. -/
def dropEndWhile (p : Char → Bool) (s : List Char) : List Char :=
  (s.reverse.dropWhile p).reverse

/-- The text without the characters of kind `p` at either end. -/
def trimWhile (p : Char → Bool) (s : List Char) : List Char :=
  dropEndWhile p (s.dropWhile p)

/-- The text without blanks at either end. -/
def trim (s : List Char) : List Char := trimWhile isBlank s

/-- What is dropped at the end follows what is kept. -/
theorem dropEndWhile_append_takeWhile (p : Char → Bool) (s : List Char) :
    dropEndWhile p s ++ (s.reverse.takeWhile p).reverse = s := by
  rw [dropEndWhile, ← List.reverse_append, List.takeWhile_append_dropWhile, List.reverse_reverse]

/-- Every character of the leading run has the kind asked for. -/
theorem of_mem_takeWhile {p : Char → Bool} {c : Char} {s : List Char}
    (h : c ∈ s.takeWhile p) : p c = true := by
  induction s with
  | nil => simp at h
  | cons a s ih =>
    rw [List.takeWhile_cons] at h
    split at h
    · rcases List.mem_cons.mp h with rfl | h
      · assumption
      · exact ih h
    · simp at h

theorem dropWhile_eq_nil {p : Char → Bool} {s : List Char} (h : ∀ c ∈ s, p c = true) :
    s.dropWhile p = [] := by
  induction s with
  | nil => rfl
  | cons a s ih => simp_all

/-- Characters of a kind are removed at both ends of a text that neither
begins nor ends with one. -/
theorem trimWhile_append {p : Char → Bool} {l t r : List Char} (hl : ∀ c ∈ l, p c = true)
    (hr : ∀ c ∈ r, p c = true) (hfirst : ∀ c ∈ t.head?, p c = false)
    (hlast : ∀ c ∈ t.reverse.head?, p c = false) : trimWhile p (l ++ (t ++ r)) = t := by
  have hfront : (t ++ r).dropWhile p = t ++ r ∨ t = [] := by
    cases t with
    | nil => exact Or.inr rfl
    | cons c t =>
      refine Or.inl (List.dropWhile_cons_of_neg ?_)
      rw [hfirst c rfl]
      decide
  rw [trimWhile, List.dropWhile_append_of_pos hl, dropEndWhile]
  rcases hfront with h | rfl
  · rw [h, List.reverse_append,
      List.dropWhile_append_of_pos fun c hc => hr c (List.mem_reverse.mp hc)]
    cases ht : t.reverse with
    | nil => rw [List.reverse_eq_nil_iff.mp ht]; rfl
    | cons c u =>
      have hc : ¬ p c = true := by rw [hlast c (by rw [ht]; rfl)]; decide
      rw [List.dropWhile_cons_of_neg hc, ← ht, List.reverse_reverse]
  · rw [List.nil_append, dropWhile_eq_nil hr]
    rfl

/-! ## Splitting and joining -/

/-- The pieces of a text between the characters equal to `sep`, at least one. -/
def splitAt (sep : Char) : List Char → List (List Char)
  | [] => [[]]
  | c :: s =>
    if c = sep then [] :: splitAt sep s
    else
      match splitAt sep s with
      | [] => [[c]]
      | piece :: pieces => (c :: piece) :: pieces

/-- The texts in order with `sep` between neighbours. -/
def join (sep : List Char) : List (List Char) → List Char
  | [] => []
  | [s] => s
  | s :: t :: r => s ++ sep ++ join sep (t :: r)

/-- What follows `lead` in a text that begins with it. -/
def dropLead? : List Char → List Char → Option (List Char)
  | [], s => some s
  | _ :: _, [] => none
  | a :: lead, c :: s => if a = c then dropLead? lead s else none

/-- A lead is found exactly in front of what it leaves. -/
theorem dropLead?_eq_some_iff {lead s r : List Char} :
    dropLead? lead s = some r ↔ s = lead ++ r := by
  induction lead generalizing s with
  | nil => simp [dropLead?]
  | cons a lead ih =>
    cases s with
    | nil => simp [dropLead?]
    | cons c s =>
      by_cases h : a = c
      · simp [dropLead?, h, ih]
      · simp only [dropLead?, h, if_false, List.cons_append, List.cons.injEq]
        constructor
        · intro hn; cases hn
        · rintro ⟨hc, -⟩; exact absurd hc.symm h

end ComponentStories.Text
