import ComponentStories.Proofs.Json.Reread

/-
# Integers are read back

The text of an integer is a sign, if it is negative, and decimal digits, the first of which is zero
for no other number than zero.  Whatever may follow a value, the digits are read up to it and make
up the integer again (`rereads_integer`), as none of them is lost below `2 ^ 64`.
-/

namespace ComponentStories.JsonNumber

/-! ## Digits -/

/-- The value of a digit. -/
def digitValue (c : Char) : Nat := c.toNat - '0'.toNat

theorem digit?_eq_some {c : Char} (h : c.isDigit = true) : digit? c = some (digitValue c) := by
  rw [digit?, if_pos, digitValue]
  simpa [Char.isDigit, Char.le_def] using h

theorem digit?_eq_none {c : Char} (h : c.isDigit = false) : digit? c = none := by
  rw [digit?, if_neg]
  intro hc
  rw [Bool.eq_false_iff] at h
  exact h (by simpa [Char.isDigit, Char.le_def] using hc)

theorem eq_of_digitValue_eq_zero {c : Char} (h : c.isDigit = true) (hzero : digitValue c = 0) :
    c = '0' := by
  have hle : '0'.toNat ≤ c.toNat := by
    simp only [Char.isDigit, Bool.and_eq_true, decide_eq_true_eq] at h
    exact UInt32.le_iff_toNat_le.mp h.1
  exact Char.toNat_inj.mp (Nat.le_antisymm (Nat.sub_eq_zero_iff_le.mp hzero) hle)

/-- Digits are taken up to the first other character. -/
theorem takeDigits_append {cs r : List Char} (hcs : ∀ c ∈ cs, c.isDigit = true)
    (hr : ∀ c ∈ r.head?, c.isDigit = false) : takeDigits (cs ++ r) = (cs.map digitValue, r) := by
  induction cs with
  | nil =>
    cases r with
    | nil => rfl
    | cons c r => rw [List.nil_append, takeDigits, digit?_eq_none (hr c rfl), List.map_nil]
  | cons c cs ih =>
    obtain ⟨hc, hcs⟩ := List.forall_mem_cons.mp hcs
    rw [List.cons_append, takeDigits, digit?_eq_some hc, ih hcs, List.map_cons]

theorem isDigit_of_mem_digits {n : Nat} {c : Char} (h : c ∈ digits n) : c.isDigit = true :=
  Nat.isDigit_of_mem_toDigits (by decide) (by decide) h

/-- The first digit of a number is not zero, unless the number is. -/
theorem head?_digits {n : Nat} (h : 0 < n) : (digits n).head? ≠ some '0' := by
  induction n using Nat.strongRecOn with
  | ind n ih =>
    rw [digits, Nat.toDigits_eq_if (by decide)]
    split
    · intro hzero
      have hn : n = 0 := Nat.digitChar_eq_zero.mp (Option.some.inj hzero)
      exact absurd hn h.ne'
    · have hfront := ih (n / 10) (by omega) (by omega)
      rwa [List.head?_append_of_ne_nil _ Nat.toDigits_ne_nil]

theorem ofDigits_digits (n : Nat) : ofDigits ((digits n).map digitValue) = n := by
  rw [ofDigits, List.foldl_map]
  calc (digits n).foldl (fun m c => m * 10 + digitValue c) 0
      = Nat.ofDigitChars 10 (digits n) 0 := by
        rw [Nat.ofDigitChars_eq_foldl]
        simp only [digitValue, Nat.mul_comm]
    _ = n := Nat.ofDigitChars_ten_toDigits

theorem le_foldl_digits (m : Nat) (ds : List Nat) : m ≤ ds.foldl (fun n d => n * 10 + d) m := by
  induction ds generalizing m with
  | nil => exact Nat.le_refl m
  | cons d ds ih =>
    have hd : m ≤ m * 10 + d := by omega
    exact hd.trans (ih _)

/-- No digit is lost of a significand that fits. -/
theorem gather_eq {m : Nat} {ds : List Nat}
    (h : ds.foldl (fun n d => n * 10 + d) m ≤ maxSignificand) :
    gather m ds = (ds.foldl (fun n d => n * 10 + d) m, []) := by
  induction ds generalizing m with
  | nil => rfl
  | cons d ds ih =>
    have hfits : m * 10 + d ≤ maxSignificand := (le_foldl_digits _ ds).trans h
    rw [gather, if_neg (not_lt.mpr hfits)]
    exact ih h

/-! ## Integers -/

/-- The digits of a number are read up to what may follow a value. -/
theorem takeSomeDigits_digits_append (n : Nat) {r : List Char} (hr : EndsValue r) :
    takeSomeDigits (digits n ++ r) = some ((digits n).map digitValue, r) := by
  have hend : ∀ c ∈ r.head?, c.isDigit = false := by
    intro c hc
    rcases hr c hc with rfl | rfl | rfl <;> decide
  have hne : (digits n).map digitValue ≠ [] := mt List.map_eq_nil_iff.mp Nat.toDigits_ne_nil
  rw [takeSomeDigits, takeDigits_append (fun c => isDigit_of_mem_digits) hend]
  cases hvalues : (digits n).map digitValue with
  | nil => exact absurd hvalues hne
  | cons d ds => rfl

/-- No zero stands in front of other digits of a number. -/
theorem not_leading_zero (n : Nat) : ¬ (((digits n).map digitValue).length > 1 ∧
    ((digits n).map digitValue).head? = some 0) := by
  rintro ⟨hlength, hhead⟩
  rw [List.length_map] at hlength
  rw [List.head?_map] at hhead
  obtain ⟨c, hc, hzero⟩ := Option.map_eq_some_iff.mp hhead
  have hdigit : c.isDigit = true := isDigit_of_mem_digits (List.mem_of_head? hc)
  obtain rfl := eq_of_digitValue_eq_zero hdigit hzero
  have hn : n = 0 := Nat.eq_zero_of_not_pos fun hpos => head?_digits hpos hc
  rw [hn] at hlength
  exact absurd hlength (by decide)

theorem takeFraction_eq {r : List Char} (hr : EndsValue r) : takeFraction r = some (none, r) := by
  cases r with
  | nil => rfl
  | cons c r => rcases hr c rfl with rfl | rfl | rfl <;> rfl

theorem takeExponent_eq {r : List Char} (hr : EndsValue r) : takeExponent r = some (none, r) := by
  cases r with
  | nil => rfl
  | cons c r => rcases hr c rfl with rfl | rfl | rfl <;> rfl

/-- The text of an integer is read as its sign and its digits. -/
theorem parts_integerText_append (i : Int) {r : List Char} (hr : EndsValue r) :
    parts (integerText i ++ r) =
      some (⟨decide (i < 0), (digits i.natAbs).map digitValue, none, none⟩, r) := by
  have hread := takeSomeDigits_digits_append i.natAbs hr
  have hzero := not_leading_zero i.natAbs
  by_cases hi : i < 0
  · simp only [integerText, if_pos hi, List.cons_append, parts, hread, Option.bind_eq_bind,
      Option.bind_some, if_neg hzero, takeFraction_eq hr, takeExponent_eq hr, decide_eq_true hi,
      Option.pure_def]
  · have hplain : ∀ s, digits i.natAbs ++ r ≠ '-' :: s := by
      intro s heq
      obtain ⟨c, rest, hdigits⟩ := List.exists_cons_of_ne_nil (Nat.toDigits_ne_nil (b := 10))
      have hc : c.isDigit = true :=
        isDigit_of_mem_digits (n := i.natAbs) (by rw [digits, hdigits]; exact List.mem_cons_self)
      rw [digits, hdigits, List.cons_append] at heq
      rw [(List.cons.inj heq).1] at hc
      exact absurd hc (by decide)
    simp only [integerText, if_neg hi, parts, hread, Option.bind_eq_bind, Option.bind_some,
      if_neg hzero, takeFraction_eq hr, takeExponent_eq hr, decide_eq_false hi, Option.pure_def]

/-- **An integer is read back as itself.** -/
theorem rereads_integer (i : Int64Range) : (integer i).Rereads := by
  intro r hr
  rw [render, parts_integerText_append i.val hr, Option.map_some]
  have hfits : ofDigits ((digits i.val.natAbs).map digitValue) ≤ maxSignificand := by
    rw [ofDigits_digits]
    have hmax : maxSignificand = 18446744073709551615 := by decide
    have hrange := i.fits
    omega
  have hgather := gather_eq hfits
  rw [← ofDigits, ofDigits_digits] at hgather
  have hint : ofInt? i.val = some (integer i) := by rw [ofInt?, dif_pos i.fits]
  rw [ofParts]
  dsimp only
  rw [hgather]
  by_cases hi : i.val < 0
  · have hne : i.val.natAbs ≠ 0 := by omega
    have hneg : -(i.val.natAbs : Int) = i.val := by omega
    simp only [decide_eq_true hi, if_true, if_neg hne, hneg, hint]
  · have hpos : (i.val.natAbs : Int) = i.val := by omega
    simp only [decide_eq_false hi, Bool.false_eq_true, if_false, hpos, hint]

end ComponentStories.JsonNumber
