/-
# Finite numbers of double precision

A `Double` is `± mantissa · 2 ^ exponent` with a mantissa below `2 ^ 53` and an exponent between
`-1074` and `971`.  `ofRatio` rounds a quotient of natural numbers to the nearest one, a tie going
to the even mantissa; there is no infinity, so a quotient that is too large gives nothing.
Everything is exact arithmetic on `Nat` and `Int`.
-/

namespace ComponentStories

/-- A finite number of double precision: sign, mantissa and exponent of two. -/
structure Double where
  /-- Whether the sign is minus; zero has a sign too. -/
  negative : Bool
  /-- The mantissa. -/
  mantissa : Nat
  /-- The exponent of two. -/
  exponent : Int
  mantissa_lt : mantissa < Nat.pow 2 53
  le_exponent : -1074 ≤ exponent
  exponent_le : exponent ≤ 971
  deriving DecidableEq, Repr

namespace Double

/-! ## Powers of two and of ten as quotients -/

/-- The numerator of `base ^ e`. -/
def powNum (base : Nat) (e : Int) : Nat := Nat.pow base e.toNat

/-- The denominator of `base ^ e`. -/
def powDen (base : Nat) (e : Int) : Nat := Nat.pow base (-e).toNat

/-- The numerator of the magnitude. -/
def num (d : Double) : Nat := d.mantissa * powNum 2 d.exponent

/-- The denominator of the magnitude. -/
def den (d : Double) : Nat := powDen 2 d.exponent

/-! ## Rounding -/

/-- The quotient of two natural numbers rounded to the nearest one, a tie to the even one. -/
def roundDiv (n d : Nat) : Nat :=
  let q := n / d
  let r := n % d
  if d < 2 * r then q + 1
  else if 2 * r = d ∧ q % 2 = 1 then q + 1
  else q

/-- The exponent `k` with `2 ^ k ≤ n / d < 2 ^ (k + 1)`, for positive `n` and `d`. -/
def binade (n d : Nat) : Int :=
  let k : Int := (Nat.log2 n : Int) - (Nat.log2 d : Int)
  if d * powNum 2 k ≤ n * powDen 2 k then k else k - 1

/-! ## The mantissa of a quotient -/

theorem roundDiv_le (n d : Nat) : roundDiv n d ≤ n / d + 1 := by
  simp only [roundDiv]
  split
  · exact Nat.le_refl _
  · split
    · exact Nat.le_refl _
    · exact Nat.le_succ _

/-- A quotient is below a power of two if it is after both are scaled up. -/
theorem lt_pow_iff {n d a : Nat} {k : Int} (h : 0 ≤ k + a) :
    n * powDen 2 k < d * powNum 2 k ↔ n * Nat.pow 2 a < d * Nat.pow 2 (k + a).toNat := by
  obtain ⟨j, rfl⟩ : ∃ j, a = (-k).toNat + j := ⟨a - (-k).toNat, by omega⟩
  have hexponent : (k + ((-k).toNat + j : Nat)).toNat = k.toNat + j := by omega
  simp only [powDen, powNum, Nat.pow_eq]
  rw [hexponent, Nat.pow_add, Nat.pow_add, ← Nat.mul_assoc, ← Nat.mul_assoc,
    Nat.mul_lt_mul_right (Nat.two_pow_pos j)]

/-- A quotient is below the power of two that follows its binade. -/
theorem lt_binade_succ {n d : Nat} (hd : d ≠ 0) :
    n * powDen 2 (binade n d + 1) < d * powNum 2 (binade n d + 1) := by
  rw [binade]
  split
  · -- the numerator is below the power that follows its own, the denominator not below its own
    have hn : n < 2 ^ (Nat.log2 n + 1) := Nat.lt_log2_self
    have hle : 2 ^ Nat.log2 d ≤ d := Nat.log2_self_le hd
    rw [lt_pow_iff (a := Nat.log2 d) (by omega)]
    have hexponent : ((Nat.log2 n : Int) - Nat.log2 d + 1 + Nat.log2 d).toNat = Nat.log2 n + 1 := by
      omega
    rw [hexponent, Nat.pow_eq, Nat.pow_eq]
    calc n * 2 ^ Nat.log2 d < 2 ^ (Nat.log2 n + 1) * 2 ^ Nat.log2 d :=
          (Nat.mul_lt_mul_right (Nat.two_pow_pos _)).mpr hn
      _ = 2 ^ Nat.log2 d * 2 ^ (Nat.log2 n + 1) := Nat.mul_comm _ _
      _ ≤ d * 2 ^ (Nat.log2 n + 1) := Nat.mul_le_mul_right _ hle
  · rename_i hlt
    rw [Int.sub_add_cancel]
    exact Nat.not_le.mp hlt

/-- The exponent of the double that is nearest to a quotient, unless the mantissa is carried. -/
def unitExponent (n d : Nat) : Int := max (-1074) (binade n d - 52)

/-- The mantissa of the double that is nearest to a quotient; `2 ^ 53` if it has to be carried. -/
def unitMantissa (n d : Nat) : Nat :=
  roundDiv (n * powDen 2 (unitExponent n d)) (d * powNum 2 (unitExponent n d))

/-- The mantissa is at most `2 ^ 53`. -/
theorem unitMantissa_le (n d : Nat) : unitMantissa n d ≤ Nat.pow 2 53 := by
  by_cases hd : d = 0
  · refine Nat.le_trans (roundDiv_le _ _) ?_
    rw [hd, Nat.zero_mul, Nat.div_zero]
    decide
  have he : binade n d - 52 ≤ unitExponent n d := Int.le_max_right _ _
  -- both sides of the bound on the quotient at one scale
  have hlt : n * powDen 2 (unitExponent n d) < 2 ^ 53 * d * powNum 2 (unitExponent n d) := by
    generalize unitExponent n d = e at he
    have hbinade := lt_binade_succ (n := n) hd
    generalize binade n d = k at he hbinade
    rw [lt_pow_iff (a := (k + 1).natAbs + e.natAbs) (by omega), Nat.pow_eq, Nat.pow_eq] at hbinade ⊢
    refine Nat.lt_of_lt_of_le hbinade ?_
    rw [Nat.mul_comm (2 ^ 53) d, Nat.mul_assoc, ← Nat.pow_add]
    exact Nat.mul_le_mul_left d (Nat.pow_le_pow_right (by decide) (by omega))
  rw [Nat.mul_assoc, Nat.mul_comm (2 ^ 53)] at hlt
  exact Nat.le_trans (roundDiv_le _ _) (Nat.div_lt_of_lt_mul hlt)

/-! ## The nearest double -/

/-- The zero of a sign. -/
def zero (negative : Bool) : Double := ⟨negative, 0, -1074, by decide, by decide, by decide⟩

/-- The double of a sign with a mantissa, which may have to be carried, and an exponent; none
above the greatest double. -/
def carried (negative : Bool) (m : Nat) (e : Int) (hm : m ≤ Nat.pow 2 53) (he : -1074 ≤ e) :
    Option Double :=
  if hcarry : m = Nat.pow 2 53 then
    if h : e + 1 ≤ 971 then some ⟨negative, Nat.pow 2 52, e + 1, by decide, by omega, h⟩ else none
  else if h : e ≤ 971 then some ⟨negative, m, e, Nat.lt_of_le_of_ne hm hcarry, he, h⟩
  else none

/-- The nearest double of a sign to the quotient `n / d`; none above the greatest double. -/
def ofRatio (negative : Bool) (n d : Nat) : Option Double :=
  if n = 0 then some (zero negative)
  else
    carried negative (unitMantissa n d) (unitExponent n d) (unitMantissa_le n d)
      (Int.le_max_left _ _)

/-- The nearest double to a natural number. -/
def ofNat (negative : Bool) (n : Nat) : Option Double := ofRatio negative n 1

/-- The nearest double to `n · 10 ^ e`.  Exponents that leave no doubt about the answer are not
raised to a power: a positive number above `10 ^ 400` is too large, and one below `10 ^ (-400)` is
nearest to zero. -/
def ofDecimal (negative : Bool) (n : Nat) (e : Int) : Option Double :=
  if n = 0 then some (zero negative)
  else if e > 400 then none
  else if e + Nat.log2 n < -401 then some (zero negative)
  else ofRatio negative (n * powNum 10 e) (powDen 10 e)

/-- The rounded product of two doubles, with the sign of the first. -/
def scaleUp (a b : Double) : Option Double :=
  ofRatio a.negative (a.num * b.num) (a.den * b.den)

/-- The rounded quotient of two doubles, with the sign of the first. -/
def scaleDown (a b : Double) : Option Double :=
  ofRatio a.negative (a.num * b.den) (a.den * b.num)

/-- Whether the value is zero, of either sign. -/
def isZero (d : Double) : Bool := d.mantissa == 0

end Double

end ComponentStories
