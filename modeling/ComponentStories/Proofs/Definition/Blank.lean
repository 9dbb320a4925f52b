import ComponentStories.Definition
import Mathlib.Data.Option.Basic

/-
# Blank values

A default is of no use if it is null, false, a zero, one of the texts `""` and `"0"`, or empty
(`Json.Blank`).  The default that is used is the declared one, unless it is blank.
-/

namespace ComponentStories

/-- A value of no use as a default. -/
inductive Json.Blank : Json → Prop
  /-- No value. -/
  | null : Blank .null
  /-- Not true. -/
  | no : Blank (.bool false)
  /-- The integer zero. -/
  | integer {i : Int64Range} (h : i.val = 0) : Blank (.number (.integer i))
  /-- A zero of either sign, however it is written. -/
  | double {d : Double} (h : d.num = 0) : Blank (.number (.double d))
  /-- The text without characters. -/
  | noText : Blank (.text "")
  /-- The text of a zero. -/
  | zeroText : Blank (.text "0")
  /-- The list without items. -/
  | noItems : Blank (.array [])
  /-- The object without fields. -/
  | noFields : Blank (.object [])

theorem Double.isZero_iff (d : Double) : d.isZero = true ↔ d.num = 0 := by
  have hpow : powNum 2 d.exponent ≠ 0 :=
    Nat.ne_of_gt (Nat.two_pow_pos d.exponent.toNat)
  rw [isZero, beq_iff_eq, num, Nat.mul_eq_zero, or_iff_left hpow]

/-- The blank values are told by a test. -/
theorem Json.isBlank_iff (v : Json) : v.isBlank = true ↔ v.Blank := by
  constructor
  · intro h
    cases v with
    | null => exact .null
    | bool b =>
      cases b with
      | false => exact .no
      | true => exact absurd h (by decide)
    | number n =>
      cases n with
      | integer i => exact .integer (beq_iff_eq.mp h)
      | double d => exact .double (d.isZero_iff.mp h)
    | text s =>
      rw [isBlank, Bool.or_eq_true, decide_eq_true_iff, decide_eq_true_iff] at h
      rcases h with rfl | rfl
      · exact .noText
      · exact .zeroText
    | array items =>
      obtain rfl := List.isEmpty_iff.mp h
      exact .noItems
    | object fields =>
      obtain rfl := List.isEmpty_iff.mp h
      exact .noFields
  · intro h
    cases h with
    | integer h => exact beq_iff_eq.mpr h
    | double h => exact (Double.isZero_iff _).mpr h
    | _ => rfl

instance (v : Json) : Decidable v.Blank := decidable_of_iff _ v.isBlank_iff

namespace Definition

variable {d : Definition} {v : Json}

/-- The default that is used is the declared one, if it is not blank. -/
theorem usedDefault?_eq_some_iff : d.usedDefault? = some v ↔ d.default = some v ∧ ¬ v.Blank := by
  rw [usedDefault?, Option.filter_eq_some_iff, Bool.not_eq_true', Bool.eq_false_iff, ne_eq,
    Json.isBlank_iff]

/-- No default is used if none is declared but blank ones. -/
theorem usedDefault?_eq_none_iff :
    d.usedDefault? = none ↔ ∀ v, d.default = some v → v.Blank := by
  rw [Option.eq_none_iff_forall_ne_some]
  simp only [ne_eq, usedDefault?_eq_some_iff, not_and, not_not]

end Definition

end ComponentStories
