import ComponentStories.Decimal.Shortest
import ComponentStories.Json.Basic

/-
# The text of a number

An integer is written with its digits.  A double is written with the fewest digits that read
back, positionally while its first digit stands at a place from `10 ^ (-5)` to `10 ^ 15` and
with an exponent outside; it always shows a point or an exponent, so it is never taken for an
integer.

Reading takes the digits of a number into an integer as long as it fits 64 bits and counts the
digits that no longer fit.  A number with a fraction, an exponent or too many digits then becomes
a double by one rounded multiplication or division by a power of ten, which is not always the
double nearest to the text.
-/

namespace ComponentStories.JsonNumber

/-! ## Writing -/

/-- The decimal digits of a natural number. -/
def digits (n : Nat) : List Char := Nat.toDigits 10 n

/-- The text of an integer. -/
def integerText (i : Int) : List Char :=
  if i < 0 then '-' :: digits i.natAbs else digits i.natAbs

/-- The least place of the first digit for which a double is written positionally. -/
def leastPositional : Int := -5

/-- The greatest place of the first digit for which a double is written positionally. -/
def greatestPositional : Int := 15

/-- The text of the magnitude `m · 10 ^ k`, `m` being the shortest digits of a double. -/
def magnitudeText (m : Nat) (k : Int) : List Char :=
  let ds := digits m
  let point : Int := ds.length + k
  let place := point - 1
  if m = 0 then ['0', '.', '0']
  else if leastPositional ≤ place ∧ place ≤ greatestPositional then
    if 0 ≤ k then ds ++ List.replicate k.toNat '0' ++ ['.', '0']
    else if 0 < point then ds.take point.toNat ++ '.' :: ds.drop point.toNat
    else ['0', '.'] ++ List.replicate (-point).toNat '0' ++ ds
  else
    let fraction := match ds.drop 1 with
      | [] => []
      | rest => '.' :: rest
    let sign := if place < 0 then '-' else '+'
    ds.take 1 ++ fraction ++ 'e' :: sign :: digits place.natAbs

/-- The text of a double. -/
def doubleText (d : Double) : List Char :=
  let (m, k) := d.shortest
  (if d.negative then ['-'] else []) ++ magnitudeText m k

/-- The text of a number. -/
def render : JsonNumber → List Char
  | .integer i => integerText i.val
  | .double d => doubleText d

/-! ## Reading -/

/-- The parts of the text of a number. -/
structure Parts where
  /-- Whether a minus stands in front. -/
  negative : Bool
  /-- The digits in front of the point. -/
  whole : List Nat
  /-- The digits behind the point, if there is one. -/
  fraction : Option (List Nat)
  /-- Whether the exponent is negative, and its digits, if there is one. -/
  exponent : Option (Bool × List Nat)

/-- The value of an ASCII digit. -/
def digit? (c : Char) : Option Nat :=
  if '0' ≤ c ∧ c ≤ '9' then some (c.toNat - '0'.toNat) else none

/-- The digits at the front of a text, and what follows them. -/
def takeDigits : List Char → List Nat × List Char
  | [] => ([], [])
  | c :: s =>
    match digit? c with
    | some d => let (ds, r) := takeDigits s; (d :: ds, r)
    | none => ([], c :: s)

/-- At least one digit at the front of a text, and what follows. -/
def takeSomeDigits (s : List Char) : Option (List Nat × List Char) :=
  match takeDigits s with
  | ([], _) => none
  | x => some x

/-- The point and the digits behind it, if a point stands at the front; it needs a digit. -/
def takeFraction : List Char → Option (Option (List Nat) × List Char)
  | '.' :: s => (takeSomeDigits s).map fun x => (some x.1, x.2)
  | s => some (none, s)

/-- The sign and the digits of an exponent. -/
def takeSigned : List Char → Option ((Bool × List Nat) × List Char)
  | '+' :: s => (takeSomeDigits s).map fun x => ((false, x.1), x.2)
  | '-' :: s => (takeSomeDigits s).map fun x => ((true, x.1), x.2)
  | s => (takeSomeDigits s).map fun x => ((false, x.1), x.2)

/-- The exponent, if its letter stands at the front; it needs a digit. -/
def takeExponent : List Char → Option (Option (Bool × List Nat) × List Char)
  | 'e' :: s => (takeSigned s).map fun x => (some x.1, x.2)
  | 'E' :: s => (takeSigned s).map fun x => (some x.1, x.2)
  | s => some (none, s)

/-- The parts of the number at the front of a text, and what follows it.  A whole part of more
than one digit does not begin with zero. -/
def parts (s : List Char) : Option (Parts × List Char) := do
  let (negative, s) := match s with
    | '-' :: r => (true, r)
    | r => (false, r)
  let (whole, s) ← takeSomeDigits s
  if whole.length > 1 ∧ whole.head? = some 0 then none
  let (fraction, s) ← takeFraction s
  let (exponent, s) ← takeExponent s
  pure (⟨negative, whole, fraction, exponent⟩, s)

/-- The greatest integer of 64 bits. -/
def maxSignificand : Nat := Nat.pow 2 64 - 1

/-- A significand followed by digits, as long as it fits 64 bits: the longer significand and the
digits that no longer fit. -/
def gather : Nat → List Nat → Nat × List Nat
  | n, [] => (n, [])
  | n, d :: ds => if maxSignificand < n * 10 + d then (n, d :: ds) else gather (n * 10 + d) ds

/-- The doubles `10 ^ 0`, `10 ^ 1`, … up to `10 ^ 308`. -/
def powerOfTen (k : Nat) : Double := (Double.ofNat false (Nat.pow 10 k)).getD (Double.zero false)

/-- A double scaled by a power of ten: divisions by `10 ^ 308` until the exponent is small enough,
then one multiplication or division.  None when the result is too large. -/
def scale : Nat → Double → Int → Option Double
  | 0, d, _ => some d
  | fuel + 1, d, e =>
    if e.natAbs ≤ 308 then
      if 0 ≤ e then d.scaleUp (powerOfTen e.natAbs) else d.scaleDown (powerOfTen e.natAbs)
    else if d.isZero then some d
    else if 0 ≤ e then none
    else (d.scaleDown (powerOfTen 308)).bind fun d => scale fuel d (e + 308)

/-- The greatest exponent that is taken at its value. -/
def maxExponent : Nat := Nat.pow 2 31 - 1

/-- The number that some digits write. -/
def ofDigits (ds : List Nat) : Nat := ds.foldl (fun n d => n * 10 + d) 0

/-- The double of a significand and an exponent of ten. -/
def scaled (negative : Bool) (n : Nat) (e : Int) : Option JsonNumber :=
  ((Double.ofNat negative n).bind fun d => scale 10 d e).map .double

/-- The number that the parts write; none when it is too large. -/
def ofParts (p : Parts) : Option JsonNumber :=
  let (n, lost) := gather 0 p.whole
  match p.fraction, p.exponent, lost with
  | none, none, [] =>
    if p.negative then
      if n = 0 then some (.double (Double.zero true))
      else match ofInt? (-(n : Int)) with
        | some i => some i
        | none => scaled true n 0
    else ofInt? n
  | _, _, _ =>
    let fraction := p.fraction.getD []
    let (n, unused) := gather n fraction
    let before : Int := lost.length - (fraction.length - unused.length : Nat)
    match p.exponent with
    | none => scaled p.negative n before
    | some (below, ds) =>
      let e := ofDigits ds
      if maxExponent < e then
        if n ≠ 0 ∧ !below then none else some (.double (Double.zero p.negative))
      else scaled p.negative n (if below then before - e else before + e)

end ComponentStories.JsonNumber
