import ComponentStories.Decimal.Double

/-
# The shortest decimal that reads back

`Double.shortest` gives the decimal `digits · 10 ^ exponent` with the fewest digits among all
that round to a double, and the nearest to it among those; of two equally near ones the even.
On each grid of `10 ^ k` it is enough to test the two neighbours of the value, for if any point
of the grid lies in the interval of reals that round to the double, one of the neighbours does.
-/

namespace ComponentStories.Double

/-! ## The interval of reals that round to a double -/

/-- Whether `n / d` rounds to the double, `d` being positive: it lies between the midpoints to
the neighbours, the midpoints themselves included when the mantissa is even. -/
def admits (x : Double) (n d : Nat) : Bool :=
  let lower := if x.mantissa = Nat.pow 2 52 ∧ x.exponent > -1074 then 1 else 2
  let unitNum := powNum 2 (x.exponent - 2)
  let unitDen := powDen 2 (x.exponent - 2)
  let low := (4 * x.mantissa - lower) * unitNum * d
  let high := (4 * x.mantissa + 2) * unitNum * d
  let value := n * unitDen
  if x.mantissa % 2 = 0 then low ≤ value && value ≤ high else low < value && value < high

/-! ## The search -/

/-- The exponent `p` with `10 ^ p ≤ n / d < 10 ^ (p + 1)`, found by going up from `p`. -/
def decade (n d : Nat) : Nat → Int → Int
  | 0, p => p
  | fuel + 1, p =>
    if d * powNum 10 (p + 1) ≤ n * powDen 10 (p + 1) then decade n d fuel (p + 1) else p

/-- The neighbour of the value on the grid of `10 ^ k` that rounds to the double: the nearer
one, the even one of two equally near, as a multiple of `10 ^ k`. -/
def onGrid (x : Double) (k : Int) : Option Nat :=
  let n := x.num * powDen 10 k
  let d := x.den * powNum 10 k
  let below := n / d
  let above := below + 1
  let fits := fun m => admits x (m * powNum 10 k) (powDen 10 k)
  match fits below, fits above with
  | true, true => some (roundDiv n d)
  | true, false => some below
  | false, true => some above
  | false, false => none

/-- The first hit on the grids of ever more digits. -/
def search (x : Double) : Nat → Int → Option (Nat × Int)
  | 0, _ => none
  | fuel + 1, k =>
    match onGrid x k with
    | some m => some (m, k)
    | none => search x fuel (k - 1)

/-- The decimal without the zeros at its end. -/
def dropZeros : Nat → Nat → Int → Nat × Int
  | 0, m, k => (m, k)
  | fuel + 1, m, k => if m ≠ 0 ∧ m % 10 = 0 then dropZeros fuel (m / 10) (k + 1) else (m, k)

/-- The digits and the exponent of ten of the shortest decimal that rounds to the magnitude. -/
def shortest (x : Double) : Nat × Int :=
  if x.mantissa = 0 then (0, 0)
  else
    let p := decade x.num x.den 640 (-325)
    match search x 18 p with
    | some (m, k) => dropZeros 20 m k
    | none => (0, 0)

end ComponentStories.Double
