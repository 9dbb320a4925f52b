import ComponentStories.Json.Basic
import ComponentStories.Json.Number

/-
# What a plain scalar means

A plain scalar is null, a truth value, an integer, a number with a fraction, or else a text.
Integers may have a sign and a base of sixteen, eight or two; a decimal integer with a leading zero
is a text.  An integer that fits 128 bits but not 64 is refused; a larger one is read as a number
with a fraction.
-/

namespace ComponentStories.Yaml.Plain

/-! ## Words -/

/-- Whether the text is one of the words for null. -/
def isNull (s : List Char) : Bool :=
  s == "null".toList || s == "Null".toList || s == "NULL".toList || s == "~".toList

/-- The truth value that the text is a word for. -/
def bool? (s : List Char) : Option Bool :=
  if s = "true".toList ∨ s = "True".toList ∨ s = "TRUE".toList then some true
  else if s = "false".toList ∨ s = "False".toList ∨ s = "FALSE".toList then some false
  else none

/-! ## Integers -/

/-- The value of a digit in a base of at most sixteen. -/
def digitIn? (base : Nat) (c : Char) : Option Nat :=
  let v := if '0' ≤ c ∧ c ≤ '9' then some (c.toNat - '0'.toNat)
    else if 'a' ≤ c ∧ c ≤ 'f' then some (c.toNat - 'a'.toNat + 10)
    else if 'A' ≤ c ∧ c ≤ 'F' then some (c.toNat - 'A'.toNat + 10)
    else none
  v.bind fun d => if d < base then some d else none

/-- The number that at least one digit writes in a base. -/
def natIn? (base : Nat) (s : List Char) : Option Nat :=
  if s.isEmpty then none else s.foldlM (fun n c => (digitIn? base c).map (n * base + ·)) 0

/-- Whether the text is a zero in front of further digits. -/
def hasLeadingZero (s : List Char) : Bool :=
  match s with
  | '0' :: c :: r => (c :: r).all fun d => '0' ≤ d && d ≤ '9'
  | _ => false

/-- The magnitude of an integer without its sign. -/
def magnitude? (s : List Char) : Option Nat :=
  let based := match s with
    | '0' :: 'x' :: r => natIn? 16 r
    | '0' :: 'o' :: r => natIn? 8 r
    | '0' :: 'b' :: r => natIn? 2 r
    | _ => none
  match based with
  | some n => some n
  | none => if hasLeadingZero s then none else natIn? 10 s

/-- What a text is as an integer. -/
inductive Reading
  /-- It is one that fits 64 bits. -/
  | fits (n : JsonNumber)
  /-- It is one that fits 128 bits only. -/
  | tooWide
  /-- It is no integer, or one of more than 128 bits. -/
  | other

/-- The text as an integer. -/
def integer (s : List Char) : Reading :=
  let (negative, digits) := match s with
    | '-' :: r => (true, r)
    | '+' :: r => (false, r)
    | r => (false, r)
  match magnitude? digits with
  | none => .other
  | some n =>
    match JsonNumber.ofInt? (if negative then -(n : Int) else n) with
    | some x => .fits x
    | none => if n < Nat.pow 2 128 ∧ (!negative ∨ n ≤ Nat.pow 2 127) then .tooWide else .other

/-! ## Numbers with a fraction -/

/-- What a text is as a number with a fraction. -/
inductive Fraction
  /-- It is a finite one. -/
  | finite (d : Double)
  /-- It is infinite or not a number. -/
  | special
  /-- It is no such number. -/
  | other

/-- The digits of a decimal with a fraction and an exponent; a digit is needed in
front of or behind the point. -/
def decimal? (negative : Bool) (s : List Char) : Option Double :=
  let (whole, s) := JsonNumber.takeDigits s
  let (fraction, s) := match s with
    | '.' :: r => JsonNumber.takeDigits r
    | r => ([], r)
  if whole.isEmpty && fraction.isEmpty then none
  else
    match JsonNumber.takeExponent s with
    | some (exponent, []) =>
      let n := JsonNumber.ofDigits (whole ++ fraction)
      let e : Int := match exponent with
        | some (true, ds) => -(JsonNumber.ofDigits ds : Int)
        | some (false, ds) => JsonNumber.ofDigits ds
        | none => 0
      Double.ofDecimal negative n (e - fraction.length)
    | _ => none

/-- The text as a number with a fraction. -/
def fraction (s : List Char) : Fraction :=
  let (sign, r) := match s with
    | '-' :: r => (some true, r)
    | '+' :: r => (some false, r)
    | r => (none, r)
  if r = ".inf".toList ∨ r = ".Inf".toList ∨ r = ".INF".toList then .special
  else if sign.isNone ∧ (r = ".nan".toList ∨ r = ".NaN".toList ∨ r = ".NAN".toList) then .special
  else
    match decimal? (sign == some true) r with
    | some d => .finite d
    | none => .other

/-! ## The value -/

/-- Whether the digits behind a sign have a leading zero. -/
def isPadded (s : List Char) : Bool :=
  match s with
  | '-' :: r => hasLeadingZero r
  | '+' :: r => hasLeadingZero r
  | r => hasLeadingZero r

/-- A number with a fraction as a value: what is not finite has no value of its own. -/
def Fraction.value? : Fraction → Option Json
  | .finite d => some (.number (.double d))
  | .special => some .null
  | .other => none

/-- The value of a plain scalar; none when it is refused. -/
def value? (s : List Char) : Option Json :=
  if s.isEmpty || isNull s then some .null
  else
    match bool? s with
    | some b => some (.bool b)
    | none =>
      match integer s with
      | .fits n => some (.number n)
      | .tooWide => none
      | .other =>
        if isPadded s then some (.text (String.ofList s))
        else
          match (fraction s).value? with
          | some v => some v
          | none => some (.text (String.ofList s))

end ComponentStories.Yaml.Plain
