import ComponentStories.Decimal.Double
import ComponentStories.Sorted

/-
# Values of the data interchange format

Null, truth values, numbers, texts, lists and named fields.  An integer of the format lies
between `-2 ^ 63` and `2 ^ 64 - 1`; every other number is a `Double`.  The fields of an object
are a list of pairs.  A value that was read has them in ascending order of their names
(`Json.ofFields`), while a writer may choose an order of its own.
-/

namespace ComponentStories

/-! ## Numbers -/

/-- An integer that fits 64 bits, with or without a sign. -/
structure Int64Range where
  /-- The integer. -/
  val : Int
  /-- It fits. -/
  fits : -9223372036854775808 ≤ val ∧ val < 18446744073709551616
  deriving DecidableEq

/-- A number of the format. -/
inductive JsonNumber
  /-- An integer that fits 64 bits. -/
  | integer (i : Int64Range)
  /-- A number with a fraction or an exponent. -/
  | double (d : Double)
  deriving DecidableEq

namespace JsonNumber

/-- The integer as a number, if it fits. -/
def ofInt? (i : Int) : Option JsonNumber :=
  if h : -9223372036854775808 ≤ i ∧ i < 18446744073709551616 then some (.integer ⟨i, h⟩) else none

/-- Whether the number is zero, of either sign. -/
def isZero : JsonNumber → Bool
  | .integer i => i.val == 0
  | .double d => d.isZero

end JsonNumber

/-! ## Values -/

/-- A value of the format. -/
inductive Json
  /-- No value. -/
  | null
  /-- A truth value. -/
  | bool (b : Bool)
  /-- A number. -/
  | number (n : JsonNumber)
  /-- A text. -/
  | text (s : String)
  /-- A list of values. -/
  | array (items : List Json)
  /-- Named values. -/
  | object (fields : List (String × Json))

namespace Json

instance : Inhabited Json := ⟨null⟩

/-- The fields of an object in ascending order of the names; the last value of a name wins. -/
def sortFields (fields : List (String × Json)) : List (String × Json) :=
  fields.foldl (fun l e => putSorted e.1 e.2 l) []

/-- The object of some fields, in ascending order of the names. -/
def ofFields (fields : List (String × Json)) : Json := object (sortFields fields)

/-- The number of a natural number that fits 64 bits, and no value above them. -/
def ofNat (n : Nat) : Json :=
  match JsonNumber.ofInt? n with
  | some x => number x
  | none => null

/-- The list of some texts. -/
def texts (l : List String) : Json := array (l.map text)

/-- The text, or no value. -/
def optional : Option String → Json
  | some s => text s
  | none => null

/-! ## Looking into a value -/

/-- The value of a field of an object. -/
def field? (name : String) : Json → Option Json
  | object fields => getSorted? name fields
  | _ => none

/-- The text that the value is. -/
def text? : Json → Option String
  | text s => some s
  | _ => none

/-- The items of the list that the value is. -/
def array? : Json → Option (List Json)
  | array items => some items
  | _ => none

/-- The texts of the list of texts that the value is. -/
def texts? : Json → Option (List String)
  | array items => items.mapM text?
  | _ => none

end Json

end ComponentStories
