import ComponentStories.Json.Printer

/-
# Reading values

`Json.Raw` is the tree of a text that obeys the grammar, before its leaves are understood: a
number may be too large and a quoted text may hold half a surrogate pair.  `Raw.value?` gives the
value when every leaf has one.  A part that nobody asks for may keep such leaves and may be
nested to any depth; what is asked for is nested at most `Json.maxDepth` times.
-/

namespace ComponentStories.Json

/-! ## The tree of a text -/

/-- A text that obeys the grammar, with leaves that may have no value. -/
inductive Raw
  /-- No value. -/
  | null
  /-- A truth value. -/
  | bool (b : Bool)
  /-- A number, if it is not too large. -/
  | number (n : Option JsonNumber)
  /-- A quoted text, if every surrogate in it has its other half. -/
  | text (s : Option (List Char))
  /-- A list. -/
  | array (items : List Raw)
  /-- Named values as they stand in the text. -/
  | object (fields : List (Option (List Char) × Raw))

/-- The text without the blanks of the grammar in front. -/
def skipBlanks : List Char → List Char
  | [] => []
  | c :: s => if c = ' ' ∨ c = '\t' ∨ c = '\n' ∨ c = '\r' then skipBlanks s else c :: s

/-- The quoted text behind an opening quote, and what follows it. -/
def rawText (s : List Char) : Option (Option (List Char) × List Char) :=
  (Quoted.pieces s).map fun x => (Quoted.joinPieces x.1, x.2)

mutual

/-- The value at the front of a text, and what follows it. -/
def rawValue : Nat → List Char → Option (Raw × List Char)
  | 0, _ => none
  | fuel + 1, s =>
    match skipBlanks s with
    | 'n' :: 'u' :: 'l' :: 'l' :: r => some (.null, r)
    | 't' :: 'r' :: 'u' :: 'e' :: r => some (.bool true, r)
    | 'f' :: 'a' :: 'l' :: 's' :: 'e' :: r => some (.bool false, r)
    | '"' :: r => (rawText r).map fun x => (.text x.1, x.2)
    | '[' :: r =>
      match skipBlanks r with
      | ']' :: r => some (.array [], r)
      | r => (rawItems fuel r).map fun x => (.array x.1, x.2)
    | '{' :: r =>
      match skipBlanks r with
      | '}' :: r => some (.object [], r)
      | r => (rawFields fuel r).map fun x => (.object x.1, x.2)
    | r => (JsonNumber.parts r).map fun x => (.number (JsonNumber.ofParts x.1), x.2)

/-- The items up to the end of a list. -/
def rawItems : Nat → List Char → Option (List Raw × List Char)
  | 0, _ => none
  | fuel + 1, s =>
    match rawValue fuel s with
    | none => none
    | some (v, r) =>
      match skipBlanks r with
      | ']' :: r => some ([v], r)
      | ',' :: r => (rawItems fuel r).map fun x => (v :: x.1, x.2)
      | _ => none

/-- The fields up to the end of an object. -/
def rawFields : Nat → List Char → Option (List (Option (List Char) × Raw) × List Char)
  | 0, _ => none
  | fuel + 1, s =>
    match skipBlanks s with
    | '"' :: r =>
      match rawText r with
      | none => none
      | some (n, r) =>
        match skipBlanks r with
        | ':' :: r =>
          match rawValue fuel r with
          | none => none
          | some (v, r) =>
            match skipBlanks r with
            | '}' :: r => some ([(n, v)], r)
            | ',' :: r => (rawFields fuel r).map fun x => ((n, v) :: x.1, x.2)
            | _ => none
        | _ => none
    | _ => none

end

/-- The tree of a whole text; blanks may surround the value. -/
def raw? (s : List Char) : Option Raw :=
  match rawValue (2 * s.length + 2) s with
  | some (v, r) => if (skipBlanks r).isEmpty then some v else none
  | none => none

/-! ## Understanding the leaves -/

namespace Raw

mutual

/-- The value of a tree, if every leaf has one.  Fields are sorted by name, and the
last value of a name wins. -/
def value? : Raw → Option Json
  | null => some .null
  | bool b => some (.bool b)
  | number n => n.map .number
  | text s => s.map fun s => .text (String.ofList s)
  | array items => (values? items).map .array
  | object fields => (fieldValues? fields).map .ofFields

/-- The values of a list of trees. -/
def values? : List Raw → Option (List Json)
  | [] => some []
  | v :: r =>
    match value? v, values? r with
    | some v, some r => some (v :: r)
    | _, _ => none

/-- The values of the fields of an object. -/
def fieldValues? : List (Option (List Char) × Raw) → Option (List (String × Json))
  | [] => some []
  | (n, v) :: r =>
    match n, value? v, fieldValues? r with
    | some n, some v, some r => some ((String.ofList n, v) :: r)
    | _, _, _ => none

end

mutual

/-- How many lists and objects are nested in a tree. -/
def depth : Raw → Nat
  | array items => depthAll items + 1
  | object fields => depthFields fields + 1
  | _ => 0

/-- The greatest depth in a list of trees. -/
def depthAll : List Raw → Nat
  | [] => 0
  | v :: r => max (depth v) (depthAll r)

/-- The greatest depth in the fields of an object. -/
def depthFields : List (Option (List Char) × Raw) → Nat
  | [] => 0
  | (_, v) :: r => max (depth v) (depthFields r)

end

/-- The value of a tree that is nested at most `limit` times. -/
def valueWithin? (limit : Nat) (r : Raw) : Option Json :=
  if r.depth ≤ limit then r.value? else none

end Raw

/-- How many lists and objects may be nested in a text. -/
def maxDepth : Nat := 127

/-- The value of a whole text, nested to any depth. -/
def read? (s : List Char) : Option Json := (raw? s).bind Raw.value?

/-- The value of a whole text that is nested at most `maxDepth` times. -/
def readWithin? (s : List Char) : Option Json := (raw? s).bind (Raw.valueWithin? maxDepth)

end ComponentStories.Json
