import ComponentStories.Json.Number
import ComponentStories.Json.Quoted

/-
# The text of a value

`Json.compact` writes a value without any blank, `Json.pretty` with every item of a list and
every field of an object on a line of its own, two spaces further in.
-/

namespace ComponentStories.Json

/-! ## Without blanks -/

mutual

/-- The characters of a value without blanks. -/
def chars : Json → List Char
  | null => "null".toList
  | bool true => "true".toList
  | bool false => "false".toList
  | number n => n.render
  | text s => Quoted.encode s.toList
  | array items => '[' :: itemChars items ++ [']']
  | object fields => '{' :: fieldChars fields ++ ['}']

/-- The items of a list with commas between them. -/
def itemChars : List Json → List Char
  | [] => []
  | [v] => chars v
  | v :: w :: r => chars v ++ ',' :: itemChars (w :: r)

/-- The fields of an object with commas between them. -/
def fieldChars : List (String × Json) → List Char
  | [] => []
  | [(n, v)] => Quoted.encode n.toList ++ ':' :: chars v
  | (n, v) :: e :: r => Quoted.encode n.toList ++ ':' :: chars v ++ ',' :: fieldChars (e :: r)

end

/-- The text of a value without blanks. -/
def compact (v : Json) : String := String.ofList v.chars

/-! ## On several lines -/

/-- A line break and the blanks of a depth. -/
def breakTo (depth : Nat) : List Char := '\n' :: List.replicate (2 * depth) ' '

mutual

/-- The characters of a value that stands at a depth, on several lines. -/
def prettyChars (depth : Nat) : Json → List Char
  | array (v :: r) =>
    '[' :: breakTo (depth + 1) ++ prettyItems (depth + 1) (v :: r) ++ breakTo depth ++ [']']
  | object (e :: r) =>
    '{' :: breakTo (depth + 1) ++ prettyFields (depth + 1) (e :: r) ++ breakTo depth ++ ['}']
  | array [] => ['[', ']']
  | object [] => ['{', '}']
  | null => chars null
  | bool b => chars (bool b)
  | number n => chars (number n)
  | text s => chars (text s)

/-- The items of a list, one a line. -/
def prettyItems (depth : Nat) : List Json → List Char
  | [] => []
  | [v] => prettyChars depth v
  | v :: w :: r => prettyChars depth v ++ ',' :: breakTo depth ++ prettyItems depth (w :: r)

/-- The fields of an object, one a line. -/
def prettyFields (depth : Nat) : List (String × Json) → List Char
  | [] => []
  | [(n, v)] => Quoted.encode n.toList ++ ':' :: ' ' :: prettyChars depth v
  | (n, v) :: e :: r =>
    Quoted.encode n.toList ++ ':' :: ' ' :: prettyChars depth v ++
      ',' :: breakTo depth ++ prettyFields depth (e :: r)

end

/-- The text of a value on several lines. -/
def pretty (v : Json) : String := String.ofList (v.prettyChars 0)

end ComponentStories.Json
