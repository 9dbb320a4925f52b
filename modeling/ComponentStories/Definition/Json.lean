import ComponentStories.Definition
import ComponentStories.Json.Reader

/-
# Definitions in the data interchange format

A definition is an object with the fields `type`, `title`, `description`, `enum` and `default`, or
the list of their values in this order, cut off anywhere.  A field that is missing or null declares
nothing; a field of another name is ignored, whatever it holds.
-/

namespace ComponentStories.Definition

open ComponentStories.Json (Raw)

/-! ## Single fields -/

/-- A declared type: a word or a list of words. -/
def typeSpec? : Json → Option TypeSpec
  | .text s => some (.single (TypeTag.ofWord s))
  | .array items => (items.mapM Json.text?).map fun ws => .list (ws.map TypeTag.ofWord)
  | _ => none

/-- What `read` gives for a value, unless it is null. -/
def orNull {α : Type} (read : Json → Option α) : Json → Option (Option α)
  | .null => some none
  | v => (read v).map some

/-- The names of the fields, in order. -/
def fieldNames : List String := ["type", "title", "description", "enum", "default"]

/-- The definition of the given field values; a field without a value declares nothing. -/
def ofFields? (field : String → Json) : Option Definition :=
  match orNull typeSpec? (field "type"), orNull Json.text? (field "title"),
    orNull Json.text? (field "description"), orNull Json.array? (field "enum"),
    orNull some (field "default") with
  | some type, some title, some description, some options, some default =>
    some ⟨type, title, description, options, default, false⟩
  | _, _, _, _, _ => none

/-! ## From a value -/

/-- The definition that a value is. -/
def ofJson? : Json → Option Definition
  | .object fields => ofFields? fun name => (getSorted? name fields).getD .null
  | .array items =>
    if fieldNames.length < items.length then none
    else ofFields? fun name => ((fieldNames.zip items).lookup name).getD .null
  | _ => none

/-! ## From a text -/

/-- The values of the known fields, none of which is given twice.  Only these are looked into. -/
def knownFields? : List (Option (List Char) × Raw) → Option (List (String × Json))
  | [] => some []
  | (name, raw) :: rest =>
    match name, knownFields? rest with
    | some n, some found =>
      let name := String.ofList n
      if !fieldNames.contains name then some found
      else if (found.lookup name).isSome then none
      else (raw.valueWithin? (Json.maxDepth - 1)).map fun v => (name, v) :: found
    | _, _ => none

/-- The definition that a text writes. -/
def ofText? (s : List Char) : Option Definition :=
  match Json.raw? s with
  | some (.object fields) =>
    match knownFields? fields with
    | some found => ofFields? fun name => (found.lookup name).getD .null
    | none => none
  | some (.array items) =>
    match items.mapM (Raw.valueWithin? (Json.maxDepth - 1)) with
    | some items => ofJson? (.array items)
    | none => none
  | _ => none

end ComponentStories.Definition
