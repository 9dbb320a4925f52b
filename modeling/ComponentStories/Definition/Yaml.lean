import ComponentStories.Definition
import ComponentStories.Ordered
import ComponentStories.Yaml.Decode

/-
# Definitions in documents

A definition is a mapping with the keys `type`, `title`, `description`, `enum` and `default`.  A
text is taken as it is written, whatever it would mean elsewhere; the type and the values are
understood.
-/

namespace ComponentStories.Definition

open ComponentStories.Yaml

/-- A declared type: a word or a list of words, none of which means anything but a text. -/
def decodeType (d : Document) (depth : Nat) (n : Node) : Decode TypeSpec := do
  match ← Decode.value d depth n with
  | .text s => pure (.single (TypeTag.ofWord s))
  | .array items =>
    match items.mapM Json.text? with
    | some ws => pure (.list (ws.map TypeTag.ofWord))
    | none => failure
  | _ => failure

/-- The definition that a node is. -/
def decode (d : Document) (depth : Nat) (n : Node) : Decode Definition := do
  let (depth, found) ← Decode.fields d ["type", "title", "description", "enum", "default"] depth n
  let type ← Decode.fieldOf d found "type" (decodeType d depth)
  let title ← Decode.fieldOf d found "title" (Decode.text d)
  let description ← Decode.fieldOf d found "description" (Decode.text d)
  let options ← Decode.fieldOf d found "enum" (Decode.list d (Decode.value d) depth)
  let default ← Decode.fieldOf d found "default" (Decode.value d depth)
  pure ⟨type, title, description, options, default, false⟩

/-- The definitions of a mapping: a repeated name keeps its first place and its last definition. -/
def decodeMap (d : Document) (depth : Nat) (n : Node) : Decode (Ordered Definition) := do
  let entries ← Decode.mapping d (decode d) depth n
  pure (Ordered.ofList entries)

/-- The definition of a source text. -/
def ofYaml? (s : List Char) : Option Definition := readDocument? blank decode s

/-- The named definitions of a source text. -/
def mapOfYaml? (s : List Char) : Option (Ordered Definition) :=
  readDocument? Ordered.empty decodeMap s

end ComponentStories.Definition
