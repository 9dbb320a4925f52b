import ComponentStories.Component
import ComponentStories.Definition.Yaml
import ComponentStories.Text.Blank

/-
# Components in documents

The document of a component is a mapping with the keys `name`, `description`, `props` and `slots`;
`props` holds `properties` and `required`.  Every key may be missing or null.  A source of blanks
only is a component without inputs.
-/

namespace ComponentStories.Component

open ComponentStories.Yaml

/-- The part of a component that its document tells. -/
structure Declaration where
  /-- The name for people, if any. -/
  name : Option String
  /-- The description, if any. -/
  description : Option String
  /-- The props. -/
  properties : Ordered Definition
  /-- The slots, not yet marked as such. -/
  slots : Ordered Definition
  /-- The names of required inputs. -/
  required : List String

/-- The declaration of nothing. -/
def Declaration.empty : Declaration := ⟨none, none, Ordered.empty, Ordered.empty, []⟩

/-- The props of a node and the names of those that are required. -/
def decodeProps (d : Document) (depth : Nat) (n : Node) :
    Decode (Ordered Definition × List String) := do
  let (depth, found) ← Decode.fields d ["properties", "required"] depth n
  let properties ← Decode.fieldOf d found "properties" (Definition.decodeMap d depth)
  let required ← Decode.fieldOf d found "required" (Decode.list d (fun _ => Decode.text d) depth)
  pure (properties.getD Ordered.empty, required.getD [])

/-- The declaration that a node is. -/
def decode (d : Document) (depth : Nat) (n : Node) : Decode Declaration := do
  let (depth, found) ← Decode.fields d ["name", "description", "props", "slots"] depth n
  let name ← Decode.fieldOf d found "name" (Decode.text d)
  let description ← Decode.fieldOf d found "description" (Decode.text d)
  let props ← Decode.fieldOf d found "props" (decodeProps d depth)
  let slots ← Decode.fieldOf d found "slots" (Definition.decodeMap d depth)
  let (properties, required) := props.getD (Ordered.empty, [])
  pure ⟨name, description, properties, slots.getD Ordered.empty, required⟩

/-- The declaration of a source text; none when the text is no document of a component. -/
def declaration? (source : String) : Option Declaration :=
  let s := source.toList
  if (Text.trim s).isEmpty then some Declaration.empty
  else readDocument? Declaration.empty decode s

/-- The component of a declaration.  Without a name for people the machine name is used. -/
def ofDeclaration (id machineName path : String) (x : Declaration) : Component where
  id := id
  name := (x.name.filter (· ≠ "")).getD machineName
  machineName := machineName
  path := path
  description := x.description
  properties := x.properties
  slots := x.slots.map Definition.asSlot
  required := x.required

/-- The component of a source text. -/
def ofSource? (source id machineName path : String) : Option Component :=
  (declaration? source).map (ofDeclaration id machineName path)

end ComponentStories.Component
