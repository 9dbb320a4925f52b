import ComponentStories.Component
import ComponentStories.Json.Printer

/-
# Arguments

The inputs of a component become arguments of its preview: each has a control to edit it with and a
default, both as the literals that a story template holds.  Props come first, then slots; a slot
with the name of a prop takes the place of the prop.
-/

namespace ComponentStories

/-! ## Controls -/

/-- The group of an argument in the panel of controls. -/
inductive Category
  /-- Props. -/
  | props
  /-- Slots. -/
  | slots
  deriving DecidableEq, Repr

/-- The name of a group. -/
def Category.title : Category → String
  | props => "Props"
  | slots => "Slots"

/-- How an argument is edited. -/
inductive Control
  /-- By picking one of some values. -/
  | select (options : List String)
  /-- As a text. -/
  | text
  /-- As a number. -/
  | number
  /-- As a value of any kind. -/
  | freeform
  deriving DecidableEq, Repr

/-- A value as a text: a text is itself, any other value is written. -/
def Json.plainText : Json → String
  | .text s => s
  | v => v.compact

namespace Control

/-- The control of an input: declared values are picked from, else the type decides. -/
def ofDefinition (d : Definition) : Control :=
  match d.usedOptions? with
  | some options => select (options.map Json.plainText)
  | none =>
    match d.representative? with
    | some .string => text
    | some .number => number
    | _ => freeform

/-- One character between single quotes. -/
def escape (c : Char) : List Char :=
  if c = '\\' then ['\\', '\\'] else if c = '\'' then ['\\', '\''] else [c]

/-- A text with its backslashes and single quotes escaped. -/
def escapeAll (s : List Char) : List Char := s.flatMap escape

/-- The options as they stand between the outer single quotes. -/
def optionChars : List String → List Char
  | [] => []
  | [o] => escapeAll o.toList
  | o :: p :: r => escapeAll o.toList ++ "','".toList ++ optionChars (p :: r)

/-- The characters of the literal of a control. -/
def literalChars : Control → List Char
  | select options =>
    "\x7bcontrol: 'select', options: ['".toList ++ optionChars options ++ "']\x7d".toList
  | text => "\x7bcontrol: \"text\"\x7d".toList
  | number => "\x7bcontrol: \"number\"\x7d".toList
  | freeform => "\x7bcontrol: \"object\"\x7d".toList

/-- The literal of a control. -/
def literal (c : Control) : String := String.ofList c.literalChars

end Control

/-! ## Defaults -/

/-- The default of an argument that has none and is no collection. -/
def placeholder : String := "placeholder"

/-- The literal of a default.  A collection is written as the value that it is, any other
argument as a quoted text. -/
def defaultLiteral (type : Option TypeTag) (default : Option Json) : String :=
  if type.any TypeTag.isCollection then
    ((default.map Json.compact).getD "[]")
  else
    (Json.text ((default.map Json.plainText).getD placeholder)).compact

/-! ## Arguments -/

/-- An argument of a preview. -/
structure Argument where
  /-- The name. -/
  name : String
  /-- The type, if one is declared. -/
  type : Option TypeTag
  /-- The title, if there is one. -/
  title : Option String
  /-- The description, if there is one. -/
  description : Option String
  /-- Whether it must be supplied. -/
  required : Bool
  /-- The group of the argument. -/
  category : Category
  /-- How it is edited. -/
  control : Control
  /-- The literal of its default. -/
  defaultLiteral : String

/-- The argument of an input. -/
def Argument.ofDefinition (name : String) (d : Definition) (required : Bool) : Argument where
  name := name
  type := d.representative?
  title := d.usedTitle?
  description := d.usedDescription?
  required := required
  category := if d.isSlot then .slots else .props
  control := Control.ofDefinition d
  defaultLiteral := ComponentStories.defaultLiteral d.representative? d.usedDefault?

namespace Component

/-- The inputs by name: the props in order, then the slots; a slot with the name
of a prop takes its place. -/
def inputs (c : Component) : Ordered Definition := c.properties.insertAll c.slots.entries

/-- The arguments of a component's preview. -/
def arguments (c : Component) : List Argument :=
  c.inputs.entries.map fun e => Argument.ofDefinition e.1 e.2 (c.isRequired e.1)

theorem map_name_arguments (c : Component) :
    c.arguments.map Argument.name = c.inputs.names := by
  simp only [arguments, List.map_map, Ordered.names]
  rfl

end Component

end ComponentStories
