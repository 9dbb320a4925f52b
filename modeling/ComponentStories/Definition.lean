import ComponentStories.Json.Basic

/-
# Definitions of props and slots

A definition declares the type of an input, its texts for people, the values it may take and its
default.  What is stored and what is used differ: blank values (an empty title, an empty list of
values, a default such as `false`, `0` or `""`) are stored but count as absent.
-/

namespace ComponentStories

/-! ## Declared types -/

/-- A type that an input may declare. -/
inductive TypeTag
  /-- Texts. -/
  | string
  /-- Numbers. -/
  | number
  /-- Truth values. -/
  | boolean
  /-- Lists. -/
  | array
  /-- Named values. -/
  | object
  /-- Any other word. -/
  | other (word : String)
  deriving DecidableEq, Repr

namespace TypeTag

/-- The type of a word. -/
def ofWord (word : String) : TypeTag :=
  if word = "string" then string
  else if word = "number" then number
  else if word = "boolean" then boolean
  else if word = "array" then array
  else if word = "object" then object
  else other word

/-- The word of a type. -/
def word : TypeTag → String
  | string => "string"
  | number => "number"
  | boolean => "boolean"
  | array => "array"
  | object => "object"
  | other w => w

/-- Lists and named values are written as collections. -/
def isCollection : TypeTag → Bool
  | array => true
  | object => true
  | _ => false

/-- Whether the type is none of the known ones. -/
def isOther : TypeTag → Bool
  | other _ => true
  | _ => false

/-- A type made from a word has that word. -/
@[simp] theorem word_ofWord (w : String) : (ofWord w).word = w := by
  simp only [ofWord]
  repeat' split
  all_goals simp_all [word]

end TypeTag

/-- The declared type of an input: one type or a list of types. -/
inductive TypeSpec
  /-- One type. -/
  | single (tag : TypeTag)
  /-- A list of types, which may be empty. -/
  | list (tags : List TypeTag)
  deriving DecidableEq, Repr

/-- The type that decides how an input is edited: the only one, or the first of a list. -/
def TypeSpec.representative? : TypeSpec → Option TypeTag
  | single tag => some tag
  | list tags => tags.head?

/-! ## Definitions -/

/-- The definition of a prop or a slot. -/
structure Definition where
  /-- The declared type. -/
  type : Option TypeSpec
  /-- The title. -/
  title : Option String
  /-- The description. -/
  description : Option String
  /-- The values that the input may take, in order. -/
  options : Option (List Json)
  /-- The default. -/
  default : Option Json
  /-- Whether the input is a slot. -/
  isSlot : Bool

/-- Whether a value is of no use as a default: null, false, any zero, the texts `""` and
`"0"`, and what is empty. -/
def Json.isBlank : Json → Bool
  | .null => true
  | .bool b => !b
  | .number n => n.isZero
  | .text s => s = "" || s = "0"
  | .array items => items.isEmpty
  | .object fields => fields.isEmpty

namespace Definition

/-- The definition that declares nothing. -/
def blank : Definition := ⟨none, none, none, none, none, false⟩

instance : Inhabited Definition := ⟨blank⟩

/-- The definition as that of a slot. -/
def asSlot (d : Definition) : Definition := { d with isSlot := true }

/-- The type that decides how the input is edited. -/
def representative? (d : Definition) : Option TypeTag := d.type.bind TypeSpec.representative?

/-- The title, unless it is empty. -/
def usedTitle? (d : Definition) : Option String := d.title.filter (· ≠ "")

/-- The description, unless it is empty. -/
def usedDescription? (d : Definition) : Option String := d.description.filter (· ≠ "")

/-- The values that the input may take, unless there are none. -/
def usedOptions? (d : Definition) : Option (List Json) := d.options.filter fun o => !o.isEmpty

/-- The default, unless it is blank. -/
def usedDefault? (d : Definition) : Option Json := d.default.filter fun v => !v.isBlank

end Definition

end ComponentStories
