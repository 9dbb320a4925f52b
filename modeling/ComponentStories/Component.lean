import ComponentStories.Definition
import ComponentStories.Ordered
import ComponentStories.Sorted

/-
# Components

A component has an identifier, names, the path of its directory, and its inputs: props and slots,
each in the order of declaration, and the names of the inputs that must be supplied.
-/

namespace ComponentStories

/-- A component and its inputs. -/
structure Component where
  /-- The identifier, `provider:machineName` for a component that was found. -/
  id : String
  /-- The name for people. -/
  name : String
  /-- The name that is safe in identifiers, also the stem of the file name. -/
  machineName : String
  /-- The path of the directory. -/
  path : String
  /-- The description. -/
  description : Option String
  /-- The props. -/
  properties : Ordered Definition
  /-- The slots. -/
  slots : Ordered Definition
  /-- The names of inputs that must be supplied. -/
  required : List String

namespace Component

/-- A component without inputs. -/
def bare (id name machineName path : String) : Component :=
  ⟨id, name, machineName, path, none, Ordered.empty, Ordered.empty, []⟩

instance : Inhabited Component := ⟨bare "" "" "" ""⟩

/-- The component with one more prop. -/
def withProperty (c : Component) (name : String) (d : Definition) : Component :=
  { c with properties := c.properties.insert name d }

/-- The component with one more slot. -/
def withSlot (c : Component) (name : String) (d : Definition) : Component :=
  { c with slots := c.slots.insert name d.asSlot }

/-- The component with more names of required inputs. -/
def withRequired (c : Component) (names : List String) : Component :=
  { c with required := c.required ++ names }

/-- Whether an input must be supplied. -/
def isRequired (c : Component) (name : String) : Bool := c.required.contains name

/-- The names of required inputs, each once, in ascending order. -/
def requiredNames (c : Component) : List String :=
  (c.required.foldl (fun l n => putSorted n () l) []).map Prod.fst

/-- Whether the component declares neither props nor slots. -/
def hasNoInputs (c : Component) : Bool := c.properties.isEmpty && c.slots.isEmpty

end Component

end ComponentStories
