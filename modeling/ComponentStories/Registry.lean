import ComponentStories.Component
import ComponentStories.Log
import ComponentStories.Sorted

/-
# Registries of components

A registry holds components by their identifiers, in ascending order.  A component takes the place
of an earlier one with the same identifier.
-/

namespace ComponentStories

/-- Components by their identifiers, in ascending order. -/
@[ext]
structure Registry where
  /-- The identifiers and their components. -/
  entries : List (String × Component)
  /-- The identifiers are in ascending order. -/
  ascending : (entries.map Prod.fst).Pairwise (· < ·)
  /-- A component stands under its own identifier. -/
  own : ∀ e ∈ entries, e.2.id = e.1

namespace Registry

/-- The registry without components. -/
def empty : Registry := ⟨[], .nil, fun _ h => nomatch h⟩

instance : Inhabited Registry := ⟨empty⟩

/-- The registry with one more component. -/
def insert (r : Registry) (c : Component) : Registry where
  entries := putSorted c.id c r.entries
  ascending := pairwise_putSorted c.id c r.ascending
  own e he := by
    rcases mem_putSorted he with rfl | he
    · rfl
    · exact r.own e he

/-- The component with an identifier. -/
def find? (r : Registry) (id : String) : Option Component := getSorted? id r.entries

/-- Whether a component has the identifier. -/
def contains (r : Registry) (id : String) : Bool := (r.find? id).isSome

/-- The identifiers, in order. -/
def ids (r : Registry) : List String := r.entries.map Prod.fst

/-- The components in the order of their identifiers. -/
def components (r : Registry) : List Component := r.entries.map Prod.snd

/-- The number of components. -/
def size (r : Registry) : Nat := r.entries.length

/-- Whether there is no component. -/
def isEmpty (r : Registry) : Bool := r.entries.isEmpty

/-- What is told when a component takes the place of another one. -/
def replacedLog (r : Registry) (c : Component) : List Record :=
  match r.find? c.id with
  | some old => [⟨.debug, "Component " ++ old.id ++ " from " ++ old.path ++ " was replaced"⟩]
  | none => []

/-- An inserted component is found under its own identifier, any other one as before. -/
theorem find?_insert (r : Registry) (c : Component) (id : String) :
    (r.insert c).find? id = if c.id = id then some c else r.find? id :=
  getSorted?_putSorted c.id id c r.entries

end Registry

end ComponentStories
