import ComponentStories.Proofs.Argument.Order
import ComponentStories.Proofs.Definition.Blank

/-
# Definitions without blanks

What is blank counts as absent.  A definition has a normal form, in which nothing blank is declared
and no list of types (`Definition.plain_normal`).  A component whose definitions are replaced by
their normal forms has the same arguments and the same document (`Component.arguments_normal_eq`),
since nothing in them is made from what the normal form leaves out.
-/

namespace ComponentStories

/-! ## The normal form of a definition -/

/-- A declared type as a single one: a list counts as its first type, or as none if it is empty. -/
def TypeSpec.normal? : TypeSpec → Option TypeSpec
  | single tag => some (single tag)
  | list (tag :: _) => some (single tag)
  | list [] => none

namespace Definition

/-- The definition without what is blank in it. -/
def normal (d : Definition) : Definition where
  type := d.type.bind TypeSpec.normal?
  title := d.title.filter (· ≠ "")
  description := d.description.filter (· ≠ "")
  options := d.options.filter fun values => !values.isEmpty
  default := d.default.filter (¬ Json.Blank ·)
  isSlot := d.isSlot

/-- A definition that declares nothing blank and no list of types. -/
structure Plain (d : Definition) : Prop where
  /-- There is no list of types. -/
  type : ∀ tags, d.type ≠ some (.list tags)
  /-- The title is not empty. -/
  title : d.title ≠ some ""
  /-- The description is not empty. -/
  description : d.description ≠ some ""
  /-- If there are values that the input may take, there is one. -/
  options : d.options ≠ some []
  /-- The default is not blank. -/
  default : ∀ v, d.default = some v → ¬ v.Blank

/-- **Nothing blank is left in a normal form.** -/
theorem plain_normal (d : Definition) : d.normal.Plain where
  type tags h := by
    obtain ⟨spec, -, hspec⟩ := Option.bind_eq_some_iff.mp h
    cases spec with
    | single tag => exact absurd hspec (by simp [TypeSpec.normal?])
    | list tags => cases tags <;> exact absurd hspec (by simp [TypeSpec.normal?])
  title h := absurd (Option.filter_eq_some_iff.mp h).2 (by decide)
  description h := absurd (Option.filter_eq_some_iff.mp h).2 (by decide)
  options h := absurd (Option.filter_eq_some_iff.mp h).2 Bool.false_ne_true
  default _ h := of_decide_eq_true (Option.filter_eq_some_iff.mp h).2

/-! ## What is used of a normal form -/

/-- What was left out once is left out when the same is left out again. -/
theorem filter_filter_self {α : Type} (p : α → Bool) (o : Option α) :
    (o.filter p).filter p = o.filter p := by
  rw [Option.filter_filter]
  simp only [Bool.and_self]

variable (d : Definition)

@[simp] theorem representative?_normal : d.normal.representative? = d.representative? := by
  rw [representative?, representative?, normal, Option.bind_assoc]
  congr 1
  funext spec
  cases spec with
  | single tag => rfl
  | list tags => cases tags <;> rfl

@[simp] theorem usedTitle?_normal : d.normal.usedTitle? = d.usedTitle? :=
  filter_filter_self _ d.title

@[simp] theorem usedDescription?_normal : d.normal.usedDescription? = d.usedDescription? :=
  filter_filter_self _ d.description

@[simp] theorem usedOptions?_normal : d.normal.usedOptions? = d.usedOptions? :=
  filter_filter_self _ d.options

@[simp] theorem usedDefault?_normal : d.normal.usedDefault? = d.usedDefault? := by
  ext v
  have hdefault : d.normal.default = some v ↔ d.default = some v ∧ ¬ v.Blank := by
    rw [normal, Option.filter_eq_some_iff, decide_eq_true_iff]
  rw [usedDefault?_eq_some_iff, usedDefault?_eq_some_iff, hdefault, and_assoc, and_self]

end Definition

/-- **The argument of an input is made from the normal form of its definition.** -/
theorem Argument.ofDefinition_normal (name : String) (d : Definition) (required : Bool) :
    ofDefinition name d.normal required = ofDefinition name d required := by
  have hcontrol : Control.ofDefinition d.normal = Control.ofDefinition d := by
    rw [Control.ofDefinition, Control.ofDefinition, d.usedOptions?_normal, d.representative?_normal]
  have hslot : d.normal.isSlot = d.isSlot := rfl
  simp only [ofDefinition, hcontrol, hslot, Definition.representative?_normal,
    Definition.usedTitle?_normal, Definition.usedDescription?_normal,
    Definition.usedDefault?_normal]

/-! ## Components -/

namespace Ordered

variable {α β : Type}

/-- Putting an image is the image of putting. -/
theorem putEntry_map (f : α → β) (name : String) (value : α) (l : List (String × α)) :
    putEntry name (f value) (l.map fun e => (e.1, f e.2)) =
      (putEntry name value l).map fun e => (e.1, f e.2) := by
  induction l with
  | nil => rfl
  | cons e l ih =>
    obtain ⟨n, v⟩ := e
    by_cases h : n = name
    · simp [putEntry, h]
    · simp [putEntry, h, ih]

/-- Inserting the images of a list into the image of a map gives the image
of the map with the list. -/
theorem insertAll_map (f : α → β) (m : Ordered α) (l : List (String × α)) :
    (m.map f).insertAll (l.map fun e => (e.1, f e.2)) = (m.insertAll l).map f := by
  induction l generalizing m with
  | nil => rfl
  | cons e l ih =>
    have hinsert : (m.map f).insert e.1 (f e.2) = (m.insert e.1 e.2).map f :=
      ext (putEntry_map f e.1 e.2 m.entries)
    rw [List.map_cons, insertAll_cons, insertAll_cons, hinsert, ih]

end Ordered

namespace Component

/-- The component with the normal forms of its definitions. -/
def normal (c : Component) : Component :=
  { c with
    properties := c.properties.map Definition.normal
    slots := c.slots.map Definition.normal }

/-- The inputs are the normal forms of the inputs. -/
theorem inputs_normal (c : Component) : c.normal.inputs = c.inputs.map Definition.normal :=
  Ordered.insertAll_map Definition.normal c.properties c.slots.entries

theorem arguments_normal (c : Component) : c.normal.arguments = c.arguments := by
  rw [arguments, arguments, inputs_normal, Ordered.map, List.map_map]
  apply List.map_congr_left
  intro e _
  exact Argument.ofDefinition_normal e.1 e.2 (c.isRequired e.1)

/-- **What is blank counts as absent throughout.**  In the normal form of a component no definition
declares anything blank or a list of types, and the same props and slots are declared in the same
order.  It has the same arguments and, whatever the settings are, the same text of its document, or
none if the component has none. -/
theorem arguments_normal_eq (c : Component) :
    (∀ e ∈ c.normal.properties.entries ++ c.normal.slots.entries, e.2.Plain) ∧
    c.normal.properties.names = c.properties.names ∧
    c.normal.slots.names = c.slots.names ∧
    c.normal.arguments = c.arguments ∧
    ∀ settings, (c.normal.document? settings).map StoryDocument.render =
      (c.document? settings).map StoryDocument.render := by
  refine ⟨fun e he => ?_, Ordered.names_map _ _, Ordered.names_map _ _, c.arguments_normal,
    fun settings => ?_⟩
  · rcases List.mem_append.mp he with he | he
    all_goals
      obtain ⟨f, -, rfl⟩ := List.mem_map.mp he
      exact f.2.plain_normal
  · rw [document?, document?, arguments_normal]
    rfl

end Component

end ComponentStories
