import ComponentStories.Proofs.Argument.Order
import ComponentStories.Proofs.Component.Source
import ComponentStories.Proofs.Document.Layout

/-
# The arguments of a document

The document of a component that is read from a source lists every input once, the props in order
and then the remaining slots, and tells of each what its slot says, or else its prop
(`arguments_of_ofSource?`).  In front of the defaults stands one more, named `title`, that no input
is asked about.  So the names of the defaults are all different, and the title is the document's
own, exactly if no input has that name (`nodup_defaults_iff`).
-/

namespace ComponentStories

namespace Component

variable {c : Component}

/-- What defines an input is found where the input is declared. -/
theorem definition?_eq (c : Component) (name : String) :
    c.definition? name =
      if name ∈ c.slots.names then c.slots.get? name else c.properties.get? name := by
  rw [definition?]
  split
  · rename_i h
    obtain ⟨x, hx⟩ := Option.isSome_iff_exists.mp (Ordered.isSome_get?_iff.mpr h)
    rw [hx, Option.some_or]
  · rename_i h
    have hnone : c.slots.get? name = none := by
      rw [← Option.not_isSome_iff_eq_none, Ordered.isSome_get?_iff]
      exact h
    rw [hnone, Option.none_or]

/-- What defines an input of a component that is read from a source is
marked exactly if it is a slot. -/
theorem isSlot_iff_of_ofSource? {source id machineName path : String}
    (h : ofSource? source id machineName path = some c) {name : String} {x : Definition}
    (hx : c.definition? name = some x) : x.isSlot = true ↔ name ∈ c.slots.names := by
  obtain ⟨hprops, hslots⟩ := isSlot_of_ofSource? h
  rw [definition?_eq] at hx
  split at hx
  · rename_i hname
    exact iff_of_true (hslots _ (Ordered.get?_eq_some_iff.mp hx)) hname
  · rename_i hname
    have hunmarked : x.isSlot = false := hprops _ (Ordered.get?_eq_some_iff.mp hx)
    exact iff_of_false (by rw [hunmarked]; decide) hname

end Component

namespace StoryDocument

variable {c : Component} {d : StoryDocument} {id : String} {settings : Settings}

/-! ## Names -/

theorem Describes.argsOrder_eq_names (h : Describes d id c settings) :
    d.argsOrder = c.inputs.names := by
  rw [h.argsOrder, Component.map_name_arguments]

theorem Describes.map_fst_argTypes (h : Describes d id c settings) :
    d.argTypes.map Prod.fst = d.argsOrder := by
  rw [h.argTypes, h.argsOrder, Component.controlEntries, List.map_map]
  rfl

theorem Describes.map_fst_defaults (h : Describes d id c settings) :
    d.defaults.map Prod.fst = "title" :: d.argsOrder := by
  rw [h.defaults, h.argsOrder, Component.defaultEntries, List.map_cons, List.map_map]
  rfl

theorem defaultEntries_eq (c : Component) : c.defaultEntries =
    (c.inputs.map fun x => defaultLiteral x.representative? x.usedDefault?).entries := by
  rw [Component.defaultEntries, Component.arguments, List.map_map]
  rfl

/-! ## Arguments -/

/-- **Arguments are complete, unique and ordered**: the document of a component that is read from
a source passes on the props that the source declares in order and then the slots that are no
props, and has a control and, behind that of the title, a default for each of them in this order.
An argument says what the slot of its name says, or else the prop; it belongs to the slots
exactly if it is one, and it is required exactly if the source says so.  There is no document
exactly if there are no inputs. -/
theorem arguments_of_ofSource? {source componentId machineName path : String} {c : Component}
    (h : Component.ofSource? source componentId machineName path = some c) (id : String)
    (settings : Settings) :
    c.properties.names = (Component.sourceKeys source ["props", "properties"]).eraseDups ∧
    c.slots.names = (Component.sourceKeys source ["slots"]).eraseDups ∧
    c.required = Component.sourceTexts source ["props", "required"] ∧
    (assemble? id c c.arguments settings = none ↔
      c.properties.isEmpty = true ∧ c.slots.isEmpty = true) ∧
    ∀ d, assemble? id c c.arguments settings = some d →
      d.argsOrder.Nodup ∧
      d.argsOrder = c.properties.names ++ c.slots.names.filter (· ∉ c.properties.names) ∧
      c.arguments.map Argument.name = d.argsOrder ∧
      d.defaults = ("title", quotedLiteral c.name) ::
        c.arguments.map (fun a => (a.name, a.defaultLiteral)) ∧
      d.argTypes = c.arguments.map (fun a => (a.name, a.control.literal)) ∧
      ∀ a ∈ c.arguments, ∃ x,
        (if a.name ∈ c.slots.names then c.slots.get? a.name
          else c.properties.get? a.name) = some x ∧
        a.defaultLiteral = defaultLiteral x.representative? x.usedDefault? ∧
        a.control = Control.ofDefinition x ∧
        a.title = x.usedTitle? ∧
        a.description = x.usedDescription? ∧
        (a.category = .slots ↔ a.name ∈ c.slots.names) ∧
        (a.required = true ↔ a.name ∈ c.required) := by
  obtain ⟨hproperties, hslots, hrequired⟩ := Component.names_of_ofSource? h
  refine ⟨hproperties, hslots, hrequired, assemble?_eq_none_iff id c settings, ?_⟩
  intro d hd
  obtain ⟨-, hdesc⟩ := describes_of_assemble? hd
  refine ⟨?_, ?_, hdesc.argsOrder.symm, hdesc.defaults, hdesc.argTypes, ?_⟩
  · rw [hdesc.argsOrder_eq_names]
    exact c.inputs.distinct
  · rw [hdesc.argsOrder_eq_names, Component.names_inputs]
  · intro a ha
    obtain ⟨x, hx, hax⟩ := Component.argument_eq ha
    have hcategory : a.category = .slots ↔ x.isSlot = true := by
      rw [hax]
      show (if x.isSlot then Category.slots else Category.props) = .slots ↔ _
      cases x.isSlot <;> decide
    have hneeded : a.required = c.isRequired a.name := congrArg Argument.required hax
    refine ⟨x, (Component.definition?_eq c a.name).symm.trans hx, ?_, ?_, ?_, ?_, ?_, ?_⟩
    · exact congrArg Argument.defaultLiteral hax
    · exact congrArg Argument.control hax
    · exact congrArg Argument.title hax
    · exact congrArg Argument.description hax
    · rw [hcategory]
      exact Component.isSlot_iff_of_ofSource? h hx
    · rw [hneeded, Component.isRequired, List.contains_iff_mem]

/-- A source that declares a slot with the name of a prop, and a slot that is required. -/
def sharedSource : String :=
  "props:\n properties: \x7bmedia: , head: \x7d\n required: [foot]\nslots: \x7bfoot: , media: \x7d"

/-- Its document lists the props and the other slot, and the slot takes the place of the prop. -/
theorem arguments_of_ofSource?_shared :
    ∃ c d, Component.ofSource? sharedSource "p:card" "card" "p" = some c ∧
      assemble? "p:card" c c.arguments Settings.standard = some d ∧
      d.argsOrder.Nodup ∧ d.argsOrder = ["media", "head", "foot"] ∧
      c.arguments.map Argument.name = d.argsOrder ∧
      ∀ a ∈ c.arguments, (a.category = .slots ↔ a.name ∈ ["foot", "media"]) ∧
        (a.required = true ↔ a.name ∈ ["foot"]) := by
  have hread : (Component.ofSource? sharedSource "p:card" "card" "p").isSome = true ∧
      (Component.sourceKeys sharedSource ["props", "properties"]).eraseDups = ["media", "head"] ∧
      (Component.sourceKeys sharedSource ["slots"]).eraseDups = ["foot", "media"] ∧
      Component.sourceTexts sharedSource ["props", "required"] = ["foot"] := by
    decide +kernel
  obtain ⟨c, hc⟩ := Option.isSome_iff_exists.mp hread.1
  obtain ⟨hp, hs, hr, hnone, hsome⟩ := arguments_of_ofSource? hc "p:card" Settings.standard
  rw [hread.2.1] at hp
  rw [hread.2.2.1] at hs
  rw [hread.2.2.2] at hr
  have hinputs : c.properties.isEmpty = false := by
    cases he : c.properties.entries with
    | nil => simp [Ordered.names, he] at hp
    | cons e es => simp [Ordered.isEmpty, he]
  cases hd : assemble? "p:card" c c.arguments Settings.standard with
  | none =>
    rw [hnone, hinputs] at hd
    exact absurd hd.1 Bool.false_ne_true
  | some d =>
    obtain ⟨hnodup, horder, hnames, -, -, harguments⟩ := hsome d hd
    refine ⟨c, d, hc, hd, hnodup, ?_, hnames, ?_⟩
    · rw [horder, hp, hs]
      decide
    · intro a ha
      obtain ⟨x, -, -, -, -, -, hcategory, hneeded⟩ := harguments a ha
      rw [hs] at hcategory
      rw [hr] at hneeded
      exact ⟨hcategory, hneeded⟩

/-! ## The title among the defaults -/

/-- **The names of the defaults are all different exactly if no input is named `title`.**  Such an
input is passed on and has a control, and whoever reads the defaults as named values finds its
default in the place of the name of the component. -/
theorem nodup_defaults_iff {c : Component} (hinputs : c.hasNoInputs = false) (id : String)
    (settings : Settings) :
    ∃ d, assemble? id c c.arguments settings = some d ∧
      ((d.defaults.map Prod.fst).Nodup ↔
        ¬ ("title" ∈ c.properties.names ∨ "title" ∈ c.slots.names)) ∧
      ("title" ∈ d.argsOrder ↔ "title" ∈ c.properties.names ∨ "title" ∈ c.slots.names) ∧
      ("title" ∈ d.argTypes.map Prod.fst ↔
        "title" ∈ c.properties.names ∨ "title" ∈ c.slots.names) ∧
      (Ordered.ofList d.defaults).get? "title" = some
        (match c.definition? "title" with
        | some x => defaultLiteral x.representative? x.usedDefault?
        | none => quotedLiteral c.name) := by
  obtain ⟨d, hd, hdesc⟩ := exists_describes hinputs id settings
  have horder : "title" ∈ d.argsOrder ↔
      "title" ∈ c.properties.names ∨ "title" ∈ c.slots.names := by
    rw [hdesc.argsOrder_eq_names, Component.mem_names_inputs]
  have hdistinct : d.argsOrder.Nodup := by
    rw [hdesc.argsOrder_eq_names]
    exact c.inputs.distinct
  refine ⟨d, hd, ?_, horder, ?_, ?_⟩
  · rw [hdesc.map_fst_defaults, List.nodup_cons, horder]
    exact and_iff_left hdistinct
  · rw [hdesc.map_fst_argTypes, horder]
  · rw [hdesc.defaults, defaultEntries_eq, Ordered.ofList, Ordered.insertAll_cons,
      Ordered.get?_insertAll_entries, Ordered.get?_map, Component.get?_inputs, Ordered.get?_insert,
      if_pos rfl]
    cases c.definition? "title" <;> rfl

/-- A component with the usual name for a prop. -/
def titled : Component :=
  ((Component.bare "ui:card" "Card" "card" "ui/card").withProperty "title"
    ⟨some (.single .string), none, none, none, some (.text "Hello"), false⟩).withProperty "label"
    ⟨some (.single .string), none, none, none, none, false⟩

/-- Its prop is told apart from the title of the document by nothing. -/
theorem nodup_defaults_iff_titled :
    titled.hasNoInputs = false ∧
    ∃ d, assemble? "ui:card" titled titled.arguments Settings.standard = some d ∧
      ¬ (d.defaults.map Prod.fst).Nodup ∧ "title" ∈ d.argsOrder ∧
      (Ordered.ofList d.defaults).get? "title" = some "\"Hello\"" := by
  have hinputs : titled.hasNoInputs = false := rfl
  obtain ⟨d, hd, hnodup, horder, -, htitle⟩ :=
    nodup_defaults_iff hinputs "ui:card" Settings.standard
  have hdeclared : "title" ∈ titled.properties.names ∨ "title" ∈ titled.slots.names :=
    Or.inl (by decide)
  refine ⟨hinputs, d, hd, ?_, horder.mpr hdeclared, ?_⟩
  · rw [hnodup]
    exact not_not_intro hdeclared
  · rw [htitle]
    decide

/-- **The document of a component may give two defaults the name `title`**, and then passes the name
on and has a control for it. -/
theorem not_nodup_defaults_titled :
    ∃ d, titled.document? Settings.standard = some d ∧ ¬ (d.defaults.map Prod.fst).Nodup ∧
      "title" ∈ d.argsOrder ∧ "title" ∈ d.argTypes.map Prod.fst ∧
      (Ordered.ofList d.defaults).get? "title" ≠ some (quotedLiteral titled.name) := by
  refine ⟨_, rfl, ?_, ?_, ?_, ?_⟩
  all_goals decide

end StoryDocument

end ComponentStories
