import ComponentStories.Proofs.Argument.Literal
import ComponentStories.Proofs.Component.Defaults
import ComponentStories.Proofs.Definition.Blank

/-
# The literal of a default is read back

The literal of a default is the text of a value.  A collection shows its default as it is; every
other input shows a text, which is the default, the text of the default, or a placeholder
(`Definition.Shows`).  Without numbers that have a fraction the literal of an argument is read back
as the value that it shows (`Component.read?_defaultLiteral`).
-/

namespace ComponentStories

namespace Json

theorem isIntegral_text (s : String) : (text s).IsIntegral := fun n hn => by
  simp [numbers] at hn

theorem isIntegral_noItems : (array []).IsIntegral := fun n hn => by
  simp [numbers, itemNumbers] at hn

/-- The text of a value that is no text is the one that is written. -/
theorem plainText_eq_compact {v : Json} (h : ∀ s, v ≠ text s) : v.plainText = v.compact := by
  cases v with
  | text s => exact absurd rfl (h s)
  | null => rfl
  | bool b => rfl
  | number n => rfl
  | array items => rfl
  | object fields => rfl

end Json

namespace Definition

variable {d : Definition}

/-! ## What a default shows -/

/-- The input is a list or an object. -/
def IsCollection (d : Definition) : Prop :=
  d.representative? = some .array ∨ d.representative? = some .object

/-- The type decides which inputs are collections. -/
theorem isCollection_iff :
    d.IsCollection ↔ d.representative?.any TypeTag.isCollection = true := by
  rw [IsCollection]
  cases d.representative? with
  | none => simp
  | some t => cases t <;> simp [TypeTag.isCollection]

/-- The value that the literal of the default is the text of. -/
inductive Shows (d : Definition) : Json → Prop
  /-- The default of a collection. -/
  | collection {v : Json} (type : d.IsCollection) (declared : d.default = some v)
      (used : ¬ v.Blank) : Shows d v
  /-- The empty list for a collection without a default that is of use. -/
  | noItems (type : d.IsCollection) (unused : ∀ v, d.default = some v → v.Blank) :
      Shows d (.array [])
  /-- The default of any other input, if it is a text. -/
  | text {s : String} (type : ¬ d.IsCollection) (declared : d.default = some (.text s))
      (used : ¬ (Json.text s).Blank) : Shows d (.text s)
  /-- A text that is read as the default of any other input, if this is no text. -/
  | written {v : Json} {s : String} (type : ¬ d.IsCollection) (declared : d.default = some v)
      (used : ¬ v.Blank) (other : ∀ t, v ≠ .text t) (reads : Json.read? s.toList = some v) :
      Shows d (.text s)
  /-- A placeholder for any other input without a default that is of use. -/
  | placeholder (type : ¬ d.IsCollection) (unused : ∀ v, d.default = some v → v.Blank) :
      Shows d (.text "placeholder")

/-- The value of a literal is in order. -/
theorem isOrdered_literalValue (h : d.Tidy) :
    (literalValue d.representative? d.usedDefault?).IsOrdered := by
  rw [literalValue]
  split
  · cases hused : d.usedDefault? with
    | none => exact .array fun _ hv => absurd hv List.not_mem_nil
    | some v => exact h v (usedDefault?_eq_some_iff.mp hused).1
  · exact .text _

/-- The value of a literal has only integers if the default has. -/
theorem isIntegral_literalValue (h : ∀ v ∈ d.default, v.IsIntegral) :
    (literalValue d.representative? d.usedDefault?).IsIntegral := by
  rw [literalValue]
  split
  · cases hused : d.usedDefault? with
    | none => exact Json.isIntegral_noItems
    | some v => exact h v (usedDefault?_eq_some_iff.mp hused).1
  · exact Json.isIntegral_text _

/-- The value of a literal is the one that the default shows. -/
theorem shows_literalValue (h : d.Tidy) (hintegral : ∀ v ∈ d.default, v.IsIntegral) :
    d.Shows (literalValue d.representative? d.usedDefault?) := by
  rw [literalValue]
  by_cases htype : d.IsCollection
  · rw [if_pos (isCollection_iff.mp htype)]
    cases hused : d.usedDefault? with
    | none => exact .noItems htype (usedDefault?_eq_none_iff.mp hused)
    | some v =>
      obtain ⟨hv, hblank⟩ := usedDefault?_eq_some_iff.mp hused
      exact .collection htype hv hblank
  · rw [if_neg fun hcollection => htype (isCollection_iff.mpr hcollection)]
    cases hused : d.usedDefault? with
    | none => exact .placeholder htype (usedDefault?_eq_none_iff.mp hused)
    | some v =>
      obtain ⟨hv, hblank⟩ := usedDefault?_eq_some_iff.mp hused
      by_cases htext : ∃ s, v = .text s
      · obtain ⟨s, rfl⟩ := htext
        exact .text htype hv hblank
      · have hother : ∀ s, v ≠ .text s := fun s hs => htext ⟨s, hs⟩
        -- the text that is quoted is itself the text of the default
        refine .written htype hv hblank hother ?_
        rw [Option.map_some, Option.getD_some, Json.plainText_eq_compact hother, Json.compact,
          String.toList_ofList]
        exact (h v hv).read?_chars (hintegral v hv)

end Definition

namespace Component

/-! ## Arguments -/

theorem mem_arguments_of_definition? {c : Component} {name : String} {d : Definition}
    (h : c.definition? name = some d) :
    Argument.ofDefinition name d (c.isRequired name) ∈ c.arguments := by
  rw [← get?_inputs] at h
  exact List.mem_map.mpr ⟨(name, d), Ordered.get?_eq_some_iff.mp h, rfl⟩

/-- **The literal of a default is read back.**  An input whose default has no number with a fraction
has an argument, and the literal of the argument is the text of a value that the default shows: the
default of a collection as it is, and otherwise a text.  The default is in order, as is every one
that is read (`tidy_of_ofSource?`). -/
theorem read?_defaultLiteral {c : Component} {name : String} {d : Definition}
    (hd : c.definition? name = some d) (hordered : d.Tidy)
    (hintegral : ∀ v ∈ d.default, v.IsIntegral) :
    (∃ a ∈ c.arguments, a.name = name) ∧
      ∀ a ∈ c.arguments, a.name = name →
        ∃ v, Json.read? a.defaultLiteral.toList = some v ∧ d.Shows v := by
  refine ⟨⟨_, mem_arguments_of_definition? hd, rfl⟩, ?_⟩
  rintro a ha rfl
  obtain ⟨x, hx, heq⟩ := argument_eq ha
  obtain rfl := Option.some.inj (hd.symm.trans hx)
  refine ⟨_, ?_, Definition.shows_literalValue hordered hintegral⟩
  have hliteral : a.defaultLiteral = defaultLiteral d.representative? d.usedDefault? :=
    congrArg Argument.defaultLiteral heq
  rw [hliteral, toList_defaultLiteral]
  exact (Definition.isOrdered_literalValue hordered).read?_chars
    (Definition.isIntegral_literalValue hintegral)

/-- A source that declares an object with nested values and a quote as the default of a text. -/
def nestedSource : String :=
  "props:\n properties:\n  label:\n   type: string\n" ++
    "   default: \x7bb: ['\"', -7], a: \x7bk: ~\x7d\x7d\n"

/-- The text of the object between quotes, with its quotes and its backslash escaped. -/
def nestedLiteral : String :=
  "\"\x7b\\\"a\\\":\x7b\\\"k\\\":null\x7d,\\\"b\\\":[\\\"\\\\\\\"\\\",-7]\x7d\""

/-- The argument of the nested default has this literal, and it is read back. -/
theorem read?_defaultLiteral_nestedSource :
    ∃ c d, ofSource? nestedSource "p:card" "card" "p" = some c ∧
      c.definition? "label" = some d ∧ d.Tidy ∧ (∀ v ∈ d.default, v.IsIntegral) ∧
      c.arguments.map Argument.defaultLiteral = [nestedLiteral] ∧
      ∃ a ∈ c.arguments, a.name = "label" ∧
        ∃ v, Json.read? a.defaultLiteral.toList = some v ∧ d.Shows v := by
  have hread : (ofSource? nestedSource "p:card" "card" "p").map (fun c =>
        (c.arguments.map Argument.defaultLiteral,
          (c.definition? "label").map fun d => (d.default.map Json.numbers).getD [])) =
      some ([nestedLiteral], some [.integer ⟨-7, by decide⟩]) := by
    decide +kernel
  obtain ⟨c, hc, heq⟩ := Option.map_eq_some_iff.mp hread
  obtain ⟨hliterals, hdefinition⟩ := Prod.mk.inj heq
  obtain ⟨d, hd, hnumbers⟩ := Option.map_eq_some_iff.mp hdefinition
  have hordered : d.Tidy := tidy_of_ofSource? hc hd
  have hintegral : ∀ v ∈ d.default, v.IsIntegral := by
    intro v hv n hn
    rw [hv, Option.map_some, Option.getD_some] at hnumbers
    rw [hnumbers, List.mem_singleton] at hn
    exact ⟨_, hn⟩
  obtain ⟨⟨a, ha, hname⟩, hreads⟩ := read?_defaultLiteral hd hordered hintegral
  exact ⟨c, d, hc, hd, hordered, hintegral, hliterals, a, ha, hname, hreads a ha hname⟩

end Component

end ComponentStories
