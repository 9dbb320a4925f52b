import ComponentStories.Document
import ComponentStories.Proofs.Argument.Literal
import ComponentStories.Proofs.Template.TopLevel

/-
# The blocks of a document

A block of a document is made of entries with separators between them, and an entry is a name and a
literal.  The literals of compiled arguments are made of parts of options, whatever stands in their
defaults and in their values to pick from.  So if the names have no quotes and no braces, the block
is made of parts too, and between its braces it is one group, which a reader of options passes over
(`topLevel_block`).
-/

namespace ComponentStories

open Text Template Template.OptionState Template.OptionPart

/-! ## Compiled arguments -/

/-- The argument was made from an input. -/
def Argument.IsCompiled (a : Argument) : Prop :=
  ∃ name d required, Argument.ofDefinition name d required = a

theorem Component.isCompiled_of_mem_arguments {c : Component} {a : Argument}
    (h : a ∈ c.arguments) : a.IsCompiled := by
  obtain ⟨e, -, rfl⟩ := List.mem_map.mp h
  exact ⟨e.1, e.2, c.isRequired e.1, rfl⟩

theorem Argument.IsCompiled.isMadeOf_defaultLiteral {a : Argument} (h : a.IsCompiled) :
    IsMadeOf a.defaultLiteral.toList := by
  obtain ⟨name, d, required, rfl⟩ := h
  exact ComponentStories.isMadeOf_defaultLiteral _ _

namespace StoryDocument

/-! ## Entries -/

/-- What two texts in a row keep, and what plain text has, holds of a block of entries with plain
names if it holds of their literals. -/
theorem entries_induction {P : List Char → Prop} (happend : ∀ a b, P a → P b → P (a ++ b))
    (hplain : ∀ a : List Char, (∀ c ∈ a, isPlain c = true) → P a) {sep : List Char}
    (hsep : ∀ c ∈ sep, isPlain c = true) {es : List (String × String)}
    (hnames : ∀ e ∈ es, ∀ c ∈ e.1.toList, isPlain c = true) (h : ∀ e ∈ es, P e.2.toList) :
    P (join sep (es.map entryText)) := by
  refine join_induction (hplain [] (by simp)) happend (hplain sep hsep) _ fun t ht => ?_
  obtain ⟨e, he, rfl⟩ := List.mem_map.mp ht
  have hcolon : P ": ".toList := hplain _ (by decide)
  exact happend _ _ (happend _ _ (hplain _ (hnames e he)) hcolon) (h e he)

/-! ## Blocks -/

variable {args : List Argument} {sep : List Char}

/-- A reader of options passes over a block whose literals are made of parts of options. -/
theorem topLevel_entries (hnames : ∀ a ∈ args, ∀ c ∈ a.name.toList, isPlain c = true)
    (hsep : ∀ c ∈ sep, isPlain c = true) {literal : Argument → String}
    (h : ∀ a ∈ args, IsMadeOf (literal a).toList) (rest : List Char) :
    topLevel ('{' :: (join sep (args.map fun a => entryText (a.name, literal a)) ++ '}' :: rest)) =
      topLevel rest := by
  have hentries : IsMadeOf (join sep ((args.map fun a => (a.name, literal a)).map entryText)) := by
    refine entries_induction (fun _ _ => IsMadeOf.append) (fun _ => isMadeOf_of_plain) hsep ?_ ?_
    · intro e he
      obtain ⟨a, ha, rfl⟩ := List.mem_map.mp he
      exact hnames a ha
    · intro e he
      obtain ⟨a, ha, rfl⟩ := List.mem_map.mp he
      exact h a ha
  rw [List.map_map] at hentries
  exact read_group hentries.erased 0 rest

/-- **A reader of options passes over the blocks of compiled arguments.**  The arguments may
have any defaults and any values to pick from; only their names and the separator have no quotes
and no braces.  The block of the defaults between its braces leaves no trace in front of any
text, and neither does the block of the controls; for at any depth a reader comes out of every
literal where it went in. -/
theorem topLevel_block (hargs : ∀ a ∈ args, a.IsCompiled)
    (hnames : ∀ a ∈ args, ∀ c ∈ a.name.toList, isPlain c = true)
    (hsep : ∀ c ∈ sep, isPlain c = true) :
    ∀ literal ∈ [Argument.defaultLiteral, fun a => a.control.literal],
      (∀ rest, topLevel ('{' ::
          (join sep (args.map fun a => entryText (a.name, literal a)) ++ '}' :: rest)) =
        topLevel rest) ∧
      ∀ a ∈ args, ∀ depth,
        after ⟨depth, none, false⟩ (literal a).toList = some ⟨depth, none, false⟩ := by
  intro literal hliteral
  have hmade : ∀ a ∈ args, IsMadeOf (literal a).toList := by
    intro a ha
    simp only [List.mem_cons, List.not_mem_nil, or_false] at hliteral
    rcases hliteral with rfl | rfl
    · exact (hargs a ha).isMadeOf_defaultLiteral
    · exact a.control.isMadeOf_literal
  exact ⟨topLevel_entries hnames hsep hmade, fun a ha depth => (hmade a ha).returns depth⟩

/-- A list whose text holds a quote, a backslash and a brace, and a text with
such values to pick from. -/
def quotingArguments : List Argument :=
  [Argument.ofDefinition "items" { Definition.blank with
      type := some (.single .array),
      default := some (.array [.object [("\x7d", .text "\\\"\x7d")]]) } false,
    Argument.ofDefinition "it" { Definition.blank with
      options := some [.text "'\x7d", .text "\\", .array [.text "\x7b"]],
      default := some (.text "it's \x7d") } true]

/-- In front of a name and the brace that closes the options neither block leaves a trace. -/
theorem topLevel_block_quotingArguments :
    quotingArguments.map Argument.defaultLiteral =
      ["[\x7b\"\x7d\":\"\\\\\\\"\x7d\"\x7d]", "\"it's \x7d\""] ∧
    quotingArguments.map (fun a => a.control.literal) =
      ["\x7bcontrol: \"object\"\x7d",
        "\x7bcontrol: 'select', options: ['\\'\x7d','\\\\','[\"\x7b\"]']\x7d"] ∧
    (∀ literal ∈ [Argument.defaultLiteral, fun a => a.control.literal],
      topLevel ('{' :: (join (separator 12)
        (quotingArguments.map fun a => entryText (a.name, literal a)) ++ '}' :: ", n\x7d".toList)) =
      ", n".toList) := by
  refine ⟨by decide +kernel, by decide +kernel, fun literal hliteral => ?_⟩
  have hargs : ∀ a ∈ quotingArguments, a.IsCompiled := by
    intro a ha
    simp only [quotingArguments, List.mem_cons, List.not_mem_nil, or_false] at ha
    rcases ha with rfl | rfl
    · exact ⟨_, _, _, rfl⟩
    · exact ⟨_, _, _, rfl⟩
  exact ((topLevel_block hargs (by decide) (by decide) literal hliteral).1 _).trans (by decide)

end StoryDocument

end ComponentStories
