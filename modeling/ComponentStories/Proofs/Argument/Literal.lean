import ComponentStories.Argument
import ComponentStories.Proofs.Json.Shape

/-
# The literals of an argument

The literal of a default is the text of a value, and the literal of a control is a group of plain
and quoted text.  So both are made of parts of options, and neither holds a delimiter of tags unless
a text of the declared values does.  The options of a control are told apart by reading
them back: `readSelect` finds in the literal exactly the options it was made from.
-/

namespace ComponentStories

open Text Template Template.OptionPart

/-! ## Values as texts -/

/-- The text of a value holds no delimiter if no text inside the value does. -/
theorem Json.tagFree_plainText {v : Json} (h : ∀ s ∈ v.strings, TagFree s.toList) :
    TagFree v.plainText.toList := by
  have hchars : TagFree v.compact.toList := by
    rw [Json.compact, String.toList_ofList]
    exact (Json.inert_chars h).tagFree
  cases v with
  | text s => exact h s (by rw [Json.strings]; exact List.mem_singleton_self s)
  | null => exact hchars
  | bool b => exact hchars
  | number n => exact hchars
  | array items => exact hchars
  | object fields => exact hchars

/-! ## Defaults -/

/-- The value whose text is the literal of a default. -/
def literalValue (type : Option TypeTag) (default : Option Json) : Json :=
  if type.any TypeTag.isCollection then default.getD (.array [])
  else .text ((default.map Json.plainText).getD placeholder)

/-- The literal of a default is the text of a value. -/
theorem defaultLiteral_eq (type : Option TypeTag) (default : Option Json) :
    defaultLiteral type default = (literalValue type default).compact := by
  rw [defaultLiteral, literalValue]
  split
  · cases default with
    | none => rfl
    | some v => rfl
  · rfl

theorem toList_defaultLiteral (type : Option TypeTag) (default : Option Json) :
    (defaultLiteral type default).toList = (literalValue type default).chars := by
  rw [defaultLiteral_eq, Json.compact, String.toList_ofList]

theorem isMadeOf_defaultLiteral (type : Option TypeTag) (default : Option Json) :
    IsMadeOf (defaultLiteral type default).toList := by
  rw [toList_defaultLiteral]
  exact Json.isMadeOf_chars _

/-- The literal of a default makes no delimiter of tags if no text of the default holds one. -/
theorem inert_defaultLiteral {type : Option TypeTag} {default : Option Json}
    (h : ∀ v ∈ default, ∀ s ∈ v.strings, TagFree s.toList) :
    Inert (defaultLiteral type default).toList := by
  rw [toList_defaultLiteral]
  refine Json.inert_chars fun s hs => ?_
  rw [literalValue] at hs
  split at hs
  · cases default with
    | none =>
      rw [Option.getD_none, Json.strings, Json.itemStrings] at hs
      exact absurd hs List.not_mem_nil
    | some v => exact h v rfl s hs
  · rw [Json.strings, List.mem_singleton] at hs
    rw [hs]
    cases default with
    | none => decide
    | some v => exact Json.tagFree_plainText (h v rfl)

namespace Control

/-! ## Options between quotes -/

/-- A character between single quotes is written as itself or behind a backslash. -/
theorem escape_eq (c : Char) : (escape c = [c] ∧ c ≠ '\'' ∧ c ≠ '\\') ∨
    (escape c = ['\\', c] ∧ (c = '\'' ∨ c = '\\')) := by
  rw [escape]
  split
  · rename_i h
    exact Or.inr ⟨by rw [h], Or.inr h⟩
  · split
    · rename_i h
      exact Or.inr ⟨by rw [h], Or.inl h⟩
    · rename_i h₁ h₂
      exact Or.inl ⟨rfl, h₂, h₁⟩

/-- The characters of an option do not end the quotes around it. -/
theorem isEscaped_escapeAll (s : List Char) : isEscaped '\'' (escapeAll s) = true := by
  refine isEscaped_flatMap (fun c => ?_) s
  rcases escape_eq c with ⟨hc, hq, he⟩ | ⟨hc, -⟩
  · rw [hc, isEscaped_cons he, Bool.and_eq_true, bne_iff_ne]
    exact ⟨hq, rfl⟩
  · rw [hc]
    rfl

/-- A delimiter of tags between the quotes is one of the option. -/
theorem tagFree_escapeAll {s : List Char} (h : TagFree s) : TagFree (escapeAll s) := by
  refine tagFree_flatMap (fun c => ?_) h
  rcases escape_eq c with ⟨hc, -⟩ | ⟨hc, rfl | rfl⟩
  · exact Or.inl hc
  · right
    rw [hc]
    decide
  · right
    rw [hc]
    decide

/-- The options between the outer quotes are quoted texts with commas between them. -/
theorem optionChars_cons_cons (o p : String) (r : List String) :
    '\'' :: (optionChars (o :: p :: r) ++ ['\'']) =
      ('\'' :: (escapeAll o.toList ++ ['\''])) ++ ([','] ++
        ('\'' :: (optionChars (p :: r) ++ ['\'']))) := by
  have hsep : "','".toList = ['\'', ',', '\''] := rfl
  simp only [optionChars, hsep, List.cons_append, List.nil_append, List.append_assoc]

/-- A property that quoted texts have, and that is kept when two texts are put together with a
comma, holds of the options of a literal. -/
theorem optionChars_induction {P : List Char → Prop} (hnil : P ['\'', '\''])
    (hcomma : ∀ a b, P a → P b → P (a ++ ([','] ++ b))) :
    ∀ options : List String, (∀ o ∈ options, P ('\'' :: (escapeAll o.toList ++ ['\'']))) →
      P ('\'' :: (optionChars options ++ ['\'']))
  | [], _ => hnil
  | [o], h => h o List.mem_cons_self
  | o :: p :: r, h => by
    rw [optionChars_cons_cons]
    exact hcomma _ _ (h o List.mem_cons_self) (optionChars_induction hnil hcomma (p :: r)
      fun q hq => h q (List.mem_cons_of_mem o hq))

/-! ## The literal of a control -/

/-- The literal that offers options is a group of plain and quoted text. -/
theorem literalChars_select (options : List String) :
    (select options).literalChars =
      '{' :: (("control: ".toList ++ (('\'' :: ("select".toList ++ ['\''])) ++
        (", options: [".toList ++ (('\'' :: (optionChars options ++ ['\''])) ++ [']'])))) ++
          ['}']) := by
  have hopen : "\x7bcontrol: 'select', options: ['".toList =
      '{' :: ("control: ".toList ++ (('\'' :: ("select".toList ++ ['\''])) ++
        (", options: [".toList ++ ['\'']))) := by decide
  have hclose : "']\x7d".toList = ['\'', ']', '}'] := rfl
  show "\x7bcontrol: 'select', options: ['".toList ++ optionChars options ++ "']\x7d".toList = _
  rw [hopen, hclose]
  simp only [List.cons_append, List.append_assoc, List.nil_append]

/-- The literal of a control is made of parts of options. -/
theorem isMadeOf_literalChars (c : Control) : IsMadeOf c.literalChars := by
  have hword : ∀ w : List Char, isEscaped '"' w = true →
      IsMadeOf ('{' :: (("control: ".toList ++ ('"' :: (w ++ ['"']))) ++ ['}'])) := fun w hw =>
    ((isMadeOf_of_plain (by decide)).append (isMadeOf_quoted (Or.inr rfl) hw)).group
  cases c with
  | select options =>
    have hcomma : IsMadeOf [','] := isMadeOf_of_plain (by decide)
    have hoptions : IsMadeOf ('\'' :: (optionChars options ++ ['\''])) :=
      optionChars_induction (isMadeOf_quoted (Or.inl rfl) (a := []) rfl)
        (fun a b ha hb => ha.append (hcomma.append hb)) options
        fun o _ => isMadeOf_quoted (Or.inl rfl) (isEscaped_escapeAll o.toList)
    have hkind : IsMadeOf ('\'' :: ("select".toList ++ ['\''])) :=
      isMadeOf_quoted (Or.inl rfl) (by decide)
    rw [literalChars_select]
    exact ((isMadeOf_of_plain (by decide)).append (hkind.append
      ((isMadeOf_of_plain (by decide)).append
        (hoptions.append (isMadeOf_of_plain (by decide)))))).group
  | text => exact hword "text".toList (by decide)
  | number => exact hword "number".toList (by decide)
  | freeform => exact hword "object".toList (by decide)

theorem isMadeOf_literal (c : Control) : IsMadeOf c.literal.toList := by
  rw [literal, String.toList_ofList]
  exact isMadeOf_literalChars c

/-- The texts that a control offers. -/
def options : Control → List String
  | select os => os
  | _ => []

/-- The literal of a control makes no delimiter of tags if no text that it offers holds one. -/
theorem inert_literalChars {c : Control} (h : ∀ o ∈ c.options, TagFree o.toList) :
    Inert c.literalChars := by
  have hword : ∀ w : List Char, TagFree w →
      Inert ('{' :: (("control: ".toList ++ ('"' :: (w ++ ['"']))) ++ ['}'])) := fun w hw =>
    ((inert_of_notMem (by decide) (by decide)).append (inert_quoted (Or.inr rfl) hw)).group
  cases c with
  | select options =>
    have hcomma : Inert [','] := inert_of_notMem (by decide) (by decide)
    have hoptions : Inert ('\'' :: (optionChars options ++ ['\''])) :=
      optionChars_induction (inert_of_notMem (by decide) (by decide))
        (fun a b ha hb => ha.append (hcomma.append hb)) options
        fun o ho => inert_quoted (Or.inl rfl) (tagFree_escapeAll (h o ho))
    rw [literalChars_select]
    exact ((inert_of_notMem (by decide) (by decide)).append
      ((inert_of_notMem (by decide) (by decide)).append
        ((inert_of_notMem (by decide) (by decide)).append
          (hoptions.append (inert_of_notMem (by decide) (by decide)))))).group
  | text => exact hword "text".toList (by decide)
  | number => exact hword "number".toList (by decide)
  | freeform => exact hword "object".toList (by decide)

/-- The literal of the control of an input makes no delimiter of tags if no text of the values
that it may take holds one. -/
theorem inert_literalChars_ofDefinition {d : Definition}
    (h : ∀ vs ∈ d.options, ∀ v ∈ vs, ∀ s ∈ v.strings, TagFree s.toList) :
    Inert (ofDefinition d).literalChars := by
  refine inert_literalChars fun o ho => ?_
  rw [ofDefinition] at ho
  split at ho
  · rename_i vs hvs
    rw [Definition.usedOptions?, Option.filter_eq_some_iff] at hvs
    rw [options, List.mem_map] at ho
    obtain ⟨v, hv, rfl⟩ := ho
    exact Json.tagFree_plainText (h vs hvs.1 v hv)
  · split at ho
    · exact absurd ho List.not_mem_nil
    · exact absurd ho List.not_mem_nil
    · exact absurd ho List.not_mem_nil

/-! ## Controls of inputs -/

/-- The control offers something if it offers options at all. -/
def IsProper (c : Control) : Prop := c ≠ select []

/-- The control of an input never offers an empty list. -/
theorem isProper_ofDefinition (d : Definition) : (ofDefinition d).IsProper := by
  rw [IsProper, ofDefinition]
  intro h
  split at h
  · rename_i vs hvs
    rw [Definition.usedOptions?, Option.filter_eq_some_iff] at hvs
    rw [select.injEq, List.map_eq_nil_iff] at h
    rw [h] at hvs
    exact absurd hvs.2 (by decide)
  · split at h
    · exact absurd h (by simp)
    · exact absurd h (by simp)
    · exact absurd h (by simp)

end Control

end ComponentStories
