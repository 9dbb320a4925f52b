import ComponentStories.Json.Printer
import ComponentStories.Proofs.Template.Groups
import ComponentStories.Proofs.Text.Delimiter

/-
# What the text of a value is made of

The text of a value is put together from words, numbers, quoted texts, commas, colons and the
brackets of lists and objects.  A property of texts that these ways of putting together keep holds
of the text of every value whose quoted texts have it (`chars_induction`).  Three such properties
are shown: no line break stands in the text of a value, the text is made of parts of options, and a
delimiter of tags stands in it only if one stands in a text or a name inside the value.
-/

namespace ComponentStories

open Text Template Template.OptionState Template.OptionPart

/-! ## Quoted texts -/

namespace Quoted

/-- A hexadecimal digit is one of sixteen characters. -/
theorem hexDigit_mem (n : Nat) : hexDigit n ∈ "0123456789abcdef".toList := by
  rw [hexDigit, List.getD_eq_getElem?_getD]
  cases h : "0123456789abcdef".toList[n]? with
  | none => decide
  | some c => exact List.mem_of_getElem? h

/-- A character is written as itself or behind a backslash, by a letter and hexadecimal digits. -/
theorem escape_eq (c : Char) : (escape c = [c] ∧ c ≠ '"' ∧ c ≠ '\\' ∧ c ≠ '\n') ∨
    ∃ e u, escape c = '\\' :: e :: u ∧ e ∈ "\"\\bfnrtu".toList ∧
      ∀ x ∈ u, x ∈ "0123456789abcdef".toList := by
  by_cases h₁ : c = '"'
  · exact Or.inr ⟨'"', [], by rw [h₁]; rfl, by decide, by simp⟩
  by_cases h₂ : c = '\\'
  · exact Or.inr ⟨'\\', [], by rw [h₂]; rfl, by decide, by simp⟩
  by_cases h₃ : c = '\x08'
  · exact Or.inr ⟨'b', [], by rw [h₃]; rfl, by decide, by simp⟩
  by_cases h₄ : c = '\t'
  · exact Or.inr ⟨'t', [], by rw [h₄]; rfl, by decide, by simp⟩
  by_cases h₅ : c = '\n'
  · exact Or.inr ⟨'n', [], by rw [h₅]; rfl, by decide, by simp⟩
  by_cases h₆ : c = '\x0c'
  · exact Or.inr ⟨'f', [], by rw [h₆]; rfl, by decide, by simp⟩
  by_cases h₇ : c = '\r'
  · exact Or.inr ⟨'r', [], by rw [h₇]; rfl, by decide, by simp⟩
  by_cases h₈ : c.toNat < 0x20
  · refine Or.inr ⟨'u', ['0', '0', hexDigit (c.toNat / 16), hexDigit (c.toNat % 16)], ?_,
      by decide, ?_⟩
    · simp [escape, h₁, h₂, h₃, h₄, h₅, h₆, h₇, h₈]
    · intro x hx
      simp only [List.mem_cons, List.not_mem_nil, or_false] at hx
      rcases hx with rfl | rfl | rfl | rfl
      · decide
      · decide
      · exact hexDigit_mem _
      · exact hexDigit_mem _
  · exact Or.inl ⟨by simp [escape, h₁, h₂, h₃, h₄, h₅, h₆, h₇, h₈], h₁, h₂, h₅⟩

/-- The characters behind a backslash are a letter, a quote or hexadecimal digits. -/
theorem mem_escape {c e : Char} {u : List Char} (hc : escape c = '\\' :: e :: u)
    (he : e ∈ "\"\\bfnrtu".toList) (hu : ∀ x ∈ u, x ∈ "0123456789abcdef".toList) :
    ∀ x ∈ escape c, x ∈ "\"\\bfnrtu0123456789abcdef".toList := by
  have hsub : ∀ y ∈ "\"\\bfnrtu".toList ++ "0123456789abcdef".toList,
      y ∈ "\"\\bfnrtu0123456789abcdef".toList := by decide
  intro x hx
  rw [hc, List.mem_cons, List.mem_cons] at hx
  rcases hx with rfl | rfl | hx
  · decide
  · exact hsub x (List.mem_append_left _ he)
  · exact hsub x (List.mem_append_right _ (hu x hx))

/-- No line break stands in a quoted text. -/
theorem newline_notMem_encode (s : List Char) : '\n' ∉ encode s := by
  intro h
  simp only [encode, escapeAll, List.cons_append, List.mem_cons, List.mem_append, List.mem_flatMap,
    List.not_mem_nil, or_false] at h
  rcases h with h | ⟨c, -, h⟩ | h
  · exact absurd h (by decide)
  · -- a line break is not written as itself
    rcases escape_eq c with ⟨hc, -, -, hne⟩ | ⟨e, u, hc, he, hu⟩
    · rw [hc, List.mem_singleton] at h
      exact hne h.symm
    · exact absurd (mem_escape hc he hu _ h) (by decide)
  · exact absurd h (by decide)

/-- The characters between the quotes do not end them. -/
theorem isEscaped_escapeAll (s : List Char) : isEscaped '"' (escapeAll s) = true := by
  refine isEscaped_flatMap (fun c => ?_) s
  rcases escape_eq c with ⟨hc, hq, he, -⟩ | ⟨e, u, hc, -, hu⟩
  · rw [hc, isEscaped_cons he, Bool.and_eq_true, bne_iff_ne]
    exact ⟨hq, rfl⟩
  · rw [hc, isEscaped]
    refine isEscaped_of_notMem ?_ ?_
    · exact fun h => absurd (hu _ h) (by decide)
    · exact fun h => absurd (hu _ h) (by decide)

/-- A delimiter of tags between the quotes is one of the text. -/
theorem tagFree_escapeAll {s : List Char} (h : TagFree s) : TagFree (escapeAll s) := by
  refine tagFree_flatMap (fun c => ?_) h
  rcases escape_eq c with ⟨hc, -⟩ | ⟨e, u, hc, he, hu⟩
  · exact Or.inl hc
  · right
    have hother : ∀ x ∈ "\"\\bfnrtu0123456789abcdef".toList, x ≠ '{' ∧ x ≠ '%' ∧ x ≠ '}' := by
      decide
    constructor
    · rw [hc]
      exact List.cons_ne_nil _ _
    · intro x hx
      exact hother x (mem_escape hc he hu x hx)

end Quoted

/-! ## Numbers -/

namespace JsonNumber

/-- The characters of the text of a number. -/
def isNumeric (c : Char) : Bool := c.isDigit || c == '+' || c == '-' || c == '.' || c == 'e'

/-- Every character is one of numbers. -/
def AllNumeric (a : List Char) : Prop := ∀ c ∈ a, isNumeric c = true

instance (a : List Char) : Decidable (AllNumeric a) := inferInstanceAs (Decidable (∀ c ∈ a, _))

theorem AllNumeric.append {a b : List Char} (ha : AllNumeric a) (hb : AllNumeric b) :
    AllNumeric (a ++ b) := by
  intro c hc
  rcases List.mem_append.mp hc with hc | hc
  · exact ha c hc
  · exact hb c hc

theorem AllNumeric.cons {c : Char} {a : List Char} (hc : isNumeric c = true)
    (ha : AllNumeric a) : AllNumeric (c :: a) := by
  intro d hd
  rcases List.mem_cons.mp hd with rfl | hd
  · exact hc
  · exact ha d hd

theorem allNumeric_digits (n : Nat) : AllNumeric (digits n) := by
  intro c hc
  have hdigit : c.isDigit = true := Nat.isDigit_of_mem_toDigits (by decide) (by decide) hc
  rw [isNumeric, hdigit]
  rfl

/-- The magnitude of a double is written with the characters of numbers. -/
theorem allNumeric_magnitudeText (m : Nat) (k : Int) : AllNumeric (magnitudeText m k) := by
  have zeros : ∀ n, AllNumeric (List.replicate n '0') := by
    intro n c hc
    rw [List.eq_of_mem_replicate hc]
    decide
  have taken : ∀ n, AllNumeric ((digits m).take n) :=
    fun n c hc => allNumeric_digits m c (List.mem_of_mem_take hc)
  have dropped : ∀ n, AllNumeric ((digits m).drop n) :=
    fun n c hc => allNumeric_digits m c (List.mem_of_mem_drop hc)
  unfold magnitudeText
  dsimp only
  split
  · decide
  · split
    · -- without an exponent, with the point behind, inside or in front of the digits
      split
      · exact ((allNumeric_digits m).append (zeros _)).append (by decide)
      · split
        · exact (taken _).append ((dropped _).cons (by decide))
        · have hfront : AllNumeric ['0', '.'] := by decide
          exact (hfront.append (zeros _)).append (allNumeric_digits m)
    · -- with an exponent
      refine ((taken 1).append ?_).append (AllNumeric.cons (by decide) (AllNumeric.cons ?_ ?_))
      · split
        · decide
        · exact (dropped 1).cons (by decide)
      · split
        · decide
        · decide
      · exact allNumeric_digits _

/-- The text of a number is written with the characters of numbers. -/
theorem allNumeric_render (n : JsonNumber) : AllNumeric n.render := by
  cases n with
  | integer i =>
    rw [render, integerText]
    split
    · exact (allNumeric_digits _).cons (by decide)
    · exact allNumeric_digits _
  | double d =>
    simp only [render, doubleText]
    refine AllNumeric.append ?_ (allNumeric_magnitudeText _ _)
    split
    · decide
    · decide

theorem notMem_render {n : JsonNumber} {c : Char} (hc : isNumeric c = false) : c ∉ n.render :=
  notMem_of_forall (allNumeric_render n) hc

end JsonNumber

/-! ## Values -/

namespace Json

mutual

/-- The texts inside a value, the names of fields included. -/
def strings : Json → List String
  | null => []
  | bool _ => []
  | number _ => []
  | text s => [s]
  | array items => itemStrings items
  | object fields => fieldStrings fields

/-- The texts inside the items of a list. -/
def itemStrings : List Json → List String
  | [] => []
  | v :: r => strings v ++ itemStrings r

/-- The texts inside the fields of an object. -/
def fieldStrings : List (String × Json) → List String
  | [] => []
  | (n, v) :: r => n :: (strings v ++ fieldStrings r)

end

/-- A property of texts that is kept when the text of a value is put together from parts. -/
structure Compositional (P : List Char → Prop) : Prop where
  /-- The text without characters has it. -/
  nil : P []
  /-- The words have it. -/
  word : P "null".toList ∧ P "true".toList ∧ P "false".toList
  /-- The numbers have it. -/
  number : ∀ n : JsonNumber, P n.render
  /-- Two texts with a comma between them have it. -/
  comma : ∀ a b, P a → P b → P (a ++ ',' :: b)
  /-- Two texts with a colon between them have it. -/
  colon : ∀ a b, P a → P b → P (a ++ ':' :: b)
  /-- A text between brackets has it. -/
  list : ∀ a, P a → P ('[' :: a ++ [']'])
  /-- A text between braces has it. -/
  group : ∀ a, P a → P ('{' :: a ++ ['}'])

section

variable {P : List Char → Prop} (hP : Compositional P)
include hP

mutual

/-- **Induction over the text of a value**: what is kept by the ways of putting texts together holds
of the text of a value if it holds of the quoted texts inside. -/
theorem chars_induction : ∀ v : Json, (∀ s ∈ v.strings, P (Quoted.encode s.toList)) → P v.chars
  | null, _ => by
    rw [chars]
    exact hP.word.1
  | bool true, _ => by
    rw [chars]
    exact hP.word.2.1
  | bool false, _ => by
    rw [chars]
    exact hP.word.2.2
  | number n, _ => by
    rw [chars]
    exact hP.number n
  | text s, h => by
    rw [chars]
    exact h s (by rw [strings]; exact List.mem_singleton_self s)
  | array items, h => by
    rw [chars]
    exact hP.list _ (itemChars_induction items (by rw [strings] at h; exact h))
  | object fields, h => by
    rw [chars]
    exact hP.group _ (fieldChars_induction fields (by rw [strings] at h; exact h))

/-- The same for the items of a list. -/
theorem itemChars_induction : ∀ items : List Json,
    (∀ s ∈ itemStrings items, P (Quoted.encode s.toList)) → P (itemChars items)
  | [], _ => by
    rw [itemChars]
    exact hP.nil
  | [v], h => by
    rw [itemChars]
    exact chars_induction v fun s hs => h s (by rw [itemStrings]; exact List.mem_append_left _ hs)
  | v :: w :: r, h => by
    rw [itemStrings] at h
    rw [itemChars]
    exact hP.comma _ _ (chars_induction v fun s hs => h s (List.mem_append_left _ hs))
      (itemChars_induction (w :: r) fun s hs => h s (List.mem_append_right _ hs))

/-- The same for the fields of an object. -/
theorem fieldChars_induction : ∀ fields : List (String × Json),
    (∀ s ∈ fieldStrings fields, P (Quoted.encode s.toList)) → P (fieldChars fields)
  | [], _ => by
    rw [fieldChars]
    exact hP.nil
  | [(n, v)], h => by
    rw [fieldStrings] at h
    rw [fieldChars]
    exact hP.colon _ _ (h n List.mem_cons_self) (chars_induction v fun s hs =>
      h s (List.mem_cons_of_mem n (List.mem_append_left _ hs)))
  | (n, v) :: e :: r, h => by
    rw [fieldStrings] at h
    rw [fieldChars, List.append_assoc, List.cons_append]
    exact hP.colon _ _ (h n List.mem_cons_self) (hP.comma _ _
      (chars_induction v fun s hs =>
        h s (List.mem_cons_of_mem n (List.mem_append_left _ hs)))
      (fieldChars_induction (e :: r) fun s hs =>
        h s (List.mem_cons_of_mem n (List.mem_append_right _ hs))))

end

end

/-! ## Three properties -/

/-- Texts without line breaks are put together to such texts. -/
theorem compositional_newline : Compositional fun a => '\n' ∉ a where
  nil := by decide
  word := by decide
  number n := JsonNumber.notMem_render (by decide)
  comma a b ha hb := by simp [ha, hb]
  colon a b ha hb := by simp [ha, hb]
  list a ha := by simp [ha]
  group a ha := by simp [ha]

theorem newline_notMem_chars (v : Json) : '\n' ∉ v.chars := by
  apply chars_induction compositional_newline v
  intro s _
  exact Quoted.newline_notMem_encode s.toList

/-- Texts that are made of parts of options are put together to such texts. -/
theorem compositional_isMadeOf : Compositional IsMadeOf where
  nil := isMadeOf_nil
  word := ⟨isMadeOf_of_plain (by decide), isMadeOf_of_plain (by decide),
    isMadeOf_of_plain (by decide)⟩
  number n := by
    apply isMadeOf_of_plain
    intro c hc
    exact isPlain_of_kind (JsonNumber.allNumeric_render n c hc) (by decide)
  comma a b ha hb := ha.append ((isMadeOf_of_plain (a := [',']) (by decide)).append hb)
  colon a b ha hb := ha.append ((isMadeOf_of_plain (a := [':']) (by decide)).append hb)
  list a ha := ((isMadeOf_of_plain (a := ['[']) (by decide)).append ha).append
    (isMadeOf_of_plain (by decide))
  group a ha := ha.group

/-- The text of a value is made of parts of options. -/
theorem isMadeOf_chars (v : Json) : IsMadeOf v.chars := by
  apply chars_induction compositional_isMadeOf v
  intro s _
  exact isMadeOf_quoted (Or.inr rfl) (Quoted.isEscaped_escapeAll s.toList)

/-- Texts that make no delimiter of tags are put together to such texts. -/
theorem compositional_inert : Compositional Inert where
  nil := inert_nil
  word := ⟨inert_of_notMem (by decide) (by decide), inert_of_notMem (by decide) (by decide),
    inert_of_notMem (by decide) (by decide)⟩
  number n := inert_of_notMem (JsonNumber.notMem_render (by decide))
    (JsonNumber.notMem_render (by decide))
  comma a b ha hb :=
    ha.append ((inert_of_notMem (a := [',']) (by decide) (by decide)).append hb)
  colon a b ha hb :=
    ha.append ((inert_of_notMem (a := [':']) (by decide) (by decide)).append hb)
  list a ha :=
    ((inert_of_notMem (a := ['[']) (by decide) (by decide)).append ha).append
      (inert_of_notMem (by decide) (by decide))
  group a ha := ha.group

/-- The text of a value makes no delimiter of tags if no text inside the value holds one. -/
theorem inert_chars {v : Json} (h : ∀ s ∈ v.strings, TagFree s.toList) : Inert v.chars := by
  apply chars_induction compositional_inert v
  intro s hs
  exact inert_quoted (Or.inr rfl) (Quoted.tagFree_escapeAll (h s hs))

end Json

end ComponentStories
