import ComponentStories.Proofs.Template.Opening
import ComponentStories.Proofs.Template.Options

/-
# Options that are pairs of a key and a text

The options of a story may be written as pairs of a key and a quoted text, with commas between them.
A reader of options keeps such pairs as they are, the quoted texts included, up to the brace that
closes the options (`topLevel_pairChars_append`), and they make no delimiter of tags
(`inert_pairChars`).
-/

namespace ComponentStories.Template

open ComponentStories.Text

/-! ## Pairs -/

/-- Whether a character may stand in a key: it is no blank and none of the marks that options
and tags are written with. -/
def isKeyChar (c : Char) : Bool :=
  !isBlank c && !List.contains [',', ':', '\'', '"', '{', '}', '%'] c

/-- A pair of a key and a quoted text, as it is written among options. -/
structure OptionPair where
  /-- The blanks in front of the key. -/
  lead : List Char
  /-- The key. -/
  key : String
  /-- The blanks behind the colon. -/
  gap : List Char
  /-- The quote on both sides of the text. -/
  quote : Char
  /-- The text. -/
  text : String
  /-- The blanks behind the closing quote. -/
  trail : List Char
  /-- They are blanks. -/
  blank : AllBlank lead ∧ AllBlank gap ∧ AllBlank trail
  /-- The characters of the key. -/
  isKey : ∀ c ∈ key.toList, isKeyChar c = true
  /-- The quote is a single or a double one. -/
  quoted : isQuote quote = true
  /-- The text does not hold its quote. -/
  closed : quote ∉ text.toList
  /-- The text holds no backslash. -/
  unescaped : '\\' ∉ text.toList
  /-- The text holds no delimiter of tags. -/
  tagFree : TagFree text.toList

namespace OptionPair

theorem quote_eq (p : OptionPair) : p.quote = '\'' ∨ p.quote = '"' := by
  have h := p.quoted
  rwa [isQuote, Bool.or_eq_true, beq_iff_eq, beq_iff_eq] at h

/-- What stands in front of the quoted text. -/
def front (p : OptionPair) : List Char := p.lead ++ (p.key.toList ++ ':' :: p.gap)

/-- The characters of a pair. -/
def chars (p : OptionPair) : List Char :=
  p.front ++ (p.quote :: (p.text.toList ++ [p.quote]) ++ p.trail)

/-- What stands behind a pair: commas and the other pairs. -/
def behind (ps : List OptionPair) : List Char := ps.flatMap fun p => ',' :: p.chars

/-- No quote, brace or percent sign stands in front of the quoted text. -/
theorem front_subset (p : OptionPair) {c : Char} (hc : c ∈ p.front) :
    OptionState.isPlain c = true ∧ c ≠ '%' := by
  have hblank : ∀ b, AllBlank b → c ∈ b → OptionState.isPlain c = true ∧ c ≠ '%' := by
    intro b hb hmem
    refine ⟨OptionState.isPlain_of_kind (hb c hmem) (by decide), ?_⟩
    rintro rfl
    exact absurd (hb _ hmem) (by decide)
  rw [front, List.mem_append, List.mem_append, List.mem_cons] at hc
  rcases hc with hc | hc | rfl | hc
  · exact hblank _ p.blank.1 hc
  · refine ⟨OptionState.isPlain_of_kind (p.isKey c hc) (by decide), ?_⟩
    rintro rfl
    exact absurd (p.isKey _ hc) (by decide)
  · exact ⟨by decide, by decide⟩
  · exact hblank _ p.blank.2.1 hc

theorem isKeyChar_quote (p : OptionPair) : isKeyChar p.quote = false := by
  rcases p.quote_eq with h | h <;> rw [h] <;> decide

theorem isKeyBoundary_quote (p : OptionPair) : isKeyBoundary p.quote = false := by
  rcases p.quote_eq with h | h <;> rw [h] <;> decide

theorem kept_chars (p : OptionPair) : OptionState.Kept p.chars := by
  have htext := OptionState.quotable_of_notMem p.closed p.unescaped
  have htrail : ∀ c ∈ p.trail, OptionState.isPlain c = true := fun c hc =>
    OptionState.isPlain_of_kind (p.blank.2.2 c hc) (by decide)
  exact (OptionState.kept_of_plain fun c hc => (p.front_subset hc).1).append
    ((OptionState.kept_quoted p.quote_eq htext).append (OptionState.kept_of_plain htrail))

/-- A pair makes no delimiter of tags, neither by itself nor with its neighbours. -/
theorem inert_chars (p : OptionPair) : Inert p.chars := by
  have hfront : Inert p.front := inert_of_notMem
    (fun h => (OptionState.isPlain_iff.mp (p.front_subset h).1).2.2.1 rfl)
    fun h => (p.front_subset h).2 rfl
  have htrail : Inert p.trail :=
    inert_of_notMem (notMem_of_forall p.blank.2.2 (by decide))
      (notMem_of_forall p.blank.2.2 (by decide))
  exact hfront.append ((inert_quoted p.quote_eq p.tagFree).append htrail)

end OptionPair

/-- The characters of pairs with commas between them, and blanks in front. -/
def pairChars (pad : List Char) (ps : List OptionPair) : List Char :=
  pad ++ join [','] (ps.map OptionPair.chars)

/-- A reader of options keeps pairs as they are, up to the brace that closes the options. -/
theorem topLevel_pairChars_append {pad : List Char} (hpad : AllBlank pad) (ps : List OptionPair)
    (b : List Char) : topLevel (pairChars pad ps ++ '}' :: b) = pairChars pad ps := by
  have hplain : ∀ c ∈ pad, OptionState.isPlain c = true := fun c hc =>
    OptionState.isPlain_of_kind (hpad c hc) (by decide)
  have hjoin : OptionState.Kept (join [','] (ps.map OptionPair.chars)) := by
    refine join_induction OptionState.kept_nil (fun _ _ ha hb => ha.append hb)
      (OptionState.kept_of_plain (by decide)) _ fun t ht => ?_
    obtain ⟨p, -, rfl⟩ := List.mem_map.mp ht
    exact p.kept_chars
  rw [topLevel, pairChars, (OptionState.kept_of_plain hplain).append hjoin, OptionState.read_close,
    List.append_nil]

/-- Pairs make no delimiter of tags, neither by themselves nor with their neighbours. -/
theorem inert_pairChars {pad : List Char} (hpad : AllBlank pad) (ps : List OptionPair) :
    Inert (pairChars pad ps) := by
  have hblank : Inert pad := inert_of_notMem (notMem_of_forall hpad (by decide))
    (notMem_of_forall hpad (by decide))
  refine hblank.append (join_induction inert_nil (fun _ _ ha hb => ha.append hb)
    (inert_of_notMem (by decide) (by decide)) _ fun t ht => ?_)
  obtain ⟨p, -, rfl⟩ := List.mem_map.mp ht
  exact p.inert_chars

/-- The pairs behind the first one stand behind commas. -/
theorem join_cons_chars (p : OptionPair) (ps : List OptionPair) :
    join [','] ((p :: ps).map OptionPair.chars) = p.chars ++ OptionPair.behind ps := by
  induction ps generalizing p with
  | nil => exact (List.append_nil p.chars).symm
  | cons q ps ih =>
    have hq := ih q
    rw [List.map_cons] at hq
    rw [List.map_cons, List.map_cons, join, hq, List.append_assoc]
    rfl

end ComponentStories.Template
