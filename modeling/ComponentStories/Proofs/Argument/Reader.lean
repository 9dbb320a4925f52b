import ComponentStories.Proofs.Argument.Literal

/-
# Reading the options of a control

The literal of a control that offers options is read from the front: single-quoted texts with commas
between them, in which a backslash takes the next character as it is.  What was written is read
back, whatever follows (`readSelect_literalChars`), so the literal of a control ends where it seems
to end: two literals in front of any texts are the same as soon as the whole texts are
(`literalChars_append_inj`).
-/

namespace ComponentStories.Control

open Text

/-! ## Options -/

/-- The options from the inside of a quoted text on, whose first characters are `o` in reverse, and
what follows the bracket behind the last option.  A backslash takes the next character as it is. -/
def readOptions (o : List Char) : List Char → Option (List String × List Char)
  | '\\' :: c :: r => readOptions (c :: o) r
  | '\'' :: ',' :: '\'' :: r =>
    (readOptions [] r).map fun x => (String.ofList o.reverse :: x.1, x.2)
  | '\'' :: ']' :: r => some ([String.ofList o.reverse], r)
  | '\'' :: _ => none
  | c :: r => readOptions (c :: o) r
  | [] => none

/-- One character is read as it was written. -/
theorem readOptions_escape_append (o : List Char) (c : Char) (r : List Char) :
    readOptions o (escape c ++ r) = readOptions (c :: o) r := by
  rcases escape_eq c with ⟨hc, hq, he⟩ | ⟨hc, -⟩
  · rw [hc, List.singleton_append, readOptions]
    · rintro d u rfl
      exact absurd rfl he
    · rintro u rfl
      exact absurd rfl hq
    · rintro u rfl
      exact absurd rfl hq
    · exact hq
  · rw [hc]
    rfl

/-- An option is read as it was written, up to its closing quote. -/
theorem readOptions_escapeAll_append (o s r : List Char) :
    readOptions o (escapeAll s ++ r) = readOptions (s.reverse ++ o) r := by
  induction s generalizing o with
  | nil => rfl
  | cons c s ih =>
    have hsplit : escapeAll (c :: s) ++ r = escape c ++ (escapeAll s ++ r) := by
      simp [escapeAll]
    rw [hsplit, readOptions_escape_append, ih, List.reverse_cons, List.append_assoc]
    rfl

/-- The options of a literal are read back up to the closing bracket. -/
theorem readOptions_optionChars {options : List String} (hne : options ≠ []) (r : List Char) :
    readOptions [] (optionChars options ++ '\'' :: ']' :: r) = some (options, r) := by
  -- the induction is on the options, and each of them is read from the inside of its quotes
  induction options with
  | nil => exact absurd rfl hne
  | cons o os ih =>
    have hself : String.ofList (o.toList.reverse ++ []).reverse = o := by
      rw [List.append_nil, List.reverse_reverse, String.ofList_toList]
    cases os with
    | nil =>
      rw [optionChars, readOptions_escapeAll_append, readOptions, hself]
    | cons p os =>
      have hsplit : optionChars (o :: p :: os) ++ '\'' :: ']' :: r =
          escapeAll o.toList ++
            '\'' :: ',' :: '\'' :: (optionChars (p :: os) ++ '\'' :: ']' :: r) := by
        have hsep : "','".toList = ['\'', ',', '\''] := rfl
        simp [optionChars, hsep]
      rw [hsplit, readOptions_escapeAll_append, readOptions, ih (List.cons_ne_nil p os), hself]
      rfl

/-- The options that a literal offers, and what follows the literal; none for a
literal that offers none. -/
def readSelect (s : List Char) : Option (List String × List Char) := do
  let s ← dropLead? "\x7bcontrol: 'select', options: ['".toList s
  let (options, s) ← readOptions [] s
  let s ← dropLead? ['}'] s
  pure (options, s)

/-- **The options of a control are read back** from its literal, whatever follows it. -/
theorem readSelect_literalChars {options : List String} (hne : options ≠ []) (r : List Char) :
    readSelect ((select options).literalChars ++ r) = some (options, r) := by
  have hclose : "']\x7d".toList = ['\'', ']', '}'] := rfl
  have hsplit : (select options).literalChars ++ r = "\x7bcontrol: 'select', options: ['".toList ++
      (optionChars options ++ '\'' :: ']' :: '}' :: r) := by
    show "\x7bcontrol: 'select', options: ['".toList ++ optionChars options ++
      "']\x7d".toList ++ r = _
    rw [hclose, List.append_assoc, List.append_assoc]
    rfl
  rw [hsplit, readSelect, dropLead?_eq_some_iff.mpr rfl, Option.bind_eq_bind, Option.bind_some,
    readOptions_optionChars hne]
  rfl

/-! ## Literals do not run into what follows -/

/-- No other control has a literal that offers options. -/
theorem readSelect_eq_none {c : Control} (hc : ∀ os, c ≠ select os) (r : List Char) :
    readSelect (c.literalChars ++ r) = none := by
  cases c with
  | select os => exact absurd rfl (hc os)
  | text => rfl
  | number => rfl
  | freeform => rfl

/-- The literals without options differ within their first twelve characters. -/
theorem literalChars_append_inj_of_ne_select {c c' : Control} (hc : ∀ os, c ≠ select os)
    (hc' : ∀ os, c' ≠ select os) {r r' : List Char}
    (h : c.literalChars ++ r = c'.literalChars ++ r') : c = c' ∧ r = r' := by
  have hchar : (c.literalChars ++ r)[11]? = (c'.literalChars ++ r')[11]? := by rw [h]
  cases c with
  | select os => exact absurd rfl (hc os)
  | text =>
    cases c' with
    | select os => exact absurd rfl (hc' os)
    | text => exact ⟨rfl, List.append_cancel_left h⟩
    | number => exact absurd hchar (show some 't' ≠ some 'n' by decide)
    | freeform => exact absurd hchar (show some 't' ≠ some 'o' by decide)
  | number =>
    cases c' with
    | select os => exact absurd rfl (hc' os)
    | text => exact absurd hchar (show some 'n' ≠ some 't' by decide)
    | number => exact ⟨rfl, List.append_cancel_left h⟩
    | freeform => exact absurd hchar (show some 'n' ≠ some 'o' by decide)
  | freeform =>
    cases c' with
    | select os => exact absurd rfl (hc' os)
    | text => exact absurd hchar (show some 'o' ≠ some 't' by decide)
    | number => exact absurd hchar (show some 'o' ≠ some 'n' by decide)
    | freeform => exact ⟨rfl, List.append_cancel_left h⟩

/-- **Literals in front of any texts**: where the whole texts are the same, so are the
controls and what follows them. -/
theorem literalChars_append_inj {c c' : Control} (hc : c.IsProper) (hc' : c'.IsProper)
    {r r' : List Char} (h : c.literalChars ++ r = c'.literalChars ++ r') : c = c' ∧ r = r' := by
  have nonempty : ∀ os, (select os).IsProper → os ≠ [] := by
    rintro os hos rfl
    exact hos rfl
  -- only a literal that offers options is read as one
  by_cases hs : ∃ os, c = select os
  · obtain ⟨os, rfl⟩ := hs
    have hread := readSelect_literalChars (nonempty os hc) r
    by_cases hs' : ∃ os', c' = select os'
    · obtain ⟨os', rfl⟩ := hs'
      rw [h, readSelect_literalChars (nonempty os' hc') r'] at hread
      simp only [Option.some.injEq, Prod.mk.injEq] at hread
      exact ⟨by rw [hread.1], hread.2.symm⟩
    · push Not at hs'
      rw [h, readSelect_eq_none hs' r'] at hread
      exact absurd hread (by simp)
  · push Not at hs
    have hread := readSelect_eq_none hs r
    by_cases hs' : ∃ os', c' = select os'
    · obtain ⟨os', rfl⟩ := hs'
      rw [h, readSelect_literalChars (nonempty os' hc') r'] at hread
      exact absurd hread (by simp)
    · push Not at hs'
      exact literalChars_append_inj_of_ne_select hs hs' h

end ComponentStories.Control
