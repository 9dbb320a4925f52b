import ComponentStories.Proofs.Argument.Reader

/-
# The options that a literal writes

What a literal offers is told here without a reader.  Behind its opening stand texts in single
quotes with commas between them, in which a backslash makes the next character literal, and behind
the last of them it is closed (`Writes`).  Every text writes at most one list of options
(`Writes.unique`), for the reader of literals finds it.  The literal of a control that offers
options writes exactly these, and no other literal writes any (`writes_literal`).
-/

namespace ComponentStories.Control

open Text

/-! ## Texts between quotes -/

/-- What stands between single quotes, and the text that it means: a backslash makes the next
character literal, and no other quote and no other backslash stands there. -/
inductive Means : List Char → List Char → Prop
  /-- Nothing means nothing. -/
  | nil : Means [] []
  /-- A character means itself. -/
  | plain {c : Char} {w s : List Char} (hq : c ≠ '\'') (he : c ≠ '\\') (h : Means w s) :
    Means (c :: w) (c :: s)
  /-- Behind a backslash every character means itself. -/
  | literal {c : Char} {w s : List Char} (h : Means w s) : Means ('\\' :: c :: w) (c :: s)

/-- Texts in single quotes with commas between them, and the options
that they mean, at least one. -/
inductive Lists : List Char → List String → Prop
  /-- The last option. -/
  | last {w s : List Char} (h : Means w s) : Lists ('\'' :: (w ++ ['\''])) [String.ofList s]
  /-- An option in front of others. -/
  | cons {w s v : List Char} {os : List String} (h : Means w s) (hv : Lists v os) :
    Lists ('\'' :: (w ++ '\'' :: ',' :: v)) (String.ofList s :: os)

/-- The text is a literal that offers options. -/
def Writes (text : String) (options : List String) : Prop :=
  ∃ w, Lists w options ∧
    text.toList = "\x7bcontrol: 'select', options: [".toList ++ (w ++ "]\x7d".toList)

/-! ## One list at most -/

variable {w v s o : List Char} {options os : List String} {text : String}

/-- What means a text is read as the text. -/
theorem Means.readOptions_append (h : Means w s) (o r : List Char) :
    readOptions o (w ++ r) = readOptions (s.reverse ++ o) r := by
  induction h generalizing o with
  | nil => rfl
  | @plain c w s hq he h ih =>
    have hstep : readOptions o (c :: (w ++ r)) = readOptions (c :: o) (w ++ r) := by
      rw [readOptions]
      · rintro d u rfl
        exact absurd rfl he
      · rintro u rfl
        exact absurd rfl hq
      · rintro u rfl
        exact absurd rfl hq
      · exact hq
    rw [List.cons_append, hstep, ih, List.reverse_cons, List.append_assoc]
    rfl
  | @literal c w s h ih =>
    rw [List.cons_append, List.cons_append, readOptions, ih, List.reverse_cons, List.append_assoc]
    rfl

/-- What lists options is read as these options, up to the bracket behind it. -/
theorem Lists.exists_readOptions_eq (h : Lists w options) :
    ∃ v, w = '\'' :: v ∧ ∀ r, readOptions [] (v ++ ']' :: r) = some (options, r) := by
  have hself : ∀ s : List Char, String.ofList (s.reverse ++ []).reverse = String.ofList s := by
    intro s
    rw [List.append_nil, List.reverse_reverse]
  induction h with
  | @last w s h =>
    refine ⟨w ++ ['\''], rfl, fun r => ?_⟩
    rw [List.append_assoc, h.readOptions_append, List.singleton_append, readOptions, hself]
  | @cons w s v os h hv ih =>
    obtain ⟨u, rfl, hread⟩ := ih
    refine ⟨w ++ '\'' :: ',' :: '\'' :: u, rfl, fun r => ?_⟩
    rw [List.append_assoc, h.readOptions_append, List.cons_append, List.cons_append,
      List.cons_append, readOptions, hread, hself]
    rfl

/-- The reader finds the options that a text writes. -/
theorem Writes.readSelect_eq (h : Writes text options) :
    readSelect text.toList = some (options, []) := by
  obtain ⟨w, hw, htext⟩ := h
  obtain ⟨v, rfl, hread⟩ := hw.exists_readOptions_eq
  have hopen : "\x7bcontrol: 'select', options: ['".toList =
      "\x7bcontrol: 'select', options: [".toList ++ ['\''] := by decide
  have hclose : "]\x7d".toList = [']', '}'] := rfl
  have hsplit : text.toList =
      "\x7bcontrol: 'select', options: ['".toList ++ (v ++ ']' :: ['}']) := by
    rw [htext, hopen, hclose, List.append_assoc]
    rfl
  rw [readSelect, dropLead?_eq_some_iff.mpr hsplit, Option.bind_eq_bind, Option.bind_some, hread]
  rfl

/-- **A text writes at most one list of options.** -/
theorem Writes.unique (h : Writes text options) (h' : Writes text os) : os = options := by
  have hread := h.readSelect_eq
  rw [h'.readSelect_eq, Option.some.injEq, Prod.mk.injEq] at hread
  exact hread.1

/-! ## The literal of a control -/

/-- An escaped text means the text. -/
theorem means_escapeAll (s : List Char) : Means (escapeAll s) s := by
  induction s with
  | nil => exact .nil
  | cons c s ih =>
    have hsplit : escapeAll (c :: s) = escape c ++ escapeAll s := List.flatMap_cons
    rw [hsplit]
    rcases escape_eq c with ⟨hc, hq, he⟩ | ⟨hc, -⟩
    · rw [hc]
      exact .plain hq he ih
    · rw [hc]
      exact .literal ih

/-- The options of a literal are listed. -/
theorem lists_optionChars (hne : options ≠ []) :
    Lists ('\'' :: (optionChars options ++ ['\''])) options := by
  induction options with
  | nil => exact absurd rfl hne
  | cons p options ih =>
    have hp := means_escapeAll p.toList
    cases options with
    | nil =>
      have hlast := Lists.last hp
      rwa [String.ofList_toList] at hlast
    | cons q options =>
      have hcons := Lists.cons hp (ih (List.cons_ne_nil q options))
      rw [String.ofList_toList] at hcons
      rw [optionChars_cons_cons]
      simpa using hcons

/-- The literal of a control writes the options that it offers. -/
theorem writes_literal_select (hne : options ≠ []) : Writes (select options).literal options := by
  refine ⟨_, lists_optionChars hne, ?_⟩
  rw [literal, String.toList_ofList, literalChars_select]
  have hopen : "\x7bcontrol: 'select', options: [".toList =
      '{' :: ("control: ".toList ++ (('\'' :: ("select".toList ++ ['\''])) ++
        ", options: [".toList)) := by decide
  have hclose : "]\x7d".toList = [']', '}'] := rfl
  rw [hopen, hclose]
  simp only [List.cons_append, List.append_assoc, List.nil_append]

/-- No other control has a literal that writes options. -/
theorem not_writes_literal {c : Control} (hc : ∀ os, c ≠ select os) (options : List String) :
    ¬ Writes c.literal options := by
  intro h
  have hread := readSelect_eq_none hc []
  rw [List.append_nil, ← String.toList_ofList (l := c.literalChars)] at hread
  exact Option.some_ne_none _ (h.readSelect_eq.symm.trans hread)

/-- Offering nothing is written as offering the text without characters. -/
theorem exists_ne_nil_literal_eq (options : List String) :
    ∃ os, os ≠ [] ∧ (select os).literal = (select options).literal := by
  by_cases hne : options = []
  · exact ⟨[""], List.cons_ne_nil _ _, by rw [hne]; rfl⟩
  · exact ⟨options, hne, rfl⟩

/-- **The literal of a control writes the options that it offers**, whatever characters they have,
if there is one at all: it can be read as these options in their order and in no other way, as no
text can be read in two ways.  So different lists have different literals, and no control that
offers options, even none, has the literal of a control that does not. -/
theorem writes_literal :
    (∀ options : List String, options ≠ [] →
      ∀ os, Writes (select options).literal os ↔ os = options) ∧
    (∀ text options os, Writes text options → Writes text os → os = options) ∧
    (∀ options os : List String, options ≠ [] → os ≠ [] →
      (select os).literal = (select options).literal → os = options) ∧
    ∀ options c, (∀ os, c ≠ select os) → (select options).literal ≠ c.literal := by
  refine ⟨fun options hne os => ⟨(writes_literal_select hne).unique, ?_⟩,
    fun text options os h h' => h.unique h', fun options os hne hos heq => ?_, ?_⟩
  · rintro rfl
    exact writes_literal_select hne
  · have hwrites := writes_literal_select hos
    rw [heq] at hwrites
    exact (writes_literal_select hne).unique hwrites
  · intro options c hc heq
    obtain ⟨os, hos, hsame⟩ := exists_ne_nil_literal_eq options
    have hwrites := writes_literal_select hos
    rw [hsame, heq] at hwrites
    exact not_writes_literal hc os hwrites

/-- Options that hold what separates and what ends options. -/
def tricky : List String := ["it's", "a','b", "back\\", "", "']\x7d", "two\nlines", "\\'"]

/-- They are told from the same texts joined in another way, and from a text that is edited. -/
theorem writes_literal_tricky :
    tricky ≠ [] ∧ (∀ os, Writes (select tricky).literal os ↔ os = tricky) ∧
    (select ["a", "b"]).literal ≠ (select ["a','b"]).literal ∧
    (select tricky).literal ≠ Control.text.literal := by
  obtain ⟨hread, -, hinj, hother⟩ := writes_literal
  refine ⟨List.cons_ne_nil _ _, hread tricky (List.cons_ne_nil _ _), fun heq => ?_,
    hother tricky Control.text fun _ h => by simp at h⟩
  have hsame := hinj ["a','b"] ["a", "b"] (List.cons_ne_nil _ _) (List.cons_ne_nil _ _) heq
  exact absurd hsame (by decide)

end ComponentStories.Control
