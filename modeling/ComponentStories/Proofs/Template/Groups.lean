import ComponentStories.Proofs.Template.Options

/-
# Options that are made of parts

The options of a story are made of plain text, of texts between quotes and of groups: a group stands
between braces and is made of parts in turn.  A reader of options gives the parts outside of every
group as they are and passes over the groups, whatever is in them (`topLevel_charsAll_append`).
Emptying the groups brings no delimiter of tags into options (`tagFree_charsAll_map_emptied`).
-/

namespace ComponentStories.Template

open ComponentStories.Text

/-! ## Texts between quotes -/

/-- Whether a text may stand between quotes: a backslash takes the next character with it, and no
other character is the quote. -/
def isEscaped (quote : Char) : List Char → Bool
  | [] => true
  | ['\\'] => false
  | '\\' :: _ :: s => isEscaped quote s
  | c :: s => c != quote && isEscaped quote s

theorem isEscaped_cons {q c : Char} (hc : c ≠ '\\') (s : List Char) :
    isEscaped q (c :: s) = (c != q && isEscaped q s) :=
  isEscaped.eq_4 q c s (fun h => absurd h hc) (fun _ _ h => absurd h hc)

/-- A character that is neither a backslash at the end nor one in front of
another character is none. -/
theorem ne_backslash {c : Char} {s : List Char} (hlast : c = '\\' → s = [] → False)
    (hback : ∀ d r, c = '\\' → s = d :: r → False) : c ≠ '\\' := by
  intro hc
  cases s with
  | nil => exact hlast hc rfl
  | cons d r => exact hback d r hc rfl

theorem quotable_of_isEscaped {q : Char} {a : List Char} (h : isEscaped q a = true) :
    OptionState.Quotable q a := by
  fun_induction isEscaped q a with
  | case1 => exact OptionState.quotable_nil q
  | case2 => exact absurd h (by decide)
  | case3 c s ih => exact (OptionState.quotable_escape q c).append (ih h)
  | case4 c s hlast hback ih =>
    rw [Bool.and_eq_true, bne_iff_ne] at h
    exact (OptionState.quotable_singleton h.1 (ne_backslash hlast hback)).append (ih h.2)

/-- Two such texts in a row are one. -/
theorem isEscaped_append {q : Char} {a b : List Char} (ha : isEscaped q a = true)
    (hb : isEscaped q b = true) : isEscaped q (a ++ b) = true := by
  fun_induction isEscaped q a with
  | case1 => exact hb
  | case2 => exact absurd ha (by decide)
  | case3 c s ih => exact ih ha
  | case4 c s hlast hback ih =>
    rw [Bool.and_eq_true] at ha
    rw [List.cons_append, isEscaped_cons (ne_backslash hlast hback), Bool.and_eq_true]
    exact ⟨ha.1, ih ha.2⟩

/-- A text without the quote and without backslashes. -/
theorem isEscaped_of_notMem {q : Char} {a : List Char} (hq : q ∉ a) (he : '\\' ∉ a) :
    isEscaped q a = true := by
  induction a with
  | nil => rfl
  | cons c a ih =>
    rw [List.mem_cons, not_or] at hq he
    rw [isEscaped_cons (Ne.symm he.1), Bool.and_eq_true, bne_iff_ne]
    exact ⟨Ne.symm hq.1, ih hq.2 he.2⟩

theorem isEscaped_flatMap {q : Char} {f : Char → List Char} (hf : ∀ c, isEscaped q (f c) = true)
    (s : List Char) : isEscaped q (s.flatMap f) = true := by
  induction s with
  | nil => rfl
  | cons c s ih => exact isEscaped_append (hf c) ih

/-! ## Parts -/

/-- A part of options. -/
inductive OptionPart
  /-- Text without quotes and braces. -/
  | plain (text : List Char) (h : ∀ c ∈ text, OptionState.isPlain c = true)
  /-- A text between quotes of one kind. -/
  | quoted (quote : Char) (hquote : quote = '\'' ∨ quote = '"') (text : List Char)
      (htext : isEscaped quote text = true)
  /-- Parts between braces. -/
  | group (parts : List OptionPart)

namespace OptionPart

mutual

/-- The characters of a part. -/
def chars : OptionPart → List Char
  | plain text _ => text
  | quoted quote _ text _ => quote :: (text ++ [quote])
  | group parts => '{' :: (charsAll parts ++ ['}'])

/-- The characters of some parts in a row. -/
def charsAll : List OptionPart → List Char
  | [] => []
  | p :: ps => chars p ++ charsAll ps

end

/-- What stands outside of every group. -/
def outside : OptionPart → List Char
  | group _ => []
  | p => p.chars

/-- The part without what stands inside of its group. -/
def emptied : OptionPart → OptionPart
  | group _ => group []
  | p => p

@[simp] theorem outside_emptied (p : OptionPart) : p.emptied.outside = p.outside := by
  cases p with
  | plain text h => rfl
  | quoted quote hquote text htext => rfl
  | group parts => rfl

theorem charsAll_append (ps qs : List OptionPart) :
    charsAll (ps ++ qs) = charsAll ps ++ charsAll qs := by
  induction ps with
  | nil => rfl
  | cons p ps ih => rw [List.cons_append, charsAll, charsAll, ih, List.append_assoc]

theorem charsAll_singleton (p : OptionPart) : charsAll [p] = p.chars := by
  rw [charsAll, charsAll, List.append_nil]

/-! ## What a reader gives -/

mutual

/-- A reader inside a group passes over a part. -/
theorem erased_chars : ∀ p : OptionPart, OptionState.Erased p.chars
  | plain text h => by
    rw [chars]
    exact OptionState.erased_of_plain h
  | quoted quote hquote text htext => by
    rw [chars]
    exact OptionState.erased_quoted hquote (quotable_of_isEscaped htext)
  | group parts => by
    rw [chars]
    exact (erased_charsAll parts).group

/-- A reader inside a group passes over parts in a row. -/
theorem erased_charsAll : ∀ ps : List OptionPart, OptionState.Erased (charsAll ps)
  | [] => by
    rw [charsAll]
    exact OptionState.erased_nil
  | p :: ps => by
    rw [charsAll]
    exact (erased_chars p).append (erased_charsAll ps)

end

/-- A reader outside of every group gives of a part what stands outside of every group. -/
theorem read_chars_append (p : OptionPart) (b : List Char) :
    OptionState.outer.read (p.chars ++ b) = p.outside ++ OptionState.outer.read b := by
  cases p with
  | plain text h =>
    rw [outside, chars]
    · exact OptionState.kept_of_plain h b
    · simp
  | quoted quote hquote text htext =>
    rw [outside, chars]
    · exact OptionState.kept_quoted hquote (quotable_of_isEscaped htext) b
    · simp
  | group parts =>
    rw [outside, chars, List.cons_append, List.append_assoc]
    exact OptionState.read_group (erased_charsAll parts) 0 b

/-- A reader gives of parts in a row what stands outside of every group, in order. -/
theorem read_charsAll_append (ps : List OptionPart) (b : List Char) :
    OptionState.outer.read (charsAll ps ++ b) =
      ps.flatMap outside ++ OptionState.outer.read b := by
  induction ps with
  | nil => rfl
  | cons p ps ih =>
    rw [charsAll, List.append_assoc, read_chars_append, ih, List.flatMap_cons, List.append_assoc]

/-- **The options up to the brace that closes them are read without their groups.** -/
theorem topLevel_charsAll_append (ps : List OptionPart) (b : List Char) :
    topLevel (charsAll ps ++ '}' :: b) = ps.flatMap outside := by
  rw [topLevel, read_charsAll_append, OptionState.read_close, List.append_nil]

/-! ## Texts that are made of parts -/

/-- A text that is made of parts. -/
def IsMadeOf (a : List Char) : Prop := ∃ ps, charsAll ps = a

theorem isMadeOf_nil : IsMadeOf [] := ⟨[], rfl⟩

theorem isMadeOf_chars (p : OptionPart) : IsMadeOf p.chars := ⟨[p], charsAll_singleton p⟩

theorem IsMadeOf.append {a b : List Char} (ha : IsMadeOf a) (hb : IsMadeOf b) :
    IsMadeOf (a ++ b) := by
  obtain ⟨ps, rfl⟩ := ha
  obtain ⟨qs, rfl⟩ := hb
  exact ⟨ps ++ qs, charsAll_append ps qs⟩

theorem isMadeOf_of_plain {a : List Char} (h : ∀ c ∈ a, OptionState.isPlain c = true) :
    IsMadeOf a := by
  have hchars := isMadeOf_chars (.plain a h)
  rwa [chars] at hchars

theorem isMadeOf_quoted {q : Char} (hq : q = '\'' ∨ q = '"') {a : List Char}
    (ha : isEscaped q a = true) : IsMadeOf (q :: (a ++ [q])) := by
  have hchars := isMadeOf_chars (.quoted q hq a ha)
  rwa [chars] at hchars

theorem IsMadeOf.group {a : List Char} (ha : IsMadeOf a) : IsMadeOf ('{' :: (a ++ ['}'])) := by
  obtain ⟨ps, rfl⟩ := ha
  have hchars := isMadeOf_chars (.group ps)
  rwa [chars] at hchars

theorem IsMadeOf.erased {a : List Char} (ha : IsMadeOf a) : OptionState.Erased a := by
  obtain ⟨ps, rfl⟩ := ha
  exact erased_charsAll ps

/-! ## Delimiters of tags -/

/-- Emptied groups bring no delimiter into options. -/
theorem tagFree_append_charsAll_emptied {ps : List OptionPart} :
    ∀ {a : List Char}, TagFree (a ++ charsAll ps) → TagFree (a ++ charsAll (ps.map emptied)) := by
  induction ps with
  | nil => exact fun h => h
  | cons p ps ih =>
    intro a h
    rw [charsAll, ← List.append_assoc] at h
    rw [List.map_cons, charsAll, ← List.append_assoc]
    cases p with
    | plain text hplain => exact ih h
    | quoted quote hquote text htext => exact ih h
    | group parts =>
      -- the braces of a group keep what is in front of it apart from what follows
      have hbrace : ∀ {b r : List Char}, a ++ ('{' :: (b ++ ['}'])) ++ r =
          a ++ '{' :: (b ++ '}' :: r) := by
        intro b r
        simp
      rw [chars, hbrace, tagFree_append_cons (by decide) (by decide)] at h
      have hrest : TagFree (charsAll ps) := TagFree.of_infix h.2
        ⟨'{' :: (charsAll parts ++ ['}']), [], by simp⟩
      rw [emptied, chars, hbrace, tagFree_append_cons (by decide) (by decide), charsAll,
        List.nil_append, tagFree_brace, tagFree_cons (by decide) (by decide)]
      exact ⟨h.1, by simp, ih (a := []) hrest⟩

/-- **Options without delimiters have none when their groups are emptied.** -/
theorem tagFree_charsAll_map_emptied {ps : List OptionPart} (h : TagFree (charsAll ps)) :
    TagFree (charsAll (ps.map emptied)) :=
  tagFree_append_charsAll_emptied (a := []) h

end OptionPart

end ComponentStories.Template
