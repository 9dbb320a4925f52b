import ComponentStories.Proofs.Template.Groups

/-
# Where a reader of options stands

A reader of options counts the groups that are open.  Outside of quotes a text opens some groups and
closes some: `level` is the difference.  The depth of the reader is the level of what it has read,
and the reader ends where the level would fall below zero (`depth_of_after`, `after_eq_none_iff`). 
Text that is made of parts leaves the reader where it was, at any depth (`returns_charsAll`).
-/

namespace ComponentStories.Template

namespace OptionState

/-! ## Texts in a row -/

/-- Behind a text and a further one a reader stands where the further one leaves it. -/
theorem after_append (s : OptionState) (a b : List Char) :
    s.after (a ++ b) = (s.after a).bind fun t => t.after b := by
  induction a generalizing s with
  | nil => rfl
  | cons c a ih =>
    rw [List.cons_append, after, after]
    cases s.step c with
    | text next => exact ih next
    | brace next => exact ih next
    | closed => rfl

/-! ## Groups that are opened and closed -/

/-- The characters of a text that stand outside of quotes; `quote` is the quote that is open in
front of the text, and `escaped` tells whether a backslash stands in front. -/
def unquoted : Option Char → Bool → List Char → List Char
  | _, _, [] => []
  | none, e, c :: r => if c = '\'' ∨ c = '"' then unquoted (some c) e r else c :: unquoted none e r
  | some q, true, _ :: r => unquoted (some q) false r
  | some q, false, c :: r =>
    if c = '\\' then unquoted (some q) true r
    else if c = q then unquoted none false r
    else unquoted (some q) false r

/-- How many more groups a text opens than it closes. -/
def level (s : OptionState) (a : List Char) : Int :=
  (unquoted s.quote s.escaped a).count '{' - (unquoted s.quote s.escaped a).count '}'

@[simp] theorem level_nil (s : OptionState) : s.level [] = 0 := by
  cases s.quote <;> simp [level, unquoted]

/-- **A step changes the depth as its character changes the level.** -/
theorem level_cons_of_step {s t : OptionState} {c : Char}
    (h : s.step c = .text t ∨ s.step c = .brace t) (r : List Char) :
    s.level (c :: r) + s.depth = t.level r + t.depth := by
  obtain ⟨d, q, e⟩ := s
  cases q with
  | some q =>
    cases e with
    | true =>
      obtain rfl : ⟨d, some q, false⟩ = t := by simpa [step] using h
      rfl
    | false =>
      by_cases hback : c = '\\'
      · obtain rfl : ⟨d, some q, true⟩ = t := by simpa [step, hback] using h
        simp [level, unquoted, hback]
      by_cases hquote : c = q
      · obtain rfl : ⟨d, none, false⟩ = t := by
          simpa only [step, if_neg hback, if_pos hquote, Bool.false_eq_true, if_false, reduceCtorEq,
            or_false, Step.text.injEq] using h
        simp only [level, unquoted, if_neg hback, if_pos hquote]
      · obtain rfl : ⟨d, some q, false⟩ = t := by simpa [step, hback, hquote] using h
        simp [level, unquoted, hback, hquote]
  | none =>
    by_cases hquote : c = '\'' ∨ c = '"'
    · obtain rfl : ⟨d, some c, e⟩ = t := by simpa [step, hquote] using h
      simp [level, unquoted, hquote]
    by_cases hopen : c = '{'
    · obtain rfl : ⟨d + 1, none, e⟩ = t := by simpa [step, hopen] using h
      simp [level, unquoted, hopen]
      omega
    by_cases hclose : c = '}'
    · cases d with
      | zero => simp [step, hclose] at h
      | succ d =>
        obtain rfl : ⟨d, none, e⟩ = t := by simpa [step, hclose] using h
        simp [level, unquoted, hclose]
        omega
    · obtain rfl : ⟨d, none, e⟩ = t := by simpa [step, hquote, hopen, hclose] using h
      simp [level, unquoted, hquote, hopen, hclose]

/-- The options are closed by a brace outside of quotes and of every group. -/
theorem of_step_eq_closed {s : OptionState} {c : Char} (h : s.step c = .closed) :
    s.quote = none ∧ s.depth = 0 ∧ c = '}' := by
  obtain ⟨d, q, e⟩ := s
  cases q with
  | some q =>
    obtain ⟨t, ht, -⟩ := step_quoted d q e c
    rw [ht] at h
    exact absurd h (by simp)
  | none =>
    rw [step] at h
    dsimp only at h
    split at h
    · exact absurd h (by simp)
    split at h
    · exact absurd h (by simp)
    split at h
    · rename_i hclose
      cases d with
      | zero => exact ⟨rfl, rfl, hclose⟩
      | succ d => exact absurd h (by simp)
    · exact absurd h (by simp)

/-- **The depth of a reader is the level of what it has read.** -/
theorem depth_of_after {s t : OptionState} {a : List Char} (h : s.after a = some t) :
    s.level a + s.depth = t.depth := by
  induction a generalizing s with
  | nil =>
    obtain rfl : s = t := Option.some.inj h
    simp
  | cons c a ih =>
    obtain ⟨next, hstep, hnext⟩ := exists_step_of_after h
    rw [level_cons_of_step hstep, ih hnext]

/-- **A reader ends exactly where the level falls below zero.** -/
theorem after_eq_none_iff {s : OptionState} {a : List Char} :
    s.after a = none ↔ ∃ b, b <+: a ∧ s.level b + s.depth < 0 := by
  induction a generalizing s with
  | nil =>
    refine iff_of_false (by simp [after]) ?_
    rintro ⟨b, hb, hlevel⟩
    rw [List.prefix_nil.mp hb, level_nil] at hlevel
    omega
  | cons c a ih =>
    -- a step over the first character moves every level along
    have hnext : ∀ next, s.step c = .text next ∨ s.step c = .brace next →
        (next.after a = none ↔ ∃ b, b <+: c :: a ∧ s.level b + s.depth < 0) := by
      intro next hstep
      rw [ih]
      constructor
      · rintro ⟨b, hb, hlevel⟩
        exact ⟨c :: b, List.cons_prefix_cons.mpr ⟨rfl, hb⟩, by rwa [level_cons_of_step hstep]⟩
      · rintro ⟨b, hb, hlevel⟩
        cases b with
        | nil =>
          rw [level_nil] at hlevel
          omega
        | cons c' b =>
          obtain ⟨rfl, hrest⟩ := List.cons_prefix_cons.mp hb
          exact ⟨b, hrest, by rwa [← level_cons_of_step hstep]⟩
    rw [after]
    cases hstep : s.step c with
    | text next => exact hnext next (Or.inl hstep)
    | brace next => exact hnext next (Or.inr hstep)
    | closed =>
      obtain ⟨hquote, hdepth, rfl⟩ := of_step_eq_closed hstep
      refine iff_of_true rfl ⟨['}'], List.cons_prefix_cons.mpr ⟨rfl, List.nil_prefix⟩, ?_⟩
      simp [level, hquote, unquoted, hdepth]

/-! ## Texts that leave a reader where it was -/

/-- A reader comes out of a text where it went in. -/
def Returns (s : OptionState) (a : List Char) : Prop := s.after a = some s

theorem returns_nil (s : OptionState) : s.Returns [] := rfl

theorem Returns.append {s : OptionState} {a b : List Char} (ha : s.Returns a) (hb : s.Returns b) :
    s.Returns (a ++ b) := by
  rw [Returns, after_append, ha]
  exact hb

theorem returns_of_plain {a : List Char} (h : ∀ c ∈ a, isPlain c = true) (d : Nat) :
    Returns ⟨d, none, false⟩ a := by
  induction a with
  | nil => exact returns_nil _
  | cons c a ih =>
    rw [Returns, after, step_of_isPlain (h c List.mem_cons_self) d]
    exact ih fun e he => h e (List.mem_cons_of_mem c he)

/-- Between quotes a text that does not end them. -/
theorem returns_of_isEscaped {q : Char} {a : List Char} (h : isEscaped q a = true) (d : Nat) :
    Returns ⟨d, some q, false⟩ a := by
  fun_induction isEscaped q a with
  | case1 => exact returns_nil _
  | case2 => exact absurd h (by decide)
  | case3 c s ih =>
    have hback : step ⟨d, some q, false⟩ '\\' = .text ⟨d, some q, true⟩ := by simp [step]
    have hnext : step ⟨d, some q, true⟩ c = .text ⟨d, some q, false⟩ := by simp [step]
    rw [Returns, after, hback]
    dsimp only
    rw [after, hnext]
    exact ih h
  | case4 c s hlast hback ih =>
    rw [Bool.and_eq_true, bne_iff_ne] at h
    have hstep : step ⟨d, some q, false⟩ c = .text ⟨d, some q, false⟩ := by
      simp [step, ne_backslash hlast hback, h.1]
    rw [Returns, after, hstep]
    exact ih h.2

/-- A text with the quotes around it. -/
theorem returns_quoted {q : Char} (hq : q = '\'' ∨ q = '"') {a : List Char}
    (ha : isEscaped q a = true) (d : Nat) : Returns ⟨d, none, false⟩ (q :: (a ++ [q])) := by
  have hne : q ≠ '\\' := by
    rcases hq with rfl | rfl
    · decide
    · decide
  have hopen : step ⟨d, none, false⟩ q = .text ⟨d, some q, false⟩ := by simp [step, hq]
  have hclose : step ⟨d, some q, false⟩ q = .text ⟨d, none, false⟩ := by simp [step, hne]
  rw [Returns, after, hopen]
  dsimp only
  rw [after_append, returns_of_isEscaped ha d, Option.bind_some, after, hclose]
  rfl

theorem Returns.group {a : List Char} {d : Nat} (ha : Returns ⟨d + 1, none, false⟩ a) :
    Returns ⟨d, none, false⟩ ('{' :: (a ++ ['}'])) := by
  have hopen : step ⟨d, none, false⟩ '{' = .brace ⟨d + 1, none, false⟩ := by simp [step]
  have hclose : step ⟨d + 1, none, false⟩ '}' = .brace ⟨d, none, false⟩ := by simp [step]
  rw [Returns, after, hopen]
  dsimp only
  rw [after_append, ha, Option.bind_some, after, hclose]
  rfl

end OptionState

namespace OptionPart

open OptionState

mutual

/-- A reader comes out of a part where it went in. -/
theorem returns_chars : ∀ (p : OptionPart) (d : Nat), Returns ⟨d, none, false⟩ p.chars
  | plain text h, d => by
    rw [chars]
    exact returns_of_plain h d
  | quoted quote hquote text htext, d => by
    rw [chars]
    exact returns_quoted hquote htext d
  | group parts, d => by
    rw [chars]
    exact (returns_charsAll parts (d + 1)).group

/-- A reader comes out of parts in a row where it went in. -/
theorem returns_charsAll : ∀ (ps : List OptionPart) (d : Nat),
    Returns ⟨d, none, false⟩ (charsAll ps)
  | [], _ => by
    rw [charsAll]
    exact returns_nil _
  | p :: ps, d => by
    rw [charsAll]
    exact (returns_chars p d).append (returns_charsAll ps d)

end

theorem IsMadeOf.returns {a : List Char} (ha : IsMadeOf a) (d : Nat) :
    Returns ⟨d, none, false⟩ a := by
  obtain ⟨ps, rfl⟩ := ha
  exact returns_charsAll ps d

/-! ## The top level -/

/-- **The top level is read exactly.**  Of parts and the brace that closes the options, whatever
follows, what stands outside of every group is read, as it is and in order.  Of any text whatever a
part is read, in the same order; a reader that has read it and goes on counts as its depth how many
more groups were opened than closed; and it goes on unless somewhere there were fewer than none. -/
theorem topLevel_exact :
    (∀ (parts : List OptionPart) (rest : List Char),
      topLevel (charsAll parts ++ '}' :: rest) = parts.flatMap outside) ∧
    ∀ body : List Char, (topLevel body).Sublist body ∧
      (∀ s, outer.after body = some s → (s.depth : Int) = outer.level body) ∧
      (outer.after body = none ↔ ∃ front, front <+: body ∧ outer.level front < 0) := by
  have houter : (outer.depth : Int) = 0 := rfl
  refine ⟨topLevel_charsAll_append, fun body => ⟨outer.read_sublist body, fun s hs => ?_, ?_⟩⟩
  · rw [← depth_of_after hs, houter, Int.add_zero]
  · rw [after_eq_none_iff]
    simp only [houter, Int.add_zero]

/-- A name is kept with the braces between its quotes, and a group is left out with the quote and
the group inside of it; in front of that quote the depth is one. -/
theorem topLevel_exact_braced :
    topLevel " name: 'a \x7bb\x7d', args: \x7b x: \"\\\"\x7d\"\x7b\x7d\x7d \x7d %".toList =
      " name: 'a \x7bb\x7d', args:  ".toList ∧
    ∃ s, outer.after " name: 'a \x7bb\x7d', args: \x7b x: ".toList = some s ∧ s.depth = 1 ∧
      outer.level " name: 'a \x7bb\x7d', args: \x7b x: ".toList = 1 := by
  obtain ⟨hparts, hbody⟩ := topLevel_exact
  have hname := hparts [.plain " name: ".toList (by decide),
    .quoted '\'' (Or.inl rfl) "a \x7bb\x7d".toList (by decide),
    .plain ", args: ".toList (by decide),
    .group [.plain " x: ".toList (by decide),
      .quoted '"' (Or.inr rfl) "\\\"\x7d".toList (by decide),
      .group []],
    .plain " ".toList (by decide)] " %".toList
  refine ⟨hname.trans (by decide), ⟨1, none, false⟩, by decide, rfl, ?_⟩
  exact ((hbody _).2.1 ⟨1, none, false⟩ (by decide)).symm

end OptionPart

end ComponentStories.Template
