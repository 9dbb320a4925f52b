import ComponentStories.Proofs.Text.Delimiter
import ComponentStories.Template.Options

/-
# What a reader of options passes over

`OptionState.read` walks through the options of a story.  A text is erased when the reader, inside a
group and outside of quotes, comes out of it where it went in and has kept nothing: `Erased`.  Plain
text, quoted text and groups of erased text are erased, and so is everything that is put together
from them.  Outside of every group, plain and quoted text is `Kept` as it is.
-/

namespace ComponentStories.Template.OptionState

open ComponentStories.Text

/-! ## One character -/

theorem read_cons_of_text {s next : OptionState} {c : Char} (h : s.step c = .text next)
    (r : List Char) : s.read (c :: r) = (if s.depth = 0 then [c] else []) ++ next.read r := by
  rw [read, h]
  dsimp only
  split <;> rfl

theorem read_cons_of_brace {s next : OptionState} {c : Char} (h : s.step c = .brace next)
    (r : List Char) : s.read (c :: r) = next.read r := by
  rw [read, h]

/-- Whether a character is no quote and no brace. -/
def isPlain (c : Char) : Bool := c != '\'' && c != '"' && c != '{' && c != '}'

theorem isPlain_iff {c : Char} :
    isPlain c = true ↔ c ≠ '\'' ∧ c ≠ '"' ∧ c ≠ '{' ∧ c ≠ '}' := by
  simp only [isPlain, Bool.and_eq_true, bne_iff_ne, and_assoc]

/-- A character of a kind that has no quotes and no braces is plain. -/
theorem isPlain_of_kind {p : Char → Bool} {c : Char} (hc : p c = true)
    (hp : ∀ x ∈ ['\'', '"', '{', '}'], p x = false) : isPlain c = true := by
  have hne : ∀ x ∈ ['\'', '"', '{', '}'], c ≠ x := by
    rintro x hx rfl
    rw [hp c hx] at hc
    exact absurd hc (by decide)
  rw [isPlain_iff]
  exact ⟨hne _ (by decide), hne _ (by decide), hne _ (by decide), hne _ (by decide)⟩

/-- A plain character outside of quotes leaves the reader where it is. -/
theorem step_of_isPlain {c : Char} (h : isPlain c = true) (d : Nat) :
    step ⟨d, none, false⟩ c = .text ⟨d, none, false⟩ := by
  obtain ⟨h₁, h₂, h₃, h₄⟩ := isPlain_iff.mp h
  simp [step, h₁, h₂, h₃, h₄]

/-! ## Between quotes -/

/-- The text does not end the quotes around it: a reader between quotes `q` comes out of it as it
went in, and keeps it only outside of every group. -/
def Quotable (q : Char) (a : List Char) : Prop :=
  ∀ d b, read ⟨d, some q, false⟩ (a ++ b) =
    (if d = 0 then a else []) ++ read ⟨d, some q, false⟩ b

theorem quotable_nil (q : Char) : Quotable q [] := by
  intro d b
  simp

theorem Quotable.append {q : Char} {a a' : List Char} (h : Quotable q a) (h' : Quotable q a') :
    Quotable q (a ++ a') := by
  intro d b
  rw [List.append_assoc, h, h']
  split <;> simp

theorem quotable_singleton {q c : Char} (hq : c ≠ q) (he : c ≠ '\\') : Quotable q [c] := by
  intro d b
  have hstep : step ⟨d, some q, false⟩ c = .text ⟨d, some q, false⟩ := by
    simp [step, hq, he]
  rw [List.singleton_append, read_cons_of_text hstep]

theorem quotable_escape (q c : Char) : Quotable q ['\\', c] := by
  intro d b
  have hstep : step ⟨d, some q, false⟩ '\\' = .text ⟨d, some q, true⟩ := by
    simp [step]
  have hnext : step ⟨d, some q, true⟩ c = .text ⟨d, some q, false⟩ := by
    simp [step]
  rw [List.cons_append, read_cons_of_text hstep, List.singleton_append, read_cons_of_text hnext]
  split <;> rfl

theorem quotable_of_notMem {q : Char} {a : List Char} (hq : q ∉ a) (he : '\\' ∉ a) :
    Quotable q a := by
  induction a with
  | nil => exact quotable_nil q
  | cons c a ih =>
    rw [List.mem_cons, not_or] at hq he
    exact (quotable_singleton (Ne.symm hq.1) (Ne.symm he.1)).append (ih hq.2 he.2)

/-- A quoted text is passed over, and is kept only outside of every group. -/
theorem read_quoted {q : Char} (hq : q = '\'' ∨ q = '"') {a : List Char} (ha : Quotable q a)
    (d : Nat) (b : List Char) :
    read ⟨d, none, false⟩ (q :: (a ++ q :: b)) =
      (if d = 0 then q :: (a ++ [q]) else []) ++ read ⟨d, none, false⟩ b := by
  have hne : q ≠ '\\' := by
    rcases hq with rfl | rfl
    · decide
    · decide
  have hopen : step ⟨d, none, false⟩ q = .text ⟨d, some q, false⟩ := by
    simp [step, hq]
  have hclose : step ⟨d, some q, false⟩ q = .text ⟨d, none, false⟩ := by
    simp [step, hne]
  rw [read_cons_of_text hopen, ha, read_cons_of_text hclose]
  split <;> simp

/-! ## Inside a group -/

/-- A reader inside some group and outside of quotes passes over the
text and keeps nothing of it. -/
def Erased (a : List Char) : Prop :=
  ∀ d b, read ⟨d + 1, none, false⟩ (a ++ b) = read ⟨d + 1, none, false⟩ b

theorem erased_nil : Erased [] := fun _ _ => rfl

theorem Erased.append {a a' : List Char} (h : Erased a) (h' : Erased a') : Erased (a ++ a') := by
  intro d b
  rw [List.append_assoc, h, h']

theorem erased_of_plain {a : List Char} (h : ∀ c ∈ a, isPlain c = true) : Erased a := by
  induction a with
  | nil => exact erased_nil
  | cons c a ih =>
    intro d b
    rw [List.cons_append, read_cons_of_text (step_of_isPlain (h c List.mem_cons_self) (d + 1))]
    exact ih (fun e he => h e (List.mem_cons_of_mem c he)) d b

theorem erased_quoted {q : Char} (hq : q = '\'' ∨ q = '"') {a : List Char} (ha : Quotable q a) :
    Erased (q :: (a ++ [q])) := by
  intro d b
  rw [List.cons_append, List.append_assoc, List.singleton_append, read_quoted hq ha]
  simp

/-- A group of erased text is passed over at every depth. -/
theorem read_group {a : List Char} (ha : Erased a) (d : Nat) (b : List Char) :
    read ⟨d, none, false⟩ ('{' :: (a ++ '}' :: b)) = read ⟨d, none, false⟩ b := by
  have hopen : step ⟨d, none, false⟩ '{' = .brace ⟨d + 1, none, false⟩ := by
    simp [step]
  have hclose : step ⟨d + 1, none, false⟩ '}' = .brace ⟨d, none, false⟩ := by
    simp [step]
  rw [read_cons_of_brace hopen, ha, read_cons_of_brace hclose]

theorem Erased.group {a : List Char} (ha : Erased a) : Erased ('{' :: (a ++ ['}'])) := by
  intro d b
  rw [List.cons_append, List.append_assoc, List.singleton_append, read_group ha]

/-! ## Outside of every group -/

/-- A reader outside of every group and every quote keeps the text and
comes out of it as it went in. -/
def Kept (a : List Char) : Prop := ∀ b, outer.read (a ++ b) = a ++ outer.read b

theorem kept_nil : Kept [] := fun _ => rfl

theorem Kept.append {a a' : List Char} (h : Kept a) (h' : Kept a') : Kept (a ++ a') := by
  intro b
  rw [List.append_assoc, h, h', List.append_assoc]

theorem kept_of_plain {a : List Char} (h : ∀ c ∈ a, isPlain c = true) : Kept a := by
  induction a with
  | nil => exact kept_nil
  | cons c a ih =>
    intro b
    rw [List.cons_append, outer, read_cons_of_text (step_of_isPlain (h c List.mem_cons_self) 0),
      if_pos rfl, List.singleton_append, List.cons_append, ← outer,
      ih (fun e he => h e (List.mem_cons_of_mem c he)) b]

theorem kept_quoted {q : Char} (hq : q = '\'' ∨ q = '"') {a : List Char} (ha : Quotable q a) :
    Kept (q :: (a ++ [q])) := by
  intro b
  have h := read_quoted hq ha 0 b
  rw [if_pos rfl] at h
  rw [List.cons_append, List.append_assoc, List.singleton_append]
  exact h

theorem read_close (b : List Char) : outer.read ('}' :: b) = [] := rfl

/-! ## Parts of a text -/

/-- What is read of a text begins with what is read of its beginning. -/
theorem read_prefix {a b : List Char} (h : a <+: b) (s : OptionState) : s.read a <+: s.read b := by
  obtain ⟨r, rfl⟩ := h
  induction a generalizing s with
  | nil => exact List.nil_prefix
  | cons c a ih =>
    rw [List.cons_append, read, read]
    cases s.step c with
    | text next =>
      dsimp only
      split
      · exact (List.prefix_cons_inj c).mpr (ih next)
      · exact ih next
    | brace next => exact ih next
    | closed => exact List.nil_prefix

/-- Where a reader stands behind a text; nowhere if the text closes the options. -/
def after (s : OptionState) : List Char → Option OptionState
  | [] => some s
  | c :: r =>
    match s.step c with
    | .text next => next.after r
    | .brace next => next.after r
    | .closed => none

/-- A text is read in two parts. -/
theorem read_append (s : OptionState) (a b : List Char) :
    s.read (a ++ b) = s.read a ++ ((s.after a).map fun t => t.read b).getD [] := by
  induction a generalizing s with
  | nil => rfl
  | cons c a ih =>
    rw [List.cons_append, read, read, after]
    cases s.step c with
    | text next =>
      dsimp only
      split
      · rw [ih next, List.cons_append]
      · exact ih next
    | brace next => exact ih next
    | closed => rfl

/-- A state that a reader comes to: only a quote can be open, and only between quotes does a
backslash stand in front. -/
structure Sound (s : OptionState) : Prop where
  /-- What is open is a quote. -/
  quote : ∀ q ∈ s.quote, q = '\'' ∨ q = '"'
  /-- No backslash stands in front outside of quotes. -/
  escaped : s.quote = none → s.escaped = false

theorem sound_outer : outer.Sound := ⟨fun _ hq => absurd hq (by simp [outer]), fun _ => rfl⟩

/-- A step between quotes reads text, and stays between the quotes or leaves them. -/
theorem step_quoted (d : Nat) (q : Char) (e : Bool) (c : Char) :
    ∃ t, step ⟨d, some q, e⟩ c = .text t ∧
      (t.quote = some q ∨ (t.quote = none ∧ t.escaped = false)) := by
  cases e with
  | true => exact ⟨⟨d, some q, false⟩, by simp [step], Or.inl rfl⟩
  | false =>
    by_cases hback : c = '\\'
    · exact ⟨⟨d, some q, true⟩, by simp [step, hback], Or.inl rfl⟩
    · by_cases hquote : c = q
      · refine ⟨⟨d, none, false⟩, ?_, Or.inr ⟨rfl, rfl⟩⟩
        simp only [step, if_neg hback, if_pos hquote, Bool.false_eq_true, if_false]
      · exact ⟨⟨d, some q, false⟩, by simp [step, hback, hquote], Or.inl rfl⟩

/-- A step outside of quotes closes the options, or leads to a state without a backslash in front,
in which at most the quote that was read is open. -/
theorem step_unquoted (d : Nat) (c : Char) :
    step ⟨d, none, false⟩ c = .closed ∨
      ∃ t, (step ⟨d, none, false⟩ c = .text t ∨ step ⟨d, none, false⟩ c = .brace t) ∧
        t.escaped = false ∧ ∀ q ∈ t.quote, q = '\'' ∨ q = '"' := by
  have hnone : ∀ q ∈ (none : Option Char), q = '\'' ∨ q = '"' := fun q hq => absurd hq (by simp)
  by_cases hquote : c = '\'' ∨ c = '"'
  · right
    refine ⟨⟨d, some c, false⟩, Or.inl (by simp [step, hquote]), rfl, ?_⟩
    intro q hq
    rw [← Option.some.inj hq]
    exact hquote
  by_cases hopen : c = '{'
  · exact Or.inr ⟨⟨d + 1, none, false⟩, Or.inr (by simp [step, hopen]), rfl, hnone⟩
  by_cases hclose : c = '}'
  · cases d with
    | zero => exact Or.inl (by simp [step, hclose])
    | succ d => exact Or.inr ⟨⟨d, none, false⟩, Or.inr (by simp [step, hclose]), rfl, hnone⟩
  · exact Or.inr ⟨⟨d, none, false⟩, Or.inl (by simp [step, hquote, hopen, hclose]), rfl, hnone⟩

/-- **One step leads from a sound state to a sound one.** -/
theorem Sound.step {s t : OptionState} (hs : s.Sound) {c : Char}
    (h : s.step c = .text t ∨ s.step c = .brace t) : t.Sound := by
  obtain ⟨d, q, e⟩ := s
  -- the state behind the character is the one that the two lemmas above name
  cases q with
  | some q =>
    obtain ⟨u, hu, hquote⟩ := step_quoted d q e c
    have htext : u = t := by
      rw [hu] at h
      rcases h with h | h
      · exact Step.text.inj h
      · exact absurd h (by simp)
    subst htext
    rcases hquote with hquote | ⟨hquote, hescaped⟩
    · constructor
      · rw [hquote]
        exact hs.quote
      · rw [hquote]
        exact fun hnone => absurd hnone (by simp)
    · constructor
      · rw [hquote]
        exact fun p hp => absurd hp (by simp)
      · exact fun _ => hescaped
  | none =>
    obtain rfl : e = false := hs.escaped rfl
    rcases step_unquoted d c with hclosed | ⟨u, hu, hescaped, hquote⟩
    · rw [hclosed] at h
      exact absurd h (by simp)
    · have hstate : u = t := by
        rcases hu with hu | hu <;> rcases h with h | h
        · exact Step.text.inj (hu.symm.trans h)
        · exact absurd (hu.symm.trans h) (by simp)
        · exact absurd (hu.symm.trans h) (by simp)
        · exact Step.brace.inj (hu.symm.trans h)
      subst hstate
      exact ⟨hquote, fun _ => hescaped⟩

/-- A reader that comes out of a text has made a step over its first character. -/
theorem exists_step_of_after {s t : OptionState} {c : Char} {r : List Char}
    (h : s.after (c :: r) = some t) :
    ∃ next, (s.step c = .text next ∨ s.step c = .brace next) ∧ next.after r = some t := by
  rw [after] at h
  cases hstep : s.step c with
  | text next =>
    rw [hstep] at h
    exact ⟨next, Or.inl rfl, h⟩
  | brace next =>
    rw [hstep] at h
    exact ⟨next, Or.inr rfl, h⟩
  | closed =>
    rw [hstep] at h
    exact absurd h (by simp)

/-- A run leads from a sound state to a sound one. -/
theorem Sound.after {s t : OptionState} (hs : s.Sound) {a : List Char} (h : s.after a = some t) :
    t.Sound := by
  induction a generalizing s with
  | nil =>
    obtain rfl : s = t := Option.some.inj h
    exact hs
  | cons c a ih =>
    obtain ⟨next, hstep, hnext⟩ := exists_step_of_after h
    exact ih (hs.step hstep) hnext

/-- No backslash stands in front behind a blank. -/
theorem escaped_after_blank {s t : OptionState} (hs : s.Sound) {a : List Char}
    (h : s.after (a ++ [' ']) = some t) : t.escaped = false := by
  induction a generalizing s with
  | nil =>
    obtain ⟨d, q, e⟩ := s
    cases q with
    | none =>
      obtain rfl : e = false := hs.escaped rfl
      obtain rfl : ⟨d, none, false⟩ = t := Option.some.inj h
      rfl
    | some q =>
      -- a blank is no quote, and takes away the backslash in front of it
      have hq : ' ' ≠ q := by
        rcases hs.quote q rfl with rfl | rfl
        · decide
        · decide
      have hstep : OptionState.step ⟨d, some q, e⟩ ' ' = .text ⟨d, some q, false⟩ := by
        cases e with
        | true => rfl
        | false => simp [OptionState.step, hq]
      rw [List.nil_append, OptionState.after, hstep] at h
      obtain rfl : ⟨d, some q, false⟩ = t := Option.some.inj h
      rfl
  | cons c a ih =>
    obtain ⟨next, hstep, hnext⟩ := exists_step_of_after h
    exact ih (hs.step hstep) hnext

/-! ## A group at the end -/

/-- Between quotes a group of plain text is text like any other. -/
theorem read_quoted_group {q : Char} (hq : q = '\'' ∨ q = '"') {x : List Char}
    (hx : ∀ c ∈ x, isPlain c = true ∧ c ≠ '\\') (d : Nat) :
    read ⟨d, some q, false⟩ ('{' :: (x ++ ['}', ' '])) =
      if d = 0 then '{' :: (x ++ ['}', ' ']) else [] := by
  have hown : ∀ c ∈ '{' :: (x ++ ['}', ' ']), c ≠ '\'' ∧ c ≠ '"' ∧ c ≠ '\\' := by
    intro c hc
    simp only [List.mem_cons, List.mem_append, List.not_mem_nil, or_false] at hc
    rcases hc with rfl | hc | rfl | rfl
    · decide
    · obtain ⟨hplain, hback⟩ := hx c hc
      obtain ⟨hsingle, hdouble, -, -⟩ := isPlain_iff.mp hplain
      exact ⟨hsingle, hdouble, hback⟩
    · decide
    · decide
  have hquote : q ∉ '{' :: (x ++ ['}', ' ']) := by
    intro hmem
    rcases hq with rfl | rfl
    · exact (hown _ hmem).1 rfl
    · exact (hown _ hmem).2.1 rfl
  have hback : '\\' ∉ '{' :: (x ++ ['}', ' ']) := fun hmem => (hown _ hmem).2.2 rfl
  have h := quotable_of_notMem hquote hback d []
  rw [List.append_nil] at h
  rw [h]
  exact List.append_nil _

/-- A group of plain text at the end is kept as it is, or does not matter at all.  Which of the two
is settled by the text in front of it. -/
theorem read_group_cases (a : List Char) :
    (∀ x, (∀ c ∈ x, isPlain c = true ∧ c ≠ '\\') →
      outer.read (a ++ [' '] ++ '{' :: (x ++ ['}', ' '])) =
        outer.read (a ++ [' ']) ++ '{' :: (x ++ ['}', ' '])) ∨
    ∃ kept, ∀ x, (∀ c ∈ x, isPlain c = true ∧ c ≠ '\\') →
      outer.read (a ++ [' '] ++ '{' :: (x ++ ['}', ' '])) = kept := by
  cases hafter : outer.after (a ++ [' ']) with
  | none =>
    -- the options are closed in front of the group
    right
    refine ⟨outer.read (a ++ [' ']), fun x _ => ?_⟩
    rw [read_append, hafter, Option.map_none, Option.getD_none, List.append_nil]
  | some t =>
    have hescaped := escaped_after_blank sound_outer hafter
    have hsound := sound_outer.after hafter
    obtain ⟨d, q, e⟩ := t
    obtain rfl : e = false := hescaped
    cases q with
    | none =>
      -- the group is one more nested group
      right
      refine ⟨outer.read (a ++ [' ']) ++ read ⟨d, none, false⟩ [' '], fun x hx => ?_⟩
      have herased : Erased x := erased_of_plain fun c hc => (hx c hc).1
      rw [read_append, hafter, Option.map_some, Option.getD_some]
      exact congrArg _ (read_group herased d [' '])
    | some q =>
      have hquote := hsound.quote q rfl
      by_cases hd : d = 0
      · left
        intro x hx
        rw [read_append, hafter, Option.map_some, Option.getD_some, read_quoted_group hquote hx d,
          if_pos hd]
      · right
        refine ⟨outer.read (a ++ [' ']), fun x hx => ?_⟩
        rw [read_append, hafter, Option.map_some, Option.getD_some, read_quoted_group hquote hx d,
          if_neg hd, List.append_nil]

end ComponentStories.Template.OptionState
