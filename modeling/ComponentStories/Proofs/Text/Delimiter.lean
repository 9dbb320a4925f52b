import ComponentStories.Text.Blank
import Mathlib.Data.List.Infix

/-
# Delimiters of two characters in a text

The tags of a template stand between `{%` and `%}`.  Whether such a pair of characters occurs in a
text is a question about its neighbours, so it is answered from the front: a character that is not
the first of the pair can be dropped, and text that is rewritten character by character gains no
pair as long as the characters that are rewritten are replaced by others (`pair_infix_flatMap`).  A
text is inert if it makes no pair with its neighbours either, so that inert texts can be put
together.
-/

namespace ComponentStories.Text

variable {x y : Char}

/-! ## Every character of a text -/

/-- Whether all characters of a text are of a kind is decided by going through the text,
not through all characters. -/
instance (priority := 2000) decidableForallMem {p : Char → Prop} [DecidablePred p] (s : List Char) :
    Decidable (∀ c ∈ s, p c) :=
  List.decidableBAll p s

/-- A character of another kind is not in a text whose characters are all of one kind. -/
theorem notMem_of_forall {p : Char → Bool} {s : List Char} (h : ∀ c ∈ s, p c = true) {c : Char}
    (hc : p c = false) : c ∉ s := by
  intro hmem
  rw [h c hmem] at hc
  exact absurd hc (by decide)

/-! ## Joined texts -/

/-- What two texts in a row keep holds of joined texts. -/
theorem join_induction {P : List Char → Prop} (hnil : P [])
    (happend : ∀ a b, P a → P b → P (a ++ b)) {sep : List Char} (hsep : P sep) :
    ∀ ts : List (List Char), (∀ t ∈ ts, P t) → P (join sep ts)
  | [], _ => hnil
  | [t], h => h t List.mem_cons_self
  | t :: u :: r, h => by
    rw [join]
    apply happend
    · exact happend _ _ (h t List.mem_cons_self) hsep
    · exact join_induction hnil happend hsep (u :: r) fun v hv => h v (List.mem_cons_of_mem t hv)

/-- A character of joined texts is one of the separator or of a text. -/
theorem notMem_join {c : Char} {sep : List Char} (hsep : c ∉ sep) {ts : List (List Char)}
    (h : ∀ t ∈ ts, c ∉ t) : c ∉ join sep ts := by
  refine join_induction (P := fun a => c ∉ a) List.not_mem_nil ?_ hsep ts h
  intro a b ha hb
  rw [List.mem_append, not_or]
  exact ⟨ha, hb⟩

/-! ## A pair of neighbours -/

/-- A pair stands at the front of a text or further on. -/
theorem pair_infix_cons {c : Char} {s : List Char} :
    [x, y] <:+: c :: s ↔ (x = c ∧ s.head? = some y) ∨ [x, y] <:+: s := by
  rw [List.infix_cons_iff, List.cons_prefix_cons]
  constructor
  · rintro (⟨hc, r, hr⟩ | h)
    · left
      refine ⟨hc, ?_⟩
      rw [← hr]
      rfl
    · exact Or.inr h
  · rintro (⟨hc, hs⟩ | h)
    · left
      refine ⟨hc, ?_⟩
      cases s with
      | nil => simp at hs
      | cons d s =>
        rw [List.head?_cons, Option.some.injEq] at hs
        exact ⟨s, by rw [hs]; rfl⟩
    · exact Or.inr h

/-- A character that is not the first of the pair can be dropped. -/
theorem pair_infix_cons_of_ne {c : Char} {s : List Char} (h : c ≠ x) :
    [x, y] <:+: c :: s ↔ [x, y] <:+: s := by
  rw [pair_infix_cons]
  constructor
  · rintro (⟨hc, -⟩ | hs)
    · exact absurd hc.symm h
    · exact hs
  · exact Or.inr

/-- Text without the first character of the pair can be dropped. -/
theorem pair_infix_append_of_notMem {a s : List Char} (h : x ∉ a) :
    [x, y] <:+: a ++ s ↔ [x, y] <:+: s := by
  induction a with
  | nil => rfl
  | cons c a ih =>
    rw [List.mem_cons, not_or] at h
    rw [List.cons_append, pair_infix_cons_of_ne (Ne.symm h.1), ih h.2]

/-- A pair does not reach over a character that is not its second. -/
theorem pair_infix_append_cons {q : Char} {a s : List Char} (h : q ≠ y) :
    [x, y] <:+: a ++ q :: s ↔ [x, y] <:+: a ∨ [x, y] <:+: q :: s := by
  induction a with
  | nil => simp
  | cons c a ih =>
    -- a pair that begins with `c` ends inside `a`, for `q` does not end it
    have hhead : (a ++ q :: s).head? = some y ↔ a.head? = some y := by
      cases a with
      | nil => simp [h]
      | cons d a => rfl
    rw [List.cons_append, pair_infix_cons, pair_infix_cons, hhead, ih, or_assoc]

/-! ## Rewriting character by character -/

/-- A rewriting that keeps a character or replaces it by others does not make the pair. -/
theorem pair_infix_flatMap {f : Char → List Char} {s : List Char}
    (hf : ∀ c, f c = [c] ∨ (x ∉ f c ∧ y ∉ f c ∧ f c ≠ []))
    (h : [x, y] <:+: s.flatMap f) : [x, y] <:+: s := by
  induction s with
  | nil => simp at h
  | cons c s ih =>
    rw [List.flatMap_cons] at h
    rcases hf c with hc | ⟨hx, -, -⟩
    · rw [hc, List.singleton_append, pair_infix_cons] at h
      rcases h with ⟨rfl, hhead⟩ | h
      · -- the second of the pair is the first of what the next character becomes
        refine pair_infix_cons.mpr (Or.inl ⟨rfl, ?_⟩)
        cases s with
        | nil => simp at hhead
        | cons d s =>
          rw [List.flatMap_cons] at hhead
          rcases hf d with hd | ⟨-, hy, hne⟩
          · rw [hd] at hhead
            simpa using hhead
          · cases hfd : f d with
            | nil => exact absurd hfd hne
            | cons e t =>
              rw [hfd, List.cons_append, List.head?_cons, Option.some.injEq] at hhead
              exact absurd (by rw [hfd, hhead]; exact List.mem_cons_self) hy
      · exact pair_infix_cons.mpr (Or.inr (ih h))
    · rw [pair_infix_append_of_notMem hx] at h
      exact pair_infix_cons.mpr (Or.inr (ih h))

/-! ## Texts without delimiters -/

/-- The text holds neither `{%` nor `%}`. -/
def TagFree (s : List Char) : Prop := ¬ ['{', '%'] <:+: s ∧ ¬ ['%', '}'] <:+: s

instance (s : List Char) : Decidable (TagFree s) := inferInstanceAs (Decidable (_ ∧ _))

theorem TagFree.of_infix {a s : List Char} (h : TagFree s) (ha : a <:+: s) : TagFree a :=
  ⟨fun h' => h.1 (h'.trans ha), fun h' => h.2 (h'.trans ha)⟩

theorem tagFree_cons {c : Char} {s : List Char} (h₁ : c ≠ '{') (h₂ : c ≠ '%') :
    TagFree (c :: s) ↔ TagFree s := by
  rw [TagFree, TagFree, pair_infix_cons_of_ne h₁, pair_infix_cons_of_ne h₂]

theorem tagFree_brace {s : List Char} :
    TagFree ('{' :: s) ↔ s.head? ≠ some '%' ∧ TagFree s := by
  rw [TagFree, TagFree, pair_infix_cons, pair_infix_cons_of_ne (x := '%') (by decide)]
  tauto

/-- A delimiter does not reach over a character that ends none. -/
theorem tagFree_append_cons {q : Char} {a s : List Char} (h₁ : q ≠ '%') (h₂ : q ≠ '}') :
    TagFree (a ++ q :: s) ↔ TagFree a ∧ TagFree (q :: s) := by
  rw [TagFree, TagFree, TagFree, pair_infix_append_cons h₁, pair_infix_append_cons h₂]
  tauto

/-- A rewriting that keeps a character or replaces it by others than those of the delimiters brings
no delimiter into a text. -/
theorem tagFree_flatMap {f : Char → List Char}
    (hf : ∀ c, f c = [c] ∨ (f c ≠ [] ∧ ∀ x ∈ f c, x ≠ '{' ∧ x ≠ '%' ∧ x ≠ '}')) {s : List Char}
    (h : TagFree s) : TagFree (s.flatMap f) := by
  constructor
  · intro hpair
    refine h.1 (pair_infix_flatMap (fun c => ?_) hpair)
    rcases hf c with hc | ⟨hne, hx⟩
    · exact Or.inl hc
    · exact Or.inr ⟨fun hm => (hx _ hm).1 rfl, fun hm => (hx _ hm).2.1 rfl, hne⟩
  · intro hpair
    refine h.2 (pair_infix_flatMap (fun c => ?_) hpair)
    rcases hf c with hc | ⟨hne, hx⟩
    · exact Or.inl hc
    · exact Or.inr ⟨fun hm => (hx _ hm).2.1 rfl, fun hm => (hx _ hm).2.2 rfl, hne⟩

/-! ## Texts that make no delimiter with what follows -/

/-- The text makes no delimiter of tags, neither by itself nor together with its neighbours. -/
def Inert (a : List Char) : Prop := a.head? ≠ some '%' ∧ ∀ r, TagFree r → TagFree (a ++ r)

theorem inert_nil : Inert [] := ⟨by simp, fun _ h => h⟩

theorem Inert.append {a b : List Char} (ha : Inert a) (hb : Inert b) : Inert (a ++ b) := by
  constructor
  · cases a with
    | nil => exact hb.1
    | cons c a => exact ha.1
  · intro r hr
    rw [List.append_assoc]
    exact ha.2 _ (hb.2 r hr)

/-- An inert text holds no delimiter. -/
theorem Inert.tagFree {a : List Char} (ha : Inert a) : TagFree a := by
  have h := ha.2 [] (by decide)
  rwa [List.append_nil] at h

/-- Text without braces that open and without percent signs. -/
theorem inert_of_notMem {a : List Char} (h₁ : '{' ∉ a) (h₂ : '%' ∉ a) : Inert a := by
  constructor
  · intro h
    exact h₂ (List.mem_of_mem_head? h)
  · intro r hr
    rw [TagFree, pair_infix_append_of_notMem h₁, pair_infix_append_of_notMem h₂]
    exact hr

/-- Text without delimiters between two quotes. -/
theorem inert_quoted {q : Char} (hq : q = '\'' ∨ q = '"') {a : List Char} (ha : TagFree a) :
    Inert (q :: (a ++ [q])) := by
  have hne : q ≠ '{' ∧ q ≠ '%' ∧ q ≠ '}' := by
    rcases hq with rfl | rfl
    · decide
    · decide
  constructor
  · rw [List.head?_cons, ne_eq, Option.some.injEq]
    exact hne.2.1
  · intro r hr
    rw [List.cons_append, List.append_assoc, List.singleton_append, tagFree_cons hne.1 hne.2.1,
      tagFree_append_cons hne.2.1 hne.2.2, tagFree_cons hne.1 hne.2.1]
    exact ⟨ha, hr⟩

/-- Inert text between braces. -/
theorem Inert.group {a : List Char} (ha : Inert a) : Inert ('{' :: (a ++ ['}'])) := by
  constructor
  · simp
  · intro r hr
    rw [List.cons_append, List.append_assoc, List.singleton_append, tagFree_brace]
    constructor
    · -- no percent sign stands behind the brace that opens
      cases a with
      | nil => simp
      | cons c a => exact ha.1
    · exact ha.2 _ ((tagFree_cons (by decide) (by decide)).mpr hr)

end ComponentStories.Text
