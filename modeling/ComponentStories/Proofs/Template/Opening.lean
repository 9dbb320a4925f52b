import ComponentStories.Proofs.Text.Delimiter
import ComponentStories.Template.Reader

/-
# Openings of tags

`openTag?` reads the opening of a tag, from `{%` to the brace in front of its options.  Here its
result is told without the reader: `Opens keyword id t` says that the text `t` is such an opening,
and `openTag?_eq_some_iff` that the reader finds exactly these at the front.  An opening is made of
few kinds of characters and ends with a brace, so it never reaches over a quote, a comma or a colon
(`openTag?_append_of_guarded`).
-/

namespace ComponentStories.Template

open ComponentStories.Text

/-! ## Blanks and words at the front -/

/-- Every character is blank. -/
def AllBlank (b : List Char) : Prop := ∀ c ∈ b, isBlank c = true

instance (b : List Char) : Decidable (AllBlank b) := inferInstanceAs (Decidable (∀ c ∈ b, _))

/-- A word: at least one letter, digit or underscore and nothing else. -/
def IsWord (w : List Char) : Prop := w ≠ [] ∧ ∀ c ∈ w, isWord c = true

instance (w : List Char) : Decidable (IsWord w) := inferInstanceAs (Decidable (_ ∧ _))

theorem IsWord.notMem {w : List Char} (hw : IsWord w) {c : Char} (hc : isWord c = false) : c ∉ w :=
  notMem_of_forall hw.2 hc

/-- Blanks are skipped up to a character that is none. -/
theorem skipBlanks_append {b s : List Char} (hb : AllBlank b)
    (hs : ∀ c ∈ s.head?, isBlank c = false) : skipBlanks (b ++ s) = s := by
  rw [skipBlanks, List.dropWhile_append_of_pos hb]
  cases s with
  | nil => rfl
  | cons c s => exact List.dropWhile_cons_of_neg (by rw [hs c rfl]; decide)

theorem exists_eq_append_skipBlanks (s : List Char) : ∃ b, AllBlank b ∧ s = b ++ skipBlanks s :=
  ⟨s.takeWhile isBlank, fun _ hc => of_mem_takeWhile hc, List.takeWhile_append_dropWhile.symm⟩

/-- Some blanks are skipped up to a character that is none. -/
theorem skipSomeBlanks?_append {b s : List Char} (hb : AllBlank b) (hne : b ≠ [])
    (hs : ∀ c ∈ s.head?, isBlank c = false) : skipSomeBlanks? (b ++ s) = some s := by
  cases b with
  | nil => exact absurd rfl hne
  | cons c b =>
    rw [List.cons_append, skipSomeBlanks?, if_pos (hb c List.mem_cons_self),
      skipBlanks_append (fun d hd => hb d (List.mem_cons_of_mem c hd)) hs]

/-- What is skipped is blank, and is not nothing. -/
theorem exists_eq_append_of_skipSomeBlanks? {s r : List Char} (h : skipSomeBlanks? s = some r) :
    ∃ b, AllBlank b ∧ b ≠ [] ∧ s = b ++ r := by
  cases s with
  | nil => simp [skipSomeBlanks?] at h
  | cons c s =>
    rw [skipSomeBlanks?] at h
    split at h
    · rename_i hc
      obtain ⟨b, hb, hs⟩ := exists_eq_append_skipBlanks s
      rw [Option.some.injEq] at h
      refine ⟨c :: b, ?_, List.cons_ne_nil c b, ?_⟩
      · intro d hd
        rcases List.mem_cons.mp hd with rfl | hd
        · exact hc
        · exact hb d hd
      · rw [List.cons_append, ← h, ← hs]
    · simp at h

/-- A word is read up to a character that belongs to no word. -/
theorem word?_append {w s : List Char} (hw : IsWord w) (hs : ∀ c ∈ s.head?, isWord c = false) :
    word? (w ++ s) = some (w, s) := by
  have hstop : s.takeWhile isWord = [] ∧ s.dropWhile isWord = s := by
    cases s with
    | nil => exact ⟨rfl, rfl⟩
    | cons c s =>
      have hc : ¬ isWord c = true := by rw [hs c rfl]; decide
      exact ⟨List.takeWhile_cons_of_neg hc, List.dropWhile_cons_of_neg hc⟩
  have htake : (w ++ s).takeWhile isWord = w := by
    rw [List.takeWhile_append_of_pos hw.2, hstop.1, List.append_nil]
  have hdrop : (w ++ s).dropWhile isWord = s := by
    rw [List.dropWhile_append_of_pos hw.2, hstop.2]
  rw [word?, htake, hdrop]
  cases w with
  | nil => exact absurd rfl hw.1
  | cons c w => rfl

/-- What is read as a word is one, and stands in front of what is left. -/
theorem isWord_of_word? {s w r : List Char} (h : word? s = some (w, r)) :
    IsWord w ∧ s = w ++ r := by
  have hs : s.takeWhile isWord ++ s.dropWhile isWord = s := List.takeWhile_append_dropWhile
  rw [word?] at h
  split at h
  · simp at h
  · rename_i hne
    simp only [Option.some.injEq, Prod.mk.injEq] at h
    obtain ⟨rfl, rfl⟩ := h
    exact ⟨⟨hne, fun _ hc => of_mem_takeWhile hc⟩, hs.symm⟩

@[simp] theorem dropLead?_append (lead s : List Char) : dropLead? lead (lead ++ s) = some s :=
  dropLead?_eq_some_iff.mpr rfl

/-! ## The shape of an opening -/

/-- The opening of a tag of a keyword and an identifier, up to the brace of its options. -/
inductive Opens (keyword id : List Char) : List Char → Prop
  /-- The delimiter, the keyword, the identifier, `with` and the brace, and blanks between them. -/
  | intro (dash b₁ b₂ b₃ b₄ : List Char) (hdash : dash = [] ∨ dash = ['-']) (h₁ : AllBlank b₁)
      (h₂ : AllBlank b₂ ∧ b₂ ≠ []) (hid : IsWord id) (h₃ : AllBlank b₃ ∧ b₃ ≠ [])
      (h₄ : AllBlank b₄) :
      Opens keyword id
        (['{', '%'] ++ (dash ++ (b₁ ++ (keyword ++ (b₂ ++ (id ++ (b₃ ++ ("with".toList ++
          (b₄ ++ ['{'])))))))))

theorem isWord_story : IsWord "story".toList := by decide

theorem isWord_stories : IsWord "stories".toList := by decide

/-- No text after a word begins with a blank or a hyphen. -/
theorem head?_word_append {w s : List Char} (hw : IsWord w) :
    ∀ c ∈ (w ++ s).head?, isBlank c = false ∧ c ≠ '-' := by
  intro c hc
  cases w with
  | nil => exact absurd rfl hw.1
  | cons d w =>
    rw [List.cons_append, List.head?_cons, Option.mem_some_iff] at hc
    have hd : isWord c = true := hc ▸ hw.2 d List.mem_cons_self
    refine ⟨isBlank_eq_false_of_isWord hd, ?_⟩
    rintro rfl
    exact absurd hd (by decide)

/-- No text after blanks, of which there is at least one, begins with a character of a word. -/
theorem head?_blank_append {b s : List Char} (hb : AllBlank b) (hne : b ≠ []) :
    ∀ c ∈ (b ++ s).head?, isWord c = false := by
  intro c hc
  cases b with
  | nil => exact absurd rfl hne
  | cons d b =>
    rw [List.cons_append, List.head?_cons, Option.mem_some_iff] at hc
    have hd : isBlank c = true := hc ▸ hb d List.mem_cons_self
    by_contra hw
    rw [isBlank_eq_false_of_isWord (by simpa using hw)] at hd
    exact absurd hd (by decide)

/-- A hyphen behind the delimiter is passed over, and nothing else is. -/
theorem dropLead?_dash {dash b s : List Char} (hdash : dash = [] ∨ dash = ['-']) (hb : AllBlank b)
    (hs : ∀ c ∈ s.head?, c ≠ '-') :
    (dropLead? ['-'] (dash ++ (b ++ s))).getD (dash ++ (b ++ s)) = b ++ s := by
  rcases hdash with rfl | rfl
  · have hnone : dropLead? ['-'] (b ++ s) = none := by
      rw [Option.eq_none_iff_forall_ne_some]
      intro r hr
      rw [dropLead?_eq_some_iff] at hr
      cases b with
      | nil => exact hs '-' (by rw [List.nil_append] at hr; rw [hr]; rfl) rfl
      | cons d b =>
        have hd : d = '-' := (List.cons.inj hr).1
        have hblank := hb d List.mem_cons_self
        rw [hd] at hblank
        exact absurd hblank (by decide)
    rw [List.nil_append, hnone, Option.getD_none]
  · rfl

/-- An opening in front of any text is read, and the text is left. -/
theorem openTag?_append {keyword id t : List Char} (hk : IsWord keyword)
    (ht : Opens keyword id t) (r : List Char) : openTag? keyword (t ++ r) = some (id, r) := by
  obtain ⟨dash, b₁, b₂, b₃, b₄, hdash, h₁, h₂, hid, h₃, h₄⟩ := ht
  have hbrace : ∀ c ∈ (['{'] ++ r).head?, isBlank c = false := by
    intro c hc
    rw [List.singleton_append, List.head?_cons, Option.mem_some_iff] at hc
    rw [← hc]
    decide
  have hwith : ∀ c ∈ ("with".toList ++ (b₄ ++ (['{'] ++ r))).head?, isBlank c = false := by
    intro c hc
    exact (head?_word_append (w := "with".toList) (by decide) c hc).1
  have hkey := head?_word_append
    (s := b₂ ++ (id ++ (b₃ ++ ("with".toList ++ (b₄ ++ (['{'] ++ r)))))) hk
  simp only [List.append_assoc, openTag?, Option.bind_eq_bind]
  -- every part is read up to the first character of the next one
  rw [dropLead?_append, Option.bind_some, dropLead?_dash hdash h₁ (fun c hc => (hkey c hc).2),
    skipBlanks_append h₁ (fun c hc => (hkey c hc).1), dropLead?_append, Option.bind_some,
    skipSomeBlanks?_append h₂.1 h₂.2 (fun c hc => (head?_word_append hid c hc).1),
    Option.bind_some, word?_append hid (head?_blank_append h₃.1 h₃.2), Option.bind_some,
    skipSomeBlanks?_append h₃.1 h₃.2 hwith, Option.bind_some, dropLead?_append, Option.bind_some,
    skipBlanks_append h₄ hbrace, dropLead?_append]
  rfl

/-- What is read as the opening of a tag is one, and stands in front of what is left. -/
theorem opens_of_openTag? {keyword s id r : List Char} (h : openTag? keyword s = some (id, r)) :
    ∃ t, Opens keyword id t ∧ s = t ++ r := by
  simp only [openTag?, Option.bind_eq_bind, Option.bind_eq_some_iff] at h
  obtain ⟨s₁, e₁, s₂, e₂, s₃, e₃, ⟨w, s₄⟩, e₄, s₅, e₅, s₆, e₆, s₇, e₇, e₈⟩ := h
  simp only [pure, Option.some.injEq, Prod.mk.injEq] at e₈
  obtain ⟨rfl, rfl⟩ := e₈
  dsimp only at e₅
  -- what each step of the reader has taken away stands in front of what it has left
  rw [dropLead?_eq_some_iff] at e₁ e₂ e₆ e₇
  obtain ⟨b₂, h₂, hne₂, e₃⟩ := exists_eq_append_of_skipSomeBlanks? e₃
  obtain ⟨hid, e₄⟩ := isWord_of_word? e₄
  obtain ⟨b₃, h₃, hne₃, e₅⟩ := exists_eq_append_of_skipSomeBlanks? e₅
  obtain ⟨b₄, h₄, e₄'⟩ := exists_eq_append_skipBlanks s₆
  obtain ⟨b₁, h₁, e₁'⟩ := exists_eq_append_skipBlanks ((dropLead? ['-'] s₁).getD s₁)
  have hdash : ∃ dash, (dash = [] ∨ dash = ['-']) ∧ s₁ = dash ++ (dropLead? ['-'] s₁).getD s₁ := by
    cases hd : dropLead? ['-'] s₁ with
    | none => exact ⟨[], Or.inl rfl, rfl⟩
    | some u => exact ⟨['-'], Or.inr rfl, dropLead?_eq_some_iff.mp hd⟩
  obtain ⟨dash, hdash, e₀⟩ := hdash
  refine ⟨_, Opens.intro dash b₁ b₂ b₃ b₄ hdash h₁ ⟨h₂, hne₂⟩ hid ⟨h₃, hne₃⟩ h₄, ?_⟩
  rw [e₁, e₀, e₁', e₂, e₃, e₄, e₅, e₆, e₄', e₇]
  simp only [List.append_assoc]

/-- **The openings that the reader finds** are the texts of that shape. -/
theorem openTag?_eq_some_iff {keyword s id r : List Char} (hk : IsWord keyword) :
    openTag? keyword s = some (id, r) ↔ ∃ t, Opens keyword id t ∧ s = t ++ r := by
  constructor
  · exact opens_of_openTag?
  · rintro ⟨t, ht, rfl⟩
    exact openTag?_append hk ht r

/-! ## What an opening is made of -/

/-- Whether a character may stand in the opening of a tag. -/
def isTagChar (c : Char) : Bool :=
  c == '{' || c == '%' || c == '-' || isBlank c || isWord c

/-- An opening is made of characters of tags. -/
theorem Opens.isTagChar {keyword id t : List Char} (hk : IsWord keyword)
    (ht : Opens keyword id t) : ∀ c ∈ t, isTagChar c = true := by
  obtain ⟨dash, b₁, b₂, b₃, b₄, hdash, h₁, h₂, hid, h₃, h₄⟩ := ht
  have blank : ∀ {b : List Char}, AllBlank b → ∀ c ∈ b, Template.isTagChar c = true := by
    intro b hb c hc
    simp [Template.isTagChar, hb c hc]
  have word : ∀ {w : List Char}, IsWord w → ∀ c ∈ w, Template.isTagChar c = true := by
    intro w hw c hc
    simp [Template.isTagChar, hw.2 c hc]
  have dashes : ∀ c ∈ dash, Template.isTagChar c = true := by
    rcases hdash with rfl | rfl
    · exact fun c hc => absurd hc List.not_mem_nil
    · decide
  intro c hc
  simp only [List.mem_append] at hc
  rcases hc with hc | hc | hc | hc | hc | hc | hc | hc | hc | hc
  · revert c; decide
  · exact dashes c hc
  · exact blank h₁ c hc
  · exact word hk c hc
  · exact blank h₂.1 c hc
  · exact word hid c hc
  · exact blank h₃.1 c hc
  · revert c; decide
  · exact blank h₄ c hc
  · revert c; decide

/-- Braces stand at the ends of an opening only. -/
theorem Opens.exists_eq_cons_append {keyword id t : List Char} (hk : IsWord keyword)
    (ht : Opens keyword id t) : ∃ u, t = '{' :: (u ++ ['{']) ∧ '{' ∉ u := by
  obtain ⟨dash, b₁, b₂, b₃, b₄, hdash, h₁, h₂, hid, h₃, h₄⟩ := ht
  have hblank : ∀ {b : List Char}, AllBlank b → '{' ∉ b := fun hb => notMem_of_forall hb (by decide)
  have hdashes : '{' ∉ dash := by
    rcases hdash with rfl | rfl
    · exact List.not_mem_nil
    · decide
  refine ⟨'%' :: (dash ++ (b₁ ++ (keyword ++ (b₂ ++ (id ++ (b₃ ++ ("with".toList ++ b₄))))))),
    ?_, ?_⟩
  · simp only [List.append_assoc, List.cons_append, List.nil_append]
  · simp only [List.mem_cons, List.mem_append, not_or]
    exact ⟨by decide, hdashes, hblank h₁, hk.notMem (by decide), hblank h₂.1,
      hid.notMem (by decide), hblank h₃.1, by decide, hblank h₄⟩

theorem Opens.exists_eq {keyword id t : List Char} (ht : Opens keyword id t) :
    ∃ u, t = '{' :: '%' :: u := by
  obtain ⟨dash, b₁, b₂, b₃, b₄, -, -, -, -, -, -⟩ := ht
  exact ⟨_, rfl⟩

/-! ## Texts that no opening reaches into -/

/-- Whether a character that belongs to no tag stands in front of the first brace that opens. -/
def isGuarded : List Char → Bool
  | [] => true
  | c :: s => !isTagChar c || (c != '{' && isGuarded s)

/-- Characters of tags at the front of a guarded text end with no brace. -/
theorem isGuarded_eq_false {u s : List Char} (hu : ∀ c ∈ u, isTagChar c = true) :
    isGuarded (u ++ '{' :: s) = false := by
  induction u with
  | nil => rfl
  | cons c u ih =>
    rw [List.cons_append, isGuarded, hu c List.mem_cons_self,
      ih fun d hd => hu d (List.mem_cons_of_mem c hd), Bool.and_false]
    rfl

theorem Opens.exists_eq_append {keyword id t : List Char} (ht : Opens keyword id t) :
    ∃ u, t = u ++ ['{'] := by
  obtain ⟨dash, b₁, b₂, b₃, b₄, -, -, -, -, -, -⟩ := ht
  exact ⟨['{', '%'] ++ (dash ++ (b₁ ++ (keyword ++ (b₂ ++ (id ++ (b₃ ++ ("with".toList ++ b₄))))))),
    by simp only [List.append_assoc]⟩

/-- No opening reaches into a guarded text. -/
theorem openTag?_append_of_guarded {keyword : List Char} (hk : IsWord keyword) {s : List Char}
    (hs : isGuarded s = true) (a : List Char) :
    openTag? keyword (a ++ s) = (openTag? keyword a).map fun x => (x.1, x.2 ++ s) := by
  cases ha : openTag? keyword a with
  | some x =>
    obtain ⟨t, ht, rfl⟩ := opens_of_openTag? ha
    rw [List.append_assoc, openTag?_append hk ht, Option.map_some]
  | none =>
    rw [Option.map_none, Option.eq_none_iff_forall_ne_some]
    rintro ⟨id, r⟩ h
    obtain ⟨t, ht, e⟩ := opens_of_openTag? h
    -- the opening ends inside the guarded text, or in front of it
    rcases List.append_eq_append_iff.mp e with ⟨u, rfl, rfl⟩ | ⟨u, rfl, -⟩
    · rcases List.eq_nil_or_concat u with rfl | ⟨v, c, rfl⟩
      · have hread := openTag?_append hk ht []
        rw [List.append_nil, List.append_nil, ha] at hread
        exact Option.some_ne_none _ hread.symm
      · -- the brace that ends the opening would stand in the guarded text
        obtain ⟨w, hw⟩ := ht.exists_eq_append
        rw [List.concat_eq_append, ← List.append_assoc] at hw
        obtain ⟨-, hc⟩ := List.append_inj' hw rfl
        have hv : ∀ d ∈ v, Template.isTagChar d = true := by
          intro d hd
          exact ht.isTagChar hk d (by simp [hd])
        rw [List.concat_eq_append, hc, List.append_assoc, List.singleton_append,
          isGuarded_eq_false hv] at hs
        exact absurd hs (by decide)
    · rw [openTag?_append hk ht] at ha
      exact Option.some_ne_none _ ha

end ComponentStories.Template
