import ComponentStories.Proofs.Template.Opening

/-
# The stories of a text

`stories` looks for the openings of story tags from the front and cuts the text behind each at the
end of its tag.  `openings` is the same search without the cut.  It splits at every place that no
opening reaches over (`openings_append_of_guarded`), so the stories of a template are those of its
parts, where only the text behind an opening depends on what comes later.
-/

namespace ComponentStories.Template

open ComponentStories.Text

/-! ## The search without the cut -/

/-- The stories of a text: identifiers and all that follows the opening brace. -/
def openings : Nat → List Char → List (List Char × List Char)
  | _, [] => []
  | skip + 1, _ :: s => openings skip s
  | 0, c :: s =>
    match openTag? "story".toList (c :: s) with
    | some (id, r) => (id, r) :: openings (s.length - r.length) s
    | none => openings 0 s

/-- The stories are the openings, each cut at the end of its tag. -/
theorem stories_eq_map_openings (skip : Nat) (s : List Char) :
    stories skip s = (openings skip s).map fun t => (t.1, untilTagEnd t.2) := by
  induction s generalizing skip with
  | nil => rfl
  | cons c s ih =>
    cases skip with
    | succ skip => exact ih skip
    | zero =>
      rw [stories, openings]
      cases openTag? "story".toList (c :: s) with
      | none => exact ih 0
      | some x => rw [List.map_cons, ← ih]

theorem openings_length (a s : List Char) : openings a.length (a ++ s) = openings 0 s := by
  induction a with
  | nil => rfl
  | cons c a ih => exact ih

/-- An opening at the front is found, and the search goes on behind it. -/
theorem openings_append {id t : List Char} (ht : Opens "story".toList id t) (r : List Char) :
    openings 0 (t ++ r) = (id, r) :: openings 0 r := by
  have hread := openTag?_append isWord_story ht r
  obtain ⟨u, rfl⟩ := ht.exists_eq
  rw [List.cons_append] at hread ⊢
  -- the search skips the characters of the opening behind its first one
  have hlen : ('%' :: u ++ r).length - r.length = ('%' :: u).length := by
    rw [List.length_append]
    omega
  rw [openings, hread]
  dsimp only
  rw [hlen, openings_length]

theorem openings_cons {c : Char} {s : List Char} (h : openTag? "story".toList (c :: s) = none) :
    openings 0 (c :: s) = openings 0 s := by
  rw [openings, h]

/-- Nothing opens in front of a text that does not begin with the delimiter. -/
theorem openings_cons_of_not {c : Char} {s : List Char} (h : ¬ ('{' = c ∧ s.head? = some '%')) :
    openings 0 (c :: s) = openings 0 s := by
  apply openings_cons
  rw [Option.eq_none_iff_forall_ne_some]
  rintro ⟨id, r⟩ hread
  obtain ⟨t, ht, e⟩ := opens_of_openTag? hread
  obtain ⟨u, rfl⟩ := ht.exists_eq
  obtain ⟨rfl, rfl⟩ := List.cons.inj e
  exact h ⟨rfl, rfl⟩

theorem openings_cons_of_ne {c : Char} (hc : c ≠ '{') (s : List Char) :
    openings 0 (c :: s) = openings 0 s :=
  openings_cons_of_not fun h => hc h.1.symm

/-- Text without the delimiter adds nothing, if what follows does not complete the delimiter. -/
theorem openings_append_of_untagged {a s : List Char} (ha : ¬ ['{', '%'] <:+: a)
    (hs : s.head? ≠ some '%') : openings 0 (a ++ s) = openings 0 s := by
  induction a with
  | nil => rfl
  | cons c a ih =>
    rw [pair_infix_cons, not_or] at ha
    rw [List.cons_append, openings_cons_of_not, ih ha.2]
    -- a delimiter at `c` would end inside the text, or in front of what follows
    rintro ⟨hc, hhead⟩
    cases a with
    | nil => exact hs hhead
    | cons d a => exact ha.1 ⟨hc, hhead⟩

theorem openings_eq_nil {s : List Char} (hs : ¬ ['{', '%'] <:+: s) : openings 0 s = [] := by
  have h := openings_append_of_untagged hs (s := []) (by simp)
  rwa [List.append_nil] at h

/-! ## The openings of parts -/

/-- The search splits in front of a guarded text, from inside an opening too. -/
theorem openings_append_of_le {s : List Char} (hs : isGuarded s = true) (a : List Char) :
    ∀ skip, skip ≤ a.length → openings skip (a ++ s) =
      (openings skip a).map (fun t => (t.1, t.2 ++ s)) ++ openings 0 s := by
  induction a with
  | nil =>
    intro skip hskip
    rw [List.length_nil, Nat.le_zero] at hskip
    rw [hskip]
    rfl
  | cons c a ih =>
    intro skip hskip
    cases skip with
    | succ skip => exact ih skip (Nat.le_of_succ_le_succ hskip)
    | zero =>
      have hread := openTag?_append_of_guarded isWord_story hs (c :: a)
      rw [List.cons_append] at hread ⊢
      rw [openings, openings, hread]
      cases openTag? "story".toList (c :: a) with
      | none => exact ih 0 (Nat.zero_le _)
      | some x =>
        -- both searches pass over the same characters of the opening
        have hlen : (a ++ s).length - (x.2 ++ s).length = a.length - x.2.length := by
          simp only [List.length_append]
          omega
        rw [Option.map_some, List.map_cons, List.cons_append]
        dsimp only
        rw [hlen, ih _ (Nat.sub_le _ _)]

/-- **The openings of a text are those of its parts** on both sides of a place
that no opening reaches over. -/
theorem openings_append_of_guarded {s : List Char} (hs : isGuarded s = true) (a : List Char) :
    openings 0 (a ++ s) = (openings 0 a).map (fun t => (t.1, t.2 ++ s)) ++ openings 0 s :=
  openings_append_of_le hs a 0 (Nat.zero_le _)

/-- A part with which nothing opens, not even together with a brace behind it, adds
nothing if a brace follows. -/
theorem openings_append_brace {a : List Char} (ha : openings 0 (a ++ ['{']) = []) (s : List Char) :
    openings 0 (a ++ '{' :: s) = openings 0 ('{' :: s) := by
  induction a with
  | nil => rfl
  | cons c a ih =>
    rw [List.cons_append, openings] at ha
    cases hread : openTag? "story".toList (c :: (a ++ ['{'])) with
    | some x => rw [hread] at ha; exact absurd ha (List.cons_ne_nil _ _)
    | none =>
      rw [hread] at ha
      rw [List.cons_append, openings_cons, ih ha]
      rw [Option.eq_none_iff_forall_ne_some]
      rintro ⟨id, r⟩ h
      obtain ⟨t, ht, e⟩ := opens_of_openTag? h
      obtain ⟨u, rfl, hu⟩ := ht.exists_eq_cons_append isWord_story
      rw [List.cons_append, List.append_assoc, List.singleton_append, List.cons.injEq] at e
      obtain ⟨rfl, e⟩ := e
      -- an opening that begins in the part ends there or with the brace behind it
      obtain ⟨v, hv⟩ : ∃ v, a ++ ['{'] = u ++ '{' :: v := by
        rcases List.append_eq_append_iff.mp e with ⟨w, rfl, hw⟩ | ⟨w, rfl, hw⟩
        · cases w with
          | nil => exact ⟨[], by rw [List.append_nil]⟩
          | cons d w =>
            rw [(List.cons.inj hw).1] at hu
            exact absurd (List.mem_append_right a List.mem_cons_self) hu
        · cases w with
          | nil => exact ⟨[], by rw [List.append_nil]⟩
          | cons d w =>
            rw [← (List.cons.inj hw).1]
            exact ⟨w ++ ['{'], by rw [List.append_assoc]; rfl⟩
      have hopen := openTag?_append isWord_story ht v
      rw [List.cons_append, List.append_assoc, List.singleton_append, ← hv, hread] at hopen
      exact Option.some_ne_none _ hopen.symm

/-- A part without braces that open adds nothing, whatever follows it. -/
theorem openings_append_of_notMem {a : List Char} (ha : '{' ∉ a) (s : List Char) :
    openings 0 (a ++ s) = openings 0 s := by
  induction a with
  | nil => rfl
  | cons c a ih =>
    rw [List.mem_cons, not_or] at ha
    rw [List.cons_append, openings_cons_of_ne (Ne.symm ha.1), ih ha.2]

/-- Nothing opens in the opening of a header. -/
theorem openings_header_append {id : List Char} (hid : IsWord id) (s : List Char) :
    openings 0 ("\x7b% stories ".toList ++ (id ++ (" with \x7b title: ".toList ++ s))) =
      openings 0 s := by
  have hword : '{' ∉ id := hid.notMem (by decide)
  have hfirst : ∀ r, openings 0 ("\x7b% stories ".toList ++ r) = openings 0 r := by
    intro r
    have hsplit : "\x7b% stories ".toList ++ r = '{' :: ("% stories ".toList ++ r) := rfl
    rw [hsplit, openings_cons rfl, openings_append_of_notMem (by decide)]
  have hwith : ∀ r, openings 0 (" with \x7b title: ".toList ++ r) = openings 0 r := by
    intro r
    have hsplit : " with \x7b title: ".toList ++ r =
        " with ".toList ++ '{' :: (" title: ".toList ++ r) := rfl
    rw [hsplit, openings_append_of_notMem (by decide), openings_cons rfl,
      openings_append_of_notMem (by decide)]
  rw [hfirst, openings_append_of_notMem hword, hwith]

/-! ## The identifiers -/

/-- The identifiers of the stories of a text, in order. -/
def storyIds (s : List Char) : List (List Char) := (openings 0 s).map Prod.fst

theorem storyIds_eq_nil_iff {s : List Char} : storyIds s = [] ↔ openings 0 s = [] := by
  rw [storyIds, List.map_eq_nil_iff]

/-- The identifiers of a text are those of its parts. -/
theorem storyIds_append_of_guarded {s : List Char} (hs : isGuarded s = true) (a : List Char) :
    storyIds (a ++ s) = storyIds a ++ storyIds s := by
  rw [storyIds, openings_append_of_guarded hs, List.map_append, List.map_map]
  rfl

theorem storyIds_append_of_notMem {a : List Char} (ha : '{' ∉ a) (s : List Char) :
    storyIds (a ++ s) = storyIds s := by
  rw [storyIds, openings_append_of_notMem ha, storyIds]

/-! ## The entry of a story -/

/-- The entry of a story has its name and its tags from the options outside of every group. -/
theorem storyEntry_toList (storiesId storyId : String) (body : List Char) :
    storyEntry storiesId.toList (storyId.toList, body) =
      { name := String.ofList ((nameOption (topLevel body)).getD storyId.toList)
        tags := ((tagsOption (topLevel body)).getD []).map String.ofList
        server := ⟨none, storiesId ++ "/" ++ storyId⟩ } := by
  have hid : String.ofList (storiesId.toList ++ '/' :: storyId.toList) =
      storiesId ++ "/" ++ storyId := by
    rw [← String.toList_inj, String.toList_ofList, String.toList_append, String.toList_append,
      List.append_assoc]
    rfl
  rw [storyEntry, hid]

/-! ## The end of a tag -/

/-- The text ends a tag that is open in front of it. -/
def EndsTag (s : List Char) : Prop := ['%', '}'] <:+: s

instance (s : List Char) : Decidable (EndsTag s) := inferInstanceAs (Decidable (_ <:+: _))

theorem endsTag_append_of_notMem {a s : List Char} (h : '%' ∉ a) : EndsTag (a ++ s) ↔ EndsTag s :=
  pair_infix_append_of_notMem h

theorem not_endsTag_of_notMem {a : List Char} (h : '%' ∉ a) : ¬ EndsTag a := by
  have hnil : ¬ EndsTag [] := by decide
  have happend := endsTag_append_of_notMem (s := []) h
  rw [List.append_nil] at happend
  rw [happend]
  exact hnil

theorem endsTag_append_cons {q : Char} (hq : q ≠ '}') {a s : List Char} :
    EndsTag (a ++ q :: s) ↔ EndsTag a ∨ EndsTag (q :: s) :=
  pair_infix_append_cons hq

/-- A character in front of which no end stands is kept. -/
theorem untilTagEnd_cons {c : Char} {s : List Char} (h : ¬ ('%' = c ∧ s.head? = some '}')) :
    untilTagEnd (c :: s) = c :: untilTagEnd s := by
  rw [untilTagEnd]
  rintro u rfl rfl
  exact h ⟨rfl, rfl⟩

/-- The text in front of the first end of a tag is a part of the whole at its front. -/
theorem untilTagEnd_prefix (s : List Char) : untilTagEnd s <+: s := by
  induction s with
  | nil => exact List.nil_prefix
  | cons c s ih =>
    by_cases hend : '%' = c ∧ s.head? = some '}'
    · obtain ⟨rfl, hhead⟩ := hend
      cases s with
      | nil => simp at hhead
      | cons d s =>
        rw [List.head?_cons, Option.some.injEq] at hhead
        rw [hhead]
        exact List.nil_prefix
    · rw [untilTagEnd_cons hend]
      exact (List.prefix_cons_inj c).mpr ih

/-- The text in front of the first end of a tag. -/
theorem untilTagEnd_append {a : List Char} (ha : ¬ EndsTag a) (s : List Char) :
    untilTagEnd (a ++ '%' :: '}' :: s) = a := by
  induction a with
  | nil => rfl
  | cons c a ih =>
    rw [EndsTag, pair_infix_cons, not_or] at ha
    rw [List.cons_append, untilTagEnd_cons, ih ha.2]
    -- an end of a tag at `c` would be one inside the text
    rintro ⟨hc, hhead⟩
    cases a with
    | nil => simp at hhead
    | cons d a => exact ha.1 ⟨hc, hhead⟩

/-- What follows an end of a tag does not matter. -/
theorem untilTagEnd_append_of_endsTag {a : List Char} (ha : EndsTag a) (s : List Char) :
    untilTagEnd (a ++ s) = untilTagEnd a := by
  induction a with
  | nil => exact absurd ha (by decide)
  | cons c a ih =>
    -- the first end of a tag is at `c`, or further on
    by_cases hend : '%' = c ∧ a.head? = some '}'
    · obtain ⟨rfl, hhead⟩ := hend
      cases a with
      | nil => simp at hhead
      | cons d a =>
        rw [List.head?_cons, Option.some.injEq] at hhead
        rw [hhead]
        rfl
    · rw [EndsTag, pair_infix_cons] at ha
      have ha' : EndsTag a := ha.resolve_left hend
      rw [List.cons_append, untilTagEnd_cons, untilTagEnd_cons hend, ih ha']
      rintro ⟨hc, hhead⟩
      cases a with
      | nil => exact absurd ha' (by decide)
      | cons d a => exact hend ⟨hc, hhead⟩

end ComponentStories.Template
