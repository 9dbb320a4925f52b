import ComponentStories.Proofs.Template.Keys
import ComponentStories.Proofs.Template.Stories

/-
# What is read of a template is well formed

Any text may be read as a template.  It has a stories file exactly if a header stands in it
(`exists_header?_eq_iff`), the stories are those of the tags that are met one behind the other
(`storyTags_iff`), and whatever stands between the brackets of a list, a tag of a story is no empty
text, has no comma and no quote at its ends (`IsTrimmedTag`).  The address of the server changes
nothing else (`storiesFile?_wellFormed`).
-/

namespace ComponentStories.Template

open ComponentStories.Text

variable {c : Char} {s t r b id title : List Char} {ids : List (List Char)}

/-! ## The tags of stories in a text -/

/-- The identifiers of the tags of stories that are met in a text from the front: where one opens it
is taken and the search goes on behind it, where none opens one character is passed over. -/
inductive StoryTags : List Char → List (List Char) → Prop
  /-- Nothing is met in a text without characters. -/
  | nil : StoryTags [] []
  /-- No tag opens at the character. -/
  | pass {c : Char} {s : List Char} {ids : List (List Char)}
    (hnone : ∀ id t r, Opens "story".toList id t → c :: s ≠ t ++ r) (h : StoryTags s ids) :
    StoryTags (c :: s) ids
  /-- A tag opens at the front. -/
  | tag {id t s : List Char} {ids : List (List Char)} (ht : Opens "story".toList id t)
    (h : StoryTags s ids) : StoryTags (t ++ s) (id :: ids)

/-- The tags that the search finds are met. -/
theorem storyTags_storyIds (s : List Char) : StoryTags s (storyIds s) := by
  cases s with
  | nil => exact .nil
  | cons c s =>
    cases hread : openTag? "story".toList (c :: s) with
    | none =>
      rw [storyIds, openings_cons hread]
      refine .pass (fun id t r ht heq => ?_) (storyTags_storyIds s)
      rw [heq, openTag?_append isWord_story ht] at hread
      exact Option.some_ne_none _ hread
    | some x =>
      obtain ⟨t, ht, heq⟩ := opens_of_openTag? hread
      -- an opening has characters, so the search goes on in a shorter text
      have hshorter : x.2.length < (c :: s).length := by
        obtain ⟨u, rfl⟩ := ht.exists_eq
        rw [heq, List.length_append, List.length_cons]
        omega
      rw [heq, storyIds, openings_append ht]
      exact .tag ht (storyTags_storyIds x.2)
termination_by s.length
decreasing_by
  · exact Nat.lt_succ_self s.length
  · exact hshorter

/-- **The tags of stories are those that are met from the front.** -/
theorem storyTags_iff : StoryTags s ids ↔ storyIds s = ids := by
  constructor
  · intro h
    induction h with
    | nil => rfl
    | @pass c s ids hnone h ih =>
      rw [storyIds, openings_cons, ← storyIds, ih]
      rw [Option.eq_none_iff_forall_ne_some]
      rintro ⟨id, r⟩ hread
      obtain ⟨t, ht, heq⟩ := opens_of_openTag? hread
      exact hnone id t r ht heq
    | @tag id t s ids ht h ih =>
      rw [storyIds, openings_append ht, List.map_cons, ← storyIds, ih]
  · rintro rfl
    exact storyTags_storyIds s

theorem StoryTags.isWord (h : StoryTags s ids) : ∀ id ∈ ids, IsWord id := by
  induction h with
  | nil => exact List.forall_mem_nil _
  | pass hnone h ih => exact ih
  | tag ht h ih =>
    obtain ⟨dash, b₁, b₂, b₃, b₄, -, -, -, hid, -, -⟩ := ht
    exact List.forall_mem_cons.mpr ⟨hid, ih⟩

theorem map_fst_stories (s : List Char) : (stories 0 s).map Prod.fst = storyIds s := by
  rw [stories_eq_map_openings, List.map_map]
  rfl

/-! ## Headers in a text -/

/-- What may stand in a title between double quotes: a backslash takes the next character with it,
but no line feed, and no other quote stands there. -/
inductive TitleBody : List Char → Prop
  /-- Nothing. -/
  | nil : TitleBody []
  /-- A character that is no quote and no backslash. -/
  | plain {c : Char} {b : List Char} (hq : c ≠ '"') (he : c ≠ '\\') (h : TitleBody b) :
    TitleBody (c :: b)
  /-- A backslash and the character behind it. -/
  | escape {c : Char} {b : List Char} (hline : c ≠ '\n') (h : TitleBody b) :
      TitleBody ('\\' :: c :: b)

/-- A title between its quotes. -/
inductive TitleText : List Char → Prop
  /-- In double quotes. -/
  | double {b : List Char} (h : TitleBody b) : TitleText ('"' :: (b ++ ['"']))
  /-- In single quotes. -/
  | single {b : List Char} (h : '\'' ∉ b) : TitleText ('\'' :: (b ++ ['\'']))

/-- A header: the opening of the tag `stories` and behind it the key and the text of the title,
with blanks between them. -/
inductive HeaderText (id : List Char) : List Char → Prop
  /-- The opening, the key and the title. -/
  | intro {t b₁ b₂ q : List Char} (ht : Opens "stories".toList id t) (h₁ : AllBlank b₁)
    (h₂ : AllBlank b₂) (hq : TitleText q) :
    HeaderText id (t ++ (b₁ ++ ("title:".toList ++ (b₂ ++ q))))

/-- A header with an identifier stands in the text, and none begins in front of it. -/
def FirstHeader (s id : List Char) : Prop :=
  ∃ a h r, s = a ++ (h ++ r) ∧ HeaderText id h ∧
    ∀ a' h' r' id', s = a' ++ (h' ++ r') → HeaderText id' h' → a.length ≤ a'.length

/-- A title in double quotes is closed where its body ends. -/
theorem TitleBody.titleRest?_append (h : TitleBody b) (r : List Char) :
    titleRest? (b ++ '"' :: r) = some (b ++ ['"']) := by
  induction h with
  | nil => rfl
  | plain hq he h ih =>
    rw [List.cons_append, titleRest?, ih, Option.map_some]
    · rfl
    · exact hq
    · exact fun heq => absurd heq he
    · exact fun _ _ heq => absurd heq he
  | escape hline h ih =>
    rw [List.cons_append, List.cons_append, titleRest?, if_neg hline, ih, Option.map_some]
    rfl

/-- What is read up to the closing quote is the body of a title. -/
theorem exists_titleBody_of_titleRest? (h : titleRest? s = some t) :
    ∃ b r, TitleBody b ∧ s = b ++ '"' :: r := by
  fun_induction titleRest? s generalizing t with
  | case1 => exact absurd h (by simp)
  | case2 r => exact ⟨[], r, .nil, rfl⟩
  | case3 => exact absurd h (by simp)
  | case4 => exact absurd h (by simp)
  | case5 c s hline ih =>
    obtain ⟨u, hu, -⟩ := Option.map_eq_some_iff.mp h
    obtain ⟨b, r, hb, rfl⟩ := ih hu
    exact ⟨'\\' :: c :: b, r, .escape hline hb, rfl⟩
  | case6 c s hq he hescape ih =>
    obtain ⟨u, hu, -⟩ := Option.map_eq_some_iff.mp h
    obtain ⟨b, r, hb, rfl⟩ := ih hu
    refine ⟨c :: b, r, .plain hq ?_ hb, rfl⟩
    rintro rfl
    cases hfirst : b ++ '"' :: r with
    | nil => exact absurd hfirst (by simp)
    | cons d u => exact hescape d u rfl hfirst

/-- Text up to a quote is what stands in front of the first one. -/
theorem eq_append_of_untilQuote? {q : Char} (h : untilQuote? q s = some (b, r)) :
    q ∉ b ∧ s = b ++ q :: r := by
  induction s generalizing b with
  | nil => exact absurd h (by simp [untilQuote?])
  | cons c s ih =>
    rw [untilQuote?] at h
    split at h
    · rename_i hc
      obtain ⟨rfl, rfl⟩ := Prod.mk.inj (Option.some.inj h)
      exact ⟨List.not_mem_nil, by rw [hc]; rfl⟩
    · rename_i hc
      obtain ⟨⟨b', r'⟩, hread, heq⟩ := Option.map_eq_some_iff.mp h
      obtain ⟨rfl, rfl⟩ := Prod.mk.inj heq
      obtain ⟨hb, rfl⟩ := ih hread
      refine ⟨?_, rfl⟩
      rw [List.mem_cons, not_or]
      exact ⟨Ne.symm hc, hb⟩

/-- A title is read at the front of a text exactly if one stands there. -/
theorem exists_title?_eq_iff :
    (∃ title, title? s = some title) ↔ ∃ q r, TitleText q ∧ s = q ++ r := by
  constructor
  · rintro ⟨title, h⟩
    unfold title? at h
    split at h
    · obtain ⟨t, ht, -⟩ := Option.map_eq_some_iff.mp h
      obtain ⟨b, r, hb, rfl⟩ := exists_titleBody_of_titleRest? ht
      exact ⟨'"' :: (b ++ ['"']), r, .double hb, by simp⟩
    · obtain ⟨⟨b, r⟩, hread, -⟩ := Option.map_eq_some_iff.mp h
      obtain ⟨hb, rfl⟩ := eq_append_of_untilQuote? hread
      exact ⟨'\'' :: (b ++ ['\'']), r, .single hb, by simp⟩
    · exact absurd h (by simp)
  · rintro ⟨q, r, hq, rfl⟩
    cases hq with
    | @double b hb =>
      rw [List.cons_append, List.append_assoc, List.singleton_append, title?,
        hb.titleRest?_append r]
      exact ⟨_, rfl⟩
    | @single b hb =>
      rw [List.cons_append, List.append_assoc, List.singleton_append, title?, untilQuote?_append hb]
      exact ⟨_, rfl⟩

/-- A title does not begin with a blank. -/
theorem TitleText.head?_append {q : List Char} (hq : TitleText q) (r : List Char) :
    ∀ c ∈ (q ++ r).head?, isBlank c = false := by
  intro c hc
  cases hq with
  | double hb =>
    obtain rfl := Option.some.inj hc
    decide
  | single hb =>
    obtain rfl := Option.some.inj hc
    decide

/-- A header is read at the front of a text exactly if one stands there. -/
theorem exists_headerHere?_eq_iff :
    (∃ title, headerHere? s = some (id, title)) ↔ ∃ h r, HeaderText id h ∧ s = h ++ r := by
  constructor
  · rintro ⟨title, hread⟩
    simp only [headerHere?, Option.bind_eq_bind, Option.bind_eq_some_iff] at hread
    obtain ⟨⟨id', s₁⟩, hopen, s₂, hkey, title', htitle, heq⟩ := hread
    obtain ⟨rfl, rfl⟩ := Prod.mk.inj (Option.some.inj heq)
    dsimp only at hkey
    -- what each step of the reader has taken away stands in front of what it has left
    obtain ⟨t, ht, rfl⟩ := opens_of_openTag? hopen
    obtain ⟨b₁, h₁, hs₁⟩ := exists_eq_append_skipBlanks s₁
    obtain ⟨b₂, h₂, hs₂⟩ := exists_eq_append_skipBlanks s₂
    obtain ⟨q, r, hq, hs₃⟩ := exists_title?_eq_iff.mp ⟨_, htitle⟩
    rw [dropLead?_eq_some_iff] at hkey
    refine ⟨_, r, .intro ht h₁ h₂ hq, ?_⟩
    rw [hs₁, hkey, hs₂, hs₃]
    simp only [List.append_assoc]
  · rintro ⟨_, r, ⟨ht, h₁, h₂, hq⟩, rfl⟩
    rename_i t b₁ b₂ q
    obtain ⟨title, htitle⟩ := exists_title?_eq_iff.mpr ⟨q, r, hq, rfl⟩
    have hkey : ∀ c ∈ ("title:".toList ++ (b₂ ++ (q ++ r))).head?, isBlank c = false := by
      intro c hc
      obtain rfl := Option.some.inj hc
      decide
    refine ⟨title, ?_⟩
    simp only [List.append_assoc, headerHere?, Option.bind_eq_bind]
    rw [openTag?_append isWord_stories ht, Option.bind_some]
    dsimp only
    rw [skipBlanks_append h₁ hkey, dropLead?_append, Option.bind_some,
      skipBlanks_append h₂ (hq.head?_append r), htitle]
    rfl

theorem HeaderText.ne_nil {h : List Char} (hh : HeaderText id h) : h ≠ [] := by
  obtain ⟨ht, h₁, h₂, hq⟩ := hh
  obtain ⟨u, rfl⟩ := ht.exists_eq
  exact List.cons_ne_nil _ _

theorem HeaderText.isWord {h : List Char} (hh : HeaderText id h) : IsWord id := by
  obtain ⟨ht, -, -, -⟩ := hh
  obtain ⟨dash, b₁, b₂, b₃, b₄, -, -, -, hid, -, -⟩ := ht
  exact hid

theorem firstHeader_append {h : List Char} (hh : HeaderText id h) (r : List Char) :
    FirstHeader (h ++ r) id :=
  ⟨[], h, r, rfl, hh, fun _ _ _ _ _ _ => Nat.zero_le _⟩

/-- Where no header stands at the front, the first one is the first one behind a character. -/
theorem firstHeader_cons (hnone : ∀ id h r, HeaderText id h → c :: s ≠ h ++ r) :
    FirstHeader (c :: s) id ↔ FirstHeader s id := by
  constructor
  · rintro ⟨a, h, r, heq, hh, hfirst⟩
    cases a with
    | nil => exact absurd heq (hnone id h r hh)
    | cons d a =>
      obtain ⟨rfl, rfl⟩ := List.cons.inj heq
      refine ⟨a, h, r, rfl, hh, fun a' h' r' id' heq' hh' => ?_⟩
      exact Nat.le_of_succ_le_succ (hfirst (c :: a') h' r' id' (congrArg (c :: ·) heq') hh')
  · rintro ⟨a, h, r, rfl, hh, hfirst⟩
    refine ⟨c :: a, h, r, rfl, hh, fun a' h' r' id' heq hh' => ?_⟩
    cases a' with
    | nil => exact absurd heq (hnone id' h' r' hh')
    | cons d a' => exact Nat.succ_le_succ (hfirst a' h' r' id' (List.cons.inj heq).2 hh')

/-- The first header of a text with a header at its front stands there. -/
theorem FirstHeader.exists_eq_append (hfirst : FirstHeader s id) {id' h' : List Char}
    (hh' : HeaderText id' h') (heq' : s = h' ++ r) : ∃ h r, HeaderText id h ∧ s = h ++ r := by
  obtain ⟨a, h, r, heq, hh, hle⟩ := hfirst
  have hzero : a.length ≤ 0 := hle [] h' _ id' heq' hh'
  obtain rfl := List.eq_nil_of_length_eq_zero (Nat.le_zero.mp hzero)
  exact ⟨h, r, hh, heq⟩

/-- **The header that is read is the first one in the text**, and one is read if there is one. -/
theorem exists_header?_eq_iff : (∃ title, header? s = some (id, title)) ↔ FirstHeader s id := by
  induction s with
  | nil =>
    refine iff_of_false (by simp [header?]) ?_
    rintro ⟨a, h, r, heq, hh, -⟩
    rw [eq_comm, List.append_eq_nil_iff, List.append_eq_nil_iff] at heq
    exact hh.ne_nil heq.2.1
  | cons c s ih =>
    rw [header?]
    cases hread : headerHere? (c :: s) with
    | some x =>
      obtain ⟨id', title'⟩ := x
      obtain ⟨h, r, hh, heq⟩ := exists_headerHere?_eq_iff.mp ⟨title', hread⟩
      rw [Option.some_or]
      constructor
      · rintro ⟨title, htitle⟩
        obtain ⟨rfl, -⟩ := Prod.mk.inj (Option.some.inj htitle)
        rw [heq]
        exact firstHeader_append hh r
      · intro hfirst
        obtain ⟨title, htitle⟩ := exists_headerHere?_eq_iff.mpr (hfirst.exists_eq_append hh heq)
        rw [hread] at htitle
        exact ⟨title, htitle⟩
    | none =>
      have hnone : ∀ id h r, HeaderText id h → c :: s ≠ h ++ r := by
        intro id h r hh heq
        obtain ⟨title, htitle⟩ := exists_headerHere?_eq_iff.mpr ⟨h, r, hh, heq⟩
        rw [hread] at htitle
        exact Option.some_ne_none _ htitle.symm
      rw [Option.none_or, ih, firstHeader_cons hnone]

/-! ## The tags of a story -/

/-- What is left of a text that is trimmed neither begins nor ends with a character of the kind. -/
theorem ends_trimWhile (p : Char → Bool) (s : List Char) :
    (∀ c ∈ (trimWhile p s).head?, p c = false) ∧ ∀ c ∈ (trimWhile p s).getLast?, p c = false := by
  have hdrop : ∀ u : List Char, ∀ c ∈ (u.dropWhile p).head?, p c = false := by
    intro u c hc
    have hnot := List.head?_dropWhile_not p u
    rw [Option.mem_def.mp hc] at hnot
    simpa using hnot
  rw [trimWhile, dropEndWhile, List.getLast?_reverse]
  refine ⟨fun c hc => ?_, hdrop _⟩
  -- what is dropped at the end leaves the beginning as it is
  have hprefix : ((s.dropWhile p).reverse.dropWhile p).reverse <+: s.dropWhile p := by
    rw [← List.reverse_suffix, List.reverse_reverse]
    exact List.dropWhile_suffix p
  obtain ⟨u, hu⟩ := List.head?_eq_some_iff.mp hc
  obtain ⟨v, hv⟩ := hprefix
  rw [hu] at hv
  exact hdrop s c (by rw [← hv]; rfl)

theorem trimWhile_subset (p : Char → Bool) (s : List Char) : trimWhile p s ⊆ s := by
  intro c hc
  rw [trimWhile, dropEndWhile, List.mem_reverse] at hc
  have hmem := (List.dropWhile_sublist p).mem hc
  exact (List.dropWhile_sublist p).mem (List.mem_reverse.mp hmem)

/-- A tag as it is read: it is not nothing, holds no comma and no bracket that closes, and neither
begins nor ends with a quote. -/
structure IsTrimmedTag (t : List Char) : Prop where
  /-- It is not nothing. -/
  ne_nil : t ≠ []
  /-- It holds no comma. -/
  comma : ',' ∉ t
  /-- It holds no bracket that closes. -/
  bracket : ']' ∉ t
  /-- It begins with no quote. -/
  first : ∀ c ∈ t.head?, isQuote c = false
  /-- It ends with no quote. -/
  last : ∀ c ∈ t.getLast?, isQuote c = false

theorem isTrimmedTag_of_mem_tagsOf {list : List Char} (hlist : ']' ∉ list) (h : t ∈ tagsOf list) :
    IsTrimmedTag t := by
  rw [tagsOf, List.mem_filter, List.mem_map] at h
  obtain ⟨⟨piece, hpiece, rfl⟩, hne⟩ := h
  have hsubset : trimWhile isQuote (trim piece) ⊆ piece :=
    List.Subset.trans (trimWhile_subset isQuote _) (trimWhile_subset isBlank piece)
  obtain ⟨hfirst, hlast⟩ := ends_trimWhile isQuote (trim piece)
  exact ⟨by simpa using hne, fun hc => notMem_of_mem_splitAt hpiece (hsubset hc),
    fun hc => hlist (subset_of_mem_splitAt hpiece (hsubset hc)), hfirst, hlast⟩

/-- The value of a key was read somewhere. -/
theorem exists_read_eq_of_optionValue {α : Type} {key : List Char} {read : List Char → Option α}
    {v : α} (h : optionValue key read s = some v) : ∃ r, read r = some v := by
  have hhere : ∀ u, ((dropLead? key u).map skipBlanks).bind read = some v →
      ∃ r, read r = some v := by
    intro u hu
    obtain ⟨r, -, hr⟩ := Option.bind_eq_some_iff.mp hu
    exact ⟨r, hr⟩
  have hbehind : ∀ u, findKey key read u = some v → ∃ r, read r = some v := by
    intro u hu
    induction u with
    | nil => exact absurd hu (by simp [findKey])
    | cons c u ih =>
      rw [findKey] at hu
      split at hu
      · rcases Option.or_eq_some_iff.mp hu with hu | ⟨-, hu⟩
        · exact hhere u hu
        · exact ih hu
      · exact ih hu
  rw [optionValue] at h
  rcases Option.or_eq_some_iff.mp h with h | ⟨-, h⟩
  · exact hhere s h
  · exact hbehind s h

theorem isTrimmedTag_of_tagsOption {ts : List (List Char)} (h : tagsOption s = some ts) :
    ∀ t ∈ ts, IsTrimmedTag t := by
  obtain ⟨r, hr⟩ := exists_read_eq_of_optionValue h
  split at hr
  · obtain ⟨⟨list, rest⟩, hread, rfl⟩ := Option.map_eq_some_iff.mp hr
    exact fun t ht => isTrimmedTag_of_mem_tagsOf (eq_append_of_untilQuote? hread).1 ht
  · exact absurd hr (by simp)

/-- The tags of a story are trimmed. -/
theorem isTrimmedTag_of_mem_tags (storiesId : List Char) (tag : List Char × List Char) :
    ∀ t ∈ (storyEntry storiesId tag).tags, IsTrimmedTag t.toList := by
  intro t ht
  obtain ⟨u, hu, rfl⟩ := List.mem_map.mp ht
  rw [String.toList_ofList]
  cases htags : tagsOption (topLevel tag.2) with
  | none =>
    rw [htags] at hu
    exact absurd hu List.not_mem_nil
  | some ts =>
    rw [htags] at hu
    exact isTrimmedTag_of_tagsOption htags u hu

/-! ## Stories files -/

/-- A text has a stories file exactly if a header stands in it, whatever the address is. -/
theorem storiesFile?_eq_none_iff (source url : String) :
    storiesFile? source url = none ↔ ∀ id, ¬ FirstHeader source.toList id := by
  rw [storiesFile?, Option.map_eq_none_iff]
  constructor
  · intro hnone id hfirst
    obtain ⟨title, htitle⟩ := exists_header?_eq_iff.mpr hfirst
    rw [hnone] at htitle
    exact Option.some_ne_none _ htitle.symm
  · intro hnone
    rw [Option.eq_none_iff_forall_ne_some]
    rintro ⟨id, title⟩ htitle
    exact hnone id (exists_header?_eq_iff.mp ⟨title, htitle⟩)

/-- **What is read of a text is well formed**, whatever the text is.  It has a stories file for one
address of the server exactly if it has one for every other, and this is so exactly if a header
stands in it.  With another address the stories file is the same but for the address, which is left
out exactly if it is empty.  The identifier is the word in the first header, and the identifiers of
the stories are this word, a slash and the words of the tags of stories that are met from the front,
in their order.  No story has an address, and every tag is a trimmed one. -/
theorem storiesFile?_wellFormed (source : String) :
    (∀ url, storiesFile? source url = none ↔ ∀ id, ¬ FirstHeader source.toList id) ∧
    (∀ url url', storiesFile? source url = none ↔ storiesFile? source url' = none) ∧
    ∀ url file, storiesFile? source url = some file →
      (∀ url' file', storiesFile? source url' = some file' →
        file' = { file with server := { file.server with url := file'.server.url } }) ∧
      (file.server.url = none ↔ url = "") ∧ (url ≠ "" → file.server.url = some url) ∧
      FirstHeader source.toList file.server.id.toList ∧ IsWord file.server.id.toList ∧
      (∃ ids, StoryTags source.toList ids ∧ (∀ id ∈ ids, IsWord id) ∧
        file.stories.map (fun e => e.server.id.toList) =
          ids.map fun id => file.server.id.toList ++ '/' :: id) ∧
      ∀ e ∈ file.stories, e.server.url = none ∧ ∀ t ∈ e.tags, IsTrimmedTag t.toList := by
  refine ⟨storiesFile?_eq_none_iff source, fun url url' => ?_, fun url file hfile => ?_⟩
  · rw [storiesFile?_eq_none_iff, storiesFile?_eq_none_iff]
  rw [storiesFile?] at hfile
  obtain ⟨⟨id, title⟩, hheader, rfl⟩ := Option.map_eq_some_iff.mp hfile
  have hfirst : FirstHeader source.toList id := exists_header?_eq_iff.mp ⟨title, hheader⟩
  have hmet := storyTags_storyIds source.toList
  dsimp only
  rw [String.toList_ofList]
  refine ⟨fun url' file' hfile' => ?_, ?_, fun hurl => if_neg hurl, hfirst, ?_,
    ⟨_, hmet, hmet.isWord, ?_⟩, ?_⟩
  · rw [storiesFile?, hheader] at hfile'
    rw [← Option.some.inj hfile']
  · split <;> simp [*]
  · obtain ⟨a, h, r, -, hh, -⟩ := hfirst
    exact hh.isWord
  · rw [← map_fst_stories, List.map_map, List.map_map]
    refine List.map_congr_left fun tag _ => ?_
    exact String.toList_ofList
  · intro e he
    obtain ⟨tag, -, rfl⟩ := List.mem_map.mp he
    exact ⟨rfl, isTrimmedTag_of_mem_tags id tag⟩

/-- A text with a header and four tags of stories one inside of the other, none of which ends. -/
def messy : String :=
  "é\x7b% stories ca_1 with \x7b title: 'Ä\n' \x7d\x7b%- story x with\x7b" ++
    "tags: [ 'a',\"\",b', \"ü\"'] \x7b%\u2003story y\twith \x7b" ++
    "\x7b% story z with \x7b name: 'Z' \x7b%- story w with \x7b tags: ['\"é\" , c"

/-- The stories file of the text. -/
def messyFile : StoriesFile where
  title := "Ä\n"
  server := ⟨some "u", "ca_1"⟩
  stories := [⟨"x", ["a", "b", "ü"], ⟨none, "ca_1/x"⟩⟩, ⟨"y", [], ⟨none, "ca_1/y"⟩⟩,
    ⟨"Z", [], ⟨none, "ca_1/z"⟩⟩, ⟨"w", [], ⟨none, "ca_1/w"⟩⟩]

/-- What is read of the text is well formed, and so it is without an address. -/
theorem storiesFile?_wellFormed_messy :
    storiesFile? messy "u" = some messyFile ∧ storiesFile? messy "" ≠ none ∧
      FirstHeader messy.toList "ca_1".toList ∧
      (∃ ids, StoryTags messy.toList ids ∧
        ["ca_1/x", "ca_1/y", "ca_1/z", "ca_1/w"].map String.toList =
          ids.map fun id => "ca_1".toList ++ '/' :: id) ∧
      ∀ e ∈ messyFile.stories, ∀ t ∈ e.tags, IsTrimmedTag t.toList := by
  have hfile : storiesFile? messy "u" = some messyFile := by decide +kernel
  obtain ⟨-, hsome, hshape⟩ := storiesFile?_wellFormed messy
  obtain ⟨-, -, -, hfirst, -, ⟨ids, hmet, -, hids⟩, hentries⟩ := hshape "u" messyFile hfile
  refine ⟨hfile, fun hnone => ?_, hfirst, ⟨ids, hmet, hids⟩, fun e he => (hentries e he).2⟩
  rw [hsome "" "u", hfile] at hnone
  exact Option.some_ne_none _ hnone

end ComponentStories.Template
