import ComponentStories.Proofs.Document.Layout
import ComponentStories.Proofs.Template.Stories

/-
# The stories of a document

A document is written with one story in it.  A text inside the document can open another one, and in
no other way is one opened: the identifiers of the stories are those of the texts with the
identifier of the document's own story between them (`storyIds_chars`).  Where no text opens a
story, only what the identifier of the component opens follows the document's own story
(`openings_chars`).
-/

namespace ComponentStories

open Text Template

/-! ## Texts that a document is made of -/

/-- Whether a character may stand in a label. -/
def isLabelChar (c : Char) : Bool := isWord c || c == ' ' || c == '-'

/-- A label: letters, digits, underscores, blanks and hyphens. -/
def IsLabel (s : String) : Prop := ∀ c ∈ s.toList, isLabelChar c = true

instance (s : String) : Decidable (IsLabel s) := inferInstanceAs (Decidable (∀ c ∈ s.toList, _))

theorem IsLabel.notMem {s : String} (h : IsLabel s) {c : Char} (hc : isLabelChar c = false) :
    c ∉ s.toList :=
  notMem_of_forall h hc

/-- Whether a character is no quote, no brace and no percent sign. -/
def isQuiet (c : Char) : Bool := OptionState.isPlain c && c != '%'

/-- A name without quotes, braces and percent signs. -/
def IsQuiet (s : String) : Prop := ∀ c ∈ s.toList, isQuiet c = true

instance (s : String) : Decidable (IsQuiet s) := inferInstanceAs (Decidable (∀ c ∈ s.toList, _))

theorem IsQuiet.notMem {s : String} (h : IsQuiet s) {c : Char} (hc : isQuiet c = false) :
    c ∉ s.toList :=
  notMem_of_forall h hc

namespace StoryDocument

/-- What a document is made of besides its texts: identifiers that are
words, labels, and quiet names. -/
structure Regular (d : StoryDocument) : Prop where
  /-- The identifier of the stories is a word. -/
  storiesId : IsWord d.storiesId.toList
  /-- The identifier of the story is a word. -/
  storyId : IsWord d.storyId.toList
  /-- The name of the story is a label. -/
  storyName : IsLabel d.storyName
  /-- The arguments are passed by quiet names. -/
  argsOrder : ∀ n ∈ d.argsOrder, IsQuiet n
  /-- The names of the defaults are quiet. -/
  defaults : ∀ e ∈ d.defaults, IsQuiet e.1
  /-- The names of the controls are quiet. -/
  argTypes : ∀ e ∈ d.argTypes, IsQuiet e.1
  /-- The tags are labels. -/
  tags : ∀ t ∈ d.tags, IsLabel t ∧ t ≠ ""

/-- The document of a component with a plain machine name and quiet argument names. -/
theorem Describes.regular {d : StoryDocument} {id : String} {c : Component} {settings : Settings}
    (h : Describes d id c settings) (hmachine : IsPlainName c.machineName)
    (hnames : ∀ a ∈ c.arguments, IsQuiet a.name) (hid : IsWord settings.storyId.toList)
    (hname : IsLabel settings.storyName) (htags : ∀ t ∈ settings.tags, IsLabel t ∧ t ≠ "") :
    d.Regular where
  storiesId := h.isWord hmachine
  storyId := by
    rw [h.storyId]
    exact hid
  storyName := by
    rw [h.storyName]
    exact hname
  argsOrder := by
    rw [h.argsOrder]
    intro n hn
    obtain ⟨a, ha, rfl⟩ := List.mem_map.mp hn
    exact hnames a ha
  defaults := by
    rw [h.defaults]
    intro e he
    rcases List.mem_cons.mp he with rfl | he
    · exact (by decide : IsQuiet "title")
    · obtain ⟨a, ha, rfl⟩ := List.mem_map.mp he
      exact hnames a ha
  argTypes := by
    rw [h.argTypes]
    intro e he
    obtain ⟨a, ha, rfl⟩ := List.mem_map.mp he
    exact hnames a ha
  tags := by
    rw [h.tags]
    exact htags

/-! ## Blocks -/

/-- The stories that the literals of a list open. -/
def literalIds (es : List (String × String)) : List (List Char) :=
  es.flatMap fun e => storyIds e.2.toList

theorem literalIds_append (es es' : List (String × String)) :
    literalIds (es ++ es') = literalIds es ++ literalIds es' :=
  List.flatMap_append

/-- The stories of an entry are those of its literal. -/
theorem storyIds_entryText {e : String × String} (h : IsQuiet e.1) :
    storyIds (entryText e) = storyIds e.2.toList := by
  have hname : '{' ∉ e.1.toList ++ ": ".toList := by
    rw [List.mem_append, not_or]
    exact ⟨h.notMem (by decide), by decide⟩
  rw [entryText, storyIds_append_of_notMem hname]

/-- The stories of a block are those of its literals. -/
theorem storyIds_pairBlock {es : List (String × String)} (h : ∀ e ∈ es, IsQuiet e.1) :
    storyIds (pairBlock es) = literalIds es := by
  -- no opening reaches over the comma behind an entry
  induction es with
  | nil => rfl
  | cons e es ih =>
    have hhead := storyIds_entryText (h e List.mem_cons_self)
    have htail := ih fun f hf => h f (List.mem_cons_of_mem e hf)
    cases es with
    | nil =>
      show storyIds (entryText e) = _
      rw [hhead, literalIds, List.flatMap_cons, List.flatMap_nil, List.append_nil]
    | cons f es =>
      show storyIds (entryText e ++ separator 12 ++ pairBlock (f :: es)) = _
      rw [List.append_assoc, storyIds_append_of_guarded rfl, hhead,
        storyIds_append_of_notMem (by decide), htail]
      rfl

/-- The openings of a block, and then those of what follows it. -/
theorem openings_block_append (es : List (String × String)) (s : List Char) :
    openings 0 (block es ++ s) =
      (openings 0 (pairBlock es)).map (fun t => (t.1, t.2 ++ ("\n        \x7d".toList ++ s))) ++
        openings 0 s := by
  rw [block_append, openings_cons rfl, openings_append_of_notMem (by decide),
    openings_append_of_guarded rfl,
    openings_append_of_notMem (a := "\n        \x7d".toList) (by decide)]

/-! ## The parts of a document -/

/-- The stories of the header are those of the title. -/
theorem openings_headerText_append {d : StoryDocument} (hid : IsWord d.storiesId.toList)
    (s : List Char) :
    openings 0 (d.headerText ++ s) =
      (openings 0 (quotedLiteral d.title).toList).map
        (fun t => (t.1, t.2 ++ (" \x7d %\x7d\n\n    ".toList ++ s))) ++ openings 0 s := by
  unfold headerText
  simp only [List.append_assoc]
  rw [openings_header_append hid, openings_append_of_guarded rfl,
    openings_append_of_notMem (a := " \x7d %\x7d\n\n    ".toList) (by decide)]

theorem openings_storyOpening_append {d : StoryDocument} (hid : IsWord d.storyId.toList)
    (s : List Char) :
    openings 0 (d.storyOpening ++ s) = (d.storyId.toList, s) :: openings 0 s := by
  have hopens : Opens "story".toList d.storyId.toList d.storyOpening :=
    opens_written "story".toList hid
  exact openings_append hopens s

/-- The values open what their literals open, and then comes what follows them. -/
theorem openings_valueText_append {d : StoryDocument} (hd : d.Regular) (s : List Char) :
    ∃ l, l.map Prod.fst = literalIds d.defaults ++ literalIds d.argTypes ∧
      openings 0 (d.valueText ++ s) = l ++ openings 0 s := by
  unfold valueText
  simp only [List.append_assoc]
  rw [openings_append_of_notMem (by decide),
    openings_append_of_notMem (hd.storyName.notMem (by decide)),
    openings_append_of_notMem (by decide), openings_block_append,
    openings_append_of_notMem (by decide), openings_block_append, ← List.append_assoc]
  refine ⟨_, ?_, rfl⟩
  rw [List.map_append, List.map_map, List.map_map]
  exact congrArg₂ _ (storyIds_pairBlock hd.defaults) (storyIds_pairBlock hd.argTypes)

/-- A list of labels is made of their characters and its own. -/
theorem notMem_tagList {c : Char} (hlabel : isLabelChar c = false) {tags : List String}
    (h : ∀ t ∈ tags, IsLabel t) (hc : c ∉ "[]', ".toList) : c ∉ tagList tags := by
  have hown : ∀ b ∈ "[]', ".toList, c ≠ b := by
    rintro b hb rfl
    exact hc hb
  intro hmem
  rw [tagList, List.cons_append, List.mem_cons, List.mem_append] at hmem
  rcases hmem with hmem | hmem | hmem
  · exact hown '[' (by decide) hmem
  · refine notMem_join (fun hsep => ?_) (fun t ht => ?_) hmem
    · rcases List.mem_cons.mp hsep with hsep | hsep
      · exact hown ',' (by decide) hsep
      · exact hown ' ' (by decide) (List.mem_singleton.mp hsep)
    · obtain ⟨u, hu, rfl⟩ := List.mem_map.mp ht
      rw [List.cons_append, List.mem_cons, List.mem_append, not_or, not_or, List.mem_singleton]
      exact ⟨hown '\'' (by decide), (h u hu).notMem hlabel, hown '\'' (by decide)⟩
  · exact hown ']' (by decide) (List.mem_singleton.mp hmem)

theorem openings_tagText_append {d : StoryDocument} (hd : d.Regular) (s : List Char) :
    openings 0 (d.tagText ++ s) = openings 0 s := by
  have htags : '{' ∉ tagList d.tags :=
    notMem_tagList (by decide) (fun t ht => (hd.tags t ht).1) (by decide)
  unfold tagText
  simp only [List.append_assoc]
  rw [openings_append_of_notMem (by decide), openings_append_of_notMem htags,
    openings_append_of_notMem (by decide)]

/-- Nothing opens at the end of a document. -/
theorem openings_footText : openings 0 footText = [] := by
  decide +kernel

/-- Nothing opens behind the identifier of the component. -/
theorem openings_closingText {d : StoryDocument} (hd : d.Regular) :
    openings 0 d.closingText = [] := by
  have hnames : '{' ∉ nameBlock d.argsOrder := by
    refine notMem_join (by decide) fun t ht => ?_
    obtain ⟨n, hn, rfl⟩ := List.mem_map.mp ht
    exact (hd.argsOrder n hn).notMem (by decide)
  have hfoot : openings 0 ('}' :: ' ' :: footText) = [] := by
    rw [openings_cons_of_ne (by decide), openings_cons_of_ne (by decide), openings_footText]
  unfold closingText nameText
  simp only [List.append_assoc]
  rw [openings_append_of_notMem (by decide), openings_cons rfl,
    openings_append_of_notMem (by decide), openings_append_of_notMem hnames,
    openings_append_of_notMem (by decide), hfoot]

/-- What the identifier of the component opens. -/
theorem openings_embedText {d : StoryDocument} (hd : d.Regular) :
    openings 0 d.embedText =
      (openings 0 d.componentId.toList).map fun t => (t.1, t.2 ++ d.closingText) := by
  have hfirst : ∀ r, openings 0 ("\n\n    \x7b% embed \"".toList ++ r) = openings 0 r := by
    intro r
    have hsplit : "\n\n    \x7b% embed \"".toList ++ r =
        "\n\n    ".toList ++ '{' :: ("% embed \"".toList ++ r) := rfl
    rw [hsplit, openings_append_of_notMem (by decide), openings_cons rfl,
      openings_append_of_notMem (by decide)]
  unfold embedText
  rw [hfirst, openings_append_of_guarded rfl, openings_closingText hd, List.append_nil]

/-! ## The whole document -/

/-- What follows the opening of the document's own story. -/
def storyRest (d : StoryDocument) : List Char :=
  d.valueText ++ (d.tagText ++ ("\x7d %\x7d".toList ++ d.embedText))

/-- The openings of a document: those of the title, the document's own, and those of the literals
and of the identifier of the component. -/
theorem exists_openings_chars {d : StoryDocument} (hd : d.Regular) :
    ∃ l l', l.map Prod.fst = storyIds (quotedLiteral d.title).toList ∧
      l'.map Prod.fst = literalIds d.defaults ++ literalIds d.argTypes ∧
      openings 0 d.chars = l ++ ((d.storyId.toList, d.storyRest) :: (l' ++
        (openings 0 d.componentId.toList).map fun t => (t.1, t.2 ++ d.closingText))) := by
  obtain ⟨l', hl', hvalues⟩ := openings_valueText_append hd
    (d.tagText ++ ("\x7d %\x7d".toList ++ d.embedText))
  rw [chars_eq, openings_headerText_append hd.storiesId, openings_storyOpening_append hd.storyId,
    hvalues, openings_tagText_append hd,
    openings_append_of_notMem (a := "\x7d %\x7d".toList) (by decide),
    openings_embedText hd]
  refine ⟨_, l', ?_, hl', rfl⟩
  rw [List.map_map, storyIds]
  rfl

/-- **The stories of a document are its own and those that its texts open**, in order. -/
theorem storyIds_chars {d : StoryDocument} (hd : d.Regular) :
    storyIds d.chars = storyIds (quotedLiteral d.title).toList ++ d.storyId.toList ::
      (literalIds d.defaults ++ literalIds d.argTypes ++ storyIds d.componentId.toList) := by
  obtain ⟨l, l', hl, hl', hopen⟩ := exists_openings_chars hd
  rw [storyIds, hopen, List.map_append, List.map_cons, List.map_append, hl, hl', List.map_map]
  rfl

/-- A document has one story more than its texts open. -/
theorem length_stories_chars {d : StoryDocument} (hd : d.Regular) :
    (stories 0 d.chars).length = (storyIds (quotedLiteral d.title).toList).length + 1 +
      (literalIds d.defaults ++ literalIds d.argTypes ++ storyIds d.componentId.toList).length := by
  have hids : (stories 0 d.chars).length = (storyIds d.chars).length := by
    rw [stories_eq_map_openings, storyIds, List.length_map, List.length_map]
  rw [hids, storyIds_chars hd, List.length_append, List.length_cons]
  omega

/-- Where neither the title nor a literal opens a story, the document's own is the first one. -/
theorem openings_chars {d : StoryDocument} (hd : d.Regular)
    (htitle : storyIds (quotedLiteral d.title).toList = [])
    (hdefaults : literalIds d.defaults = []) (hcontrols : literalIds d.argTypes = []) :
    openings 0 d.chars = (d.storyId.toList, d.storyRest) ::
      (openings 0 d.componentId.toList).map fun t => (t.1, t.2 ++ d.closingText) := by
  obtain ⟨l, l', hl, hl', hopen⟩ := exists_openings_chars hd
  rw [htitle, List.map_eq_nil_iff] at hl
  rw [hdefaults, hcontrols, List.append_nil, List.map_eq_nil_iff] at hl'
  rw [hopen, hl, hl']
  rfl

end StoryDocument

end ComponentStories
