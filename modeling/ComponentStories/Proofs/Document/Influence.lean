import ComponentStories.Proofs.Document.Header
import ComponentStories.Proofs.Document.Options

/-
# What the literals of arguments do to the stories

The stories file of a component's document should depend on the identity of the component only.  A
literal of an argument can change it in two ways: it can open a story, and it can end the tag of the
document's own story before its tags are read.  A component is harmless if none of its literals does
either (`Component.Harmless`), and a component has the stories file of a harmless one of the same
identity exactly if it is harmless itself (`storiesFile?_eq_iff_harmless`).
-/

namespace ComponentStories

open Text Template

namespace StoryDocument

/-! ## The identity and the arguments -/

/-- The options of the story up to the literal of the name, which the arguments do not change. -/
def leadText (settings : Settings) (name : String) : List Char :=
  "\n        name: '".toList ++ (settings.storyName.toList ++ ("',\n        args: ".toList ++
    ('{' :: ("\n            ".toList ++ entryText ("title", quotedLiteral name)))))

/-- The rest of the two groups of literals, and what follows them. -/
def argumentText (c : Component) (s : List Char) : List Char :=
  separator 12 ++ (pairBlock c.defaultEntries ++ ("\n        \x7d".toList ++
    (",\n        argTypes: ".toList ++ (block c.controlEntries ++ s))))

variable {d : StoryDocument} {id : String} {c : Component} {settings : Settings}

/-- The values are the lead and the literals of the arguments. -/
theorem Describes.valueText_append (h : Describes d id c settings) (hargs : c.arguments ≠ [])
    (s : List Char) : d.valueText ++ s = leadText settings c.name ++ argumentText c s := by
  have hentries : ∃ e es, c.defaultEntries = e :: es := by
    refine List.exists_cons_of_ne_nil fun hnil => hargs ?_
    exact List.map_eq_nil_iff.mp hnil
  obtain ⟨e, es, he⟩ := hentries
  have hfirst : pairBlock (("title", quotedLiteral c.name) :: e :: es) =
      entryText ("title", quotedLiteral c.name) ++ (separator 12 ++ pairBlock (e :: es)) := by
    show entryText _ ++ separator 12 ++ pairBlock (e :: es) = _
    rw [List.append_assoc]
  unfold valueText leadText argumentText
  rw [h.storyName, h.defaults, h.argTypes, he]
  simp only [List.append_assoc, List.cons_append]
  rw [block_append, hfirst]
  simp only [List.append_assoc]

/-- What follows the opening of the document's own story begins with the lead. -/
theorem Describes.storyRest_eq (h : Describes d id c settings) (hargs : c.arguments ≠ []) :
    d.storyRest = leadText settings c.name ++
      argumentText c (d.tagText ++ ("\x7d %\x7d".toList ++ d.embedText)) := by
  rw [← h.valueText_append hargs]
  rfl

/-- The lead opens what the literal of the name opens. -/
theorem openings_leadText (hlabel : IsLabel settings.storyName) (name : String) :
    openings 0 (leadText settings name) = openings 0 (quotedLiteral name).toList := by
  unfold leadText
  rw [openings_append_of_notMem (by decide), openings_append_of_notMem (hlabel.notMem (by decide)),
    openings_append_of_notMem (by decide), openings_cons rfl, openings_append_of_notMem (by decide)]
  show openings 0 ("title".toList ++ ": ".toList ++ (quotedLiteral name).toList) = _
  rw [List.append_assoc, openings_append_of_notMem (by decide),
    openings_append_of_notMem (by decide)]

/-- The lead ends a tag exactly if the literal of the name does. -/
theorem endsTag_leadText (hlabel : IsLabel settings.storyName) (name : String) :
    EndsTag (leadText settings name) ↔ EndsTag (quotedLiteral name).toList := by
  have hbrace : ∀ s, EndsTag ('{' :: s) ↔ EndsTag s := fun s =>
    endsTag_append_of_notMem (a := ['{']) (by decide)
  unfold leadText
  rw [endsTag_append_of_notMem (by decide), endsTag_append_of_notMem (hlabel.notMem (by decide)),
    endsTag_append_of_notMem (by decide), hbrace, endsTag_append_of_notMem (by decide)]
  show EndsTag ("title".toList ++ ": ".toList ++ (quotedLiteral name).toList) ↔ _
  rw [List.append_assoc, endsTag_append_of_notMem (by decide), endsTag_append_of_notMem (by decide)]

/-- The arguments open what their literals open, and then comes what follows them. -/
theorem openings_argumentText (hnames : ∀ a ∈ c.arguments, IsQuiet a.name) (s : List Char) :
    ∃ l, l.map Prod.fst = literalIds (c.defaultEntries ++ c.controlEntries) ∧
      openings 0 (argumentText c s) = l ++ openings 0 s := by
  have hdefaults : ∀ e ∈ c.defaultEntries, IsQuiet e.1 := by
    intro e he
    obtain ⟨a, ha, rfl⟩ := List.mem_map.mp he
    exact hnames a ha
  have hcontrols : ∀ e ∈ c.controlEntries, IsQuiet e.1 := by
    intro e he
    obtain ⟨a, ha, rfl⟩ := List.mem_map.mp he
    exact hnames a ha
  unfold argumentText
  rw [openings_append_of_notMem (by decide), openings_append_of_guarded rfl,
    openings_append_of_notMem (a := "\n        \x7d".toList) (by decide),
    openings_append_of_notMem (a := ",\n        argTypes: ".toList) (by decide),
    openings_block_append, ← List.append_assoc]
  refine ⟨_, ?_, rfl⟩
  rw [List.map_append, List.map_map, List.map_map, literalIds_append]
  exact congrArg₂ _ (storyIds_pairBlock hdefaults) (storyIds_pairBlock hcontrols)

/-! ## What the identity of a component fixes -/

/-- The stories that the title opens. -/
def titleStories (storiesId : List Char) (title : String) : List StoryEntry :=
  (openings 0 (quotedLiteral title).toList).map fun t =>
    storyEntry storiesId (t.1, untilTagEnd (t.2 ++ " \x7d %\x7d\n\n    ".toList))

/-- The stories that a text opens if it ends their tags. -/
def closedStories (storiesId s : List Char) : List StoryEntry :=
  (openings 0 s).map fun t => storyEntry storiesId (t.1, untilTagEnd t.2)

/-- What follows the literals of the arguments. -/
def endOfStory (d : StoryDocument) : List Char := d.tagText ++ ("\x7d %\x7d".toList ++ d.embedText)

/-- **The stories of a document**: those of the title, the document's own, those of the literal of
the name, and those of the arguments and of what follows them. -/
theorem stories_chars (h : Describes d id c settings) (hd : d.Regular) (hargs : c.arguments ≠ [])
    (hname : ∀ t ∈ openings 0 (quotedLiteral c.name).toList, EndsTag t.2) :
    (stories 0 d.chars).map (storyEntry d.storiesId.toList) =
      titleStories d.storiesId.toList d.title ++
        storyEntry d.storiesId.toList (d.storyId.toList, untilTagEnd d.storyRest) ::
          (closedStories d.storiesId.toList (quotedLiteral c.name).toList ++
            closedStories d.storiesId.toList (argumentText c d.endOfStory)) := by
  have hlabel : IsLabel settings.storyName := h.storyName ▸ hd.storyName
  have hrest : d.storyRest = leadText settings c.name ++ argumentText c d.endOfStory :=
    h.storyRest_eq hargs
  -- the header closes the tags of the stories that the title opens
  have htitle : ∀ (t : List Char × List Char) s,
      untilTagEnd (t.2 ++ (" \x7d %\x7d\n\n    ".toList ++ s)) =
        untilTagEnd (t.2 ++ " \x7d %\x7d\n\n    ".toList) := by
    intro t s
    have hclose : EndsTag " \x7d %\x7d\n\n    ".toList := by decide
    have hends : EndsTag (t.2 ++ " \x7d %\x7d\n\n    ".toList) :=
      List.IsInfix.trans hclose (List.suffix_append _ _).isInfix
    rw [← List.append_assoc, untilTagEnd_append_of_endsTag hends]
  rw [stories_eq_map_openings, chars_eq, openings_headerText_append hd.storiesId,
    openings_storyOpening_append hd.storyId]
  show List.map _ (List.map _ (_ ++ (d.storyId.toList, d.storyRest) :: openings 0 d.storyRest)) = _
  -- the arguments begin with a comma, over which no opening reaches
  have hlead : openings 0 d.storyRest =
      (openings 0 (quotedLiteral c.name).toList).map
        (fun t => (t.1, t.2 ++ argumentText c d.endOfStory)) ++
      openings 0 (argumentText c d.endOfStory) := by
    rw [hrest, openings_append_of_guarded rfl, openings_leadText hlabel]
  rw [hlead]
  simp only [List.map_append, List.map_cons, List.map_map]
  refine congrArg₂ _ ?_ (congrArg _ (congrArg₂ _ ?_ ?_))
  · rw [titleStories]
    apply List.map_congr_left
    intro t _
    simp only [Function.comp_apply, htitle]
  · rw [closedStories]
    apply List.map_congr_left
    intro t ht
    simp only [Function.comp_apply, untilTagEnd_append_of_endsTag (hname t ht)]
  · rfl

/-! ## The names that are passed on -/

/-- A character of neither words nor separators is not in a group of words. -/
theorem notMem_nameText {names : List String} (h : ∀ n ∈ names, IsWord n.toList) {x : Char}
    (hx : isWord x = false) (hsep : x ∉ separator 8) : x ∉ nameText names := by
  have hfront : ∀ c ∈ "\n        ".toList, c ∈ separator 8 := by decide
  have hback : ∀ c ∈ "\n    ".toList, c ∈ separator 8 := by decide
  have hblock : x ∉ nameBlock names := by
    apply notMem_join hsep
    intro t ht
    obtain ⟨n, hn, rfl⟩ := List.mem_map.mp ht
    exact (h n hn).notMem hx
  unfold nameText
  rw [List.mem_append, List.mem_append, not_or, not_or]
  exact ⟨fun hmem => hsep (hfront x hmem), hblock, fun hmem => hsep (hback x hmem)⟩

/-- A group of words is plain. -/
theorem plain_nameText {names : List String} (h : ∀ n ∈ names, IsWord n.toList) :
    ∀ c ∈ nameText names, OptionState.isPlain c = true ∧ c ≠ '\\' := by
  intro c hc
  have hne : ∀ x : Char, isWord x = false → x ∉ separator 8 → c ≠ x := by
    rintro x hx hsep rfl
    exact notMem_nameText h hx hsep hc
  constructor
  · rw [OptionState.isPlain_iff]
    exact ⟨hne '\'' (by decide) (by decide), hne '"' (by decide) (by decide),
      hne '{' (by decide) (by decide), hne '}' (by decide) (by decide)⟩
  · exact hne '\\' (by decide) (by decide)

/-- The tag that an identifier leaves open is ended behind the names. -/
theorem untilTagEnd_append_closingText {d : StoryDocument} (h : ∀ n ∈ d.argsOrder, IsWord n.toList)
    {r : List Char} (hr : ¬ EndsTag r) :
    untilTagEnd (r ++ d.closingText) =
      r ++ "\" with".toList ++ [' '] ++ '{' :: (nameText d.argsOrder ++ ['}', ' ']) := by
  have hpercent : '%' ∉ '"' :: (" with \x7b".toList ++ (nameText d.argsOrder ++ ['}', ' '])) := by
    intro hmem
    simp only [List.mem_cons, List.mem_append] at hmem
    rcases hmem with hmem | hmem | hmem | hmem
    · exact absurd hmem (by decide)
    · exact absurd hmem (by decide)
    · exact notMem_nameText h (by decide) (by decide) hmem
    · exact absurd hmem (by decide)
  have hopen :
      ¬ EndsTag (r ++ '"' :: (" with \x7b".toList ++ (nameText d.argsOrder ++ ['}', ' ']))) := by
    rw [endsTag_append_cons (by decide), not_or]
    exact ⟨hr, not_endsTag_of_notMem hpercent⟩
  -- behind the names stands the end of a tag
  have hfoot : ∃ s, footText = '%' :: '}' :: s := ⟨_, rfl⟩
  obtain ⟨s, hs⟩ := hfoot
  have hsplit : r ++ d.closingText =
      (r ++ '"' :: (" with \x7b".toList ++ (nameText d.argsOrder ++ ['}', ' ']))) ++
        '%' :: '}' :: s := by
    have hwith : "\" with ".toList ++ ['{'] = '"' :: " with \x7b".toList := by decide
    unfold closingText
    rw [hs, ← List.singleton_append, ← List.append_assoc "\" with ".toList, hwith]
    simp only [List.append_assoc, List.cons_append, List.nil_append]
  have hwith : '"' :: " with \x7b".toList = "\" with".toList ++ [' ', '{'] := by decide
  rw [hsplit, untilTagEnd_append hopen, ← List.cons_append, hwith]
  simp only [List.append_assoc, List.cons_append, List.nil_append]

/-- A group of names behind options does not change what the options give. -/
theorem options_append_nameText {names : List String} (h : ∀ n ∈ names, IsWord n.toList)
    (k : List Char) :
    nameOption (k ++ '{' :: (nameText names ++ ['}', ' '])) = nameOption k ∧
      tagsOption (k ++ '{' :: (nameText names ++ ['}', ' '])) = tagsOption k := by
  have hout : ∀ x : Char, isWord x = false → x ∉ separator 8 → x ∉ ['}', ' '] →
      x ∉ nameText names ++ ['}', ' '] := by
    intro x hx hsep hclose hmem
    rcases List.mem_append.mp hmem with hmem | hmem
    · exact notMem_nameText h hx hsep hmem
    · exact hclose hmem
  have hcolon := hout ':' (by decide) (by decide) (by decide)
  constructor
  · exact nameOption_append_brace hcolon (hout '\'' (by decide) (by decide) (by decide))
      (hout '"' (by decide) (by decide) (by decide)) k
  · exact tagsOption_append_brace hcolon (hout ']' (by decide) (by decide) (by decide)) k

/-- **The names that are passed on do not change a story that the identifier
of the component opens.** -/
theorem storyEntry_closingText {d d' : StoryDocument} (h : ∀ n ∈ d.argsOrder, IsWord n.toList)
    (h' : ∀ n ∈ d'.argsOrder, IsWord n.toList) (storiesId : List Char) (t : List Char × List Char) :
    storyEntry storiesId (t.1, untilTagEnd (t.2 ++ d.closingText)) =
      storyEntry storiesId (t.1, untilTagEnd (t.2 ++ d'.closingText)) := by
  by_cases hends : EndsTag t.2
  · rw [untilTagEnd_append_of_endsTag hends, untilTagEnd_append_of_endsTag hends]
  · rw [untilTagEnd_append_closingText h hends, untilTagEnd_append_closingText h' hends, storyEntry,
      storyEntry]
    dsimp only [topLevel]
    -- the names are inside a quoted text, or inside a group that is not kept
    rcases OptionState.read_group_cases (t.2 ++ "\" with".toList) with hkept | ⟨kept, hkept⟩
    · rw [hkept _ (plain_nameText h), hkept _ (plain_nameText h'),
        (options_append_nameText h _).1, (options_append_nameText h _).2,
        (options_append_nameText h' _).1, (options_append_nameText h' _).2]
    · rw [hkept _ (plain_nameText h), hkept _ (plain_nameText h')]

/-! ## The stories of the arguments -/

/-- The arguments and what follows them open the stories of the literals and of the identifier. -/
theorem exists_openings_endOfStory (hd : d.Regular) (hnames : ∀ a ∈ c.arguments, IsQuiet a.name) :
    ∃ l, l.map Prod.fst = literalIds (c.defaultEntries ++ c.controlEntries) ∧
      openings 0 (argumentText c d.endOfStory) =
        l ++ (openings 0 d.componentId.toList).map fun t => (t.1, t.2 ++ d.closingText) := by
  obtain ⟨l, hl, hopen⟩ := openings_argumentText hnames d.endOfStory
  refine ⟨l, hl, ?_⟩
  rw [hopen, endOfStory, openings_tagText_append hd, openings_append_of_notMem (by decide),
    openings_embedText hd]

/-- There are as many of these stories as the literals and the identifier open. -/
theorem length_closedStories_argumentText (hd : d.Regular)
    (hnames : ∀ a ∈ c.arguments, IsQuiet a.name) (storiesId : List Char) :
    (closedStories storiesId (argumentText c d.endOfStory)).length =
      (literalIds (c.defaultEntries ++ c.controlEntries)).length +
        (openings 0 d.componentId.toList).length := by
  obtain ⟨l, hl, hopen⟩ := exists_openings_endOfStory hd hnames
  rw [closedStories, List.length_map, hopen, List.length_append, List.length_map, ← hl,
    List.length_map]

/-- Where no literal opens a story, only the identifier of the component does. -/
theorem closedStories_argumentText (hd : d.Regular) (hnames : ∀ a ∈ c.arguments, IsQuiet a.name)
    (hnone : literalIds (c.defaultEntries ++ c.controlEntries) = []) (storiesId : List Char) :
    closedStories storiesId (argumentText c d.endOfStory) =
      (openings 0 d.componentId.toList).map fun t =>
        storyEntry storiesId (t.1, untilTagEnd (t.2 ++ d.closingText)) := by
  obtain ⟨l, hl, hopen⟩ := exists_openings_endOfStory hd hnames
  rw [hnone, List.map_eq_nil_iff] at hl
  rw [closedStories, hopen, hl, List.nil_append, List.map_map]
  rfl

/-! ## The document's own story -/

/-- Where the literal of the name ends the tag, the arguments do not change
the document's own story. -/
theorem untilTagEnd_storyRest_of_name (h : Describes d id c settings) (hd : d.Regular)
    (hargs : c.arguments ≠ []) (hname : EndsTag (quotedLiteral c.name).toList) :
    untilTagEnd d.storyRest = untilTagEnd (leadText settings c.name) := by
  have hlabel : IsLabel settings.storyName := h.storyName ▸ hd.storyName
  have hends : EndsTag (leadText settings c.name) := (endsTag_leadText hlabel c.name).mpr hname
  rw [h.storyRest_eq hargs, untilTagEnd_append_of_endsTag hends]

/-- Where no literal ends the tag, the document's own story is the one of the settings. -/
theorem storyEntry_storyRest_of_not (h : Describes d id c settings) (hd : d.Regular)
    (hname : ¬ EndsTag (quotedLiteral c.name).toList)
    (hnone : ¬ SomeEndsTag (c.defaultEntries ++ c.controlEntries)) :
    storyEntry d.storiesId.toList (d.storyId.toList, untilTagEnd d.storyRest) =
      ⟨settings.storyName, settings.tags, ⟨none, d.storiesId ++ "/" ++ d.storyId⟩⟩ := by
  rw [someEndsTag_append, not_or] at hnone
  have hdefaults : ¬ SomeEndsTag d.defaults := by
    rw [h.defaults, someEndsTag_cons, not_or]
    exact ⟨hname, hnone.1⟩
  have hcontrols : ¬ SomeEndsTag d.argTypes := by
    rw [h.argTypes]
    exact hnone.2
  rw [storyEntry_storyRest hd h.erasable hdefaults hcontrols, h.storyName, h.tags]

/-- Where a literal of an argument ends the tag, the tags of the document's own story are lost. -/
theorem tags_storyRest_of_endsTag (h : Describes d id c settings) (hd : d.Regular)
    (hends : SomeEndsTag (c.defaultEntries ++ c.controlEntries)) (storiesId : List Char) :
    (storyEntry storiesId (d.storyId.toList, untilTagEnd d.storyRest)).tags = [] := by
  have hvalues : EndsTag d.valueText := by
    rw [endsTag_valueText hd, h.defaults, h.argTypes, someEndsTag_cons, or_assoc,
      ← someEndsTag_append]
    exact Or.inr hends
  have hcut : untilTagEnd d.storyRest <+: d.valueText := by
    rw [storyRest, untilTagEnd_append_of_endsTag hvalues]
    exact untilTagEnd_prefix d.valueText
  -- what is read of the values holds no list, so neither does what is read of their beginning
  have hread : topLevel (untilTagEnd d.storyRest) <+: d.keptValues := by
    have hall := read_valueText_append hd h.erasable []
    have hnil : OptionState.outer.read [] = [] := rfl
    rw [hnil, List.append_nil, List.append_nil] at hall
    rw [← hall]
    exact OptionState.read_prefix hcut OptionState.outer
  have hbracket : '[' ∉ d.keptValues := by
    unfold keptValues
    simp only [List.mem_append, not_or]
    exact ⟨by decide, hd.storyName.notMem (by decide), by decide⟩
  rw [storyEntry, tagsOption_eq_none fun hmem => hbracket (hread.subset hmem)]
  rfl

end StoryDocument

/-! ## Harmless components -/

open StoryDocument

/-- No literal of an argument opens a story, and none ends the tag of the story, unless the literal
of the name does so in front of them all. -/
structure Component.Harmless (c : Component) : Prop where
  /-- No literal opens a story. -/
  opens : literalIds (c.defaultEntries ++ c.controlEntries) = []
  /-- No literal ends the tag of the story. -/
  ends : EndsTag (quotedLiteral c.name).toList ∨
    ¬ SomeEndsTag (c.defaultEntries ++ c.controlEntries)

theorem isQuiet_of_isWord {n : String} (h : IsWord n.toList) : IsQuiet n := by
  intro c hc
  have hpercent : c ≠ '%' := by
    rintro rfl
    exact h.notMem (by decide) hc
  rw [isQuiet, Bool.and_eq_true, bne_iff_ne]
  exact ⟨OptionState.isPlain_of_kind (h.2 c hc) (by decide), hpercent⟩

namespace StoryDocument

theorem isQuiet_arguments {c : Component} (h : ∀ n ∈ c.inputs.names, IsWord n.toList) :
    ∀ a ∈ c.arguments, IsQuiet a.name :=
  Component.forall_arguments fun n hn => isQuiet_of_isWord (h n hn)

/-- A component with inputs that are named by words has a regular document
under the standard settings. -/
theorem exists_regular {c : Component} (hinputs : c.hasNoInputs = false)
    (hplain : IsPlainName c.machineName) (hnames : ∀ n ∈ c.inputs.names, IsWord n.toList) :
    ∃ d, c.document? Settings.standard = some d ∧ Describes d c.id c Settings.standard ∧
      d.Regular ∧ c.arguments ≠ [] ∧ ∀ n ∈ d.argsOrder, IsWord n.toList := by
  obtain ⟨d, hd, h⟩ := exists_describes hinputs c.id Settings.standard
  have hargs : c.arguments ≠ [] := by
    intro hnil
    rw [Component.arguments_eq_nil_iff, hinputs] at hnil
    exact absurd hnil (by decide)
  refine ⟨d, hd, h, ?_, hargs, ?_⟩
  · exact h.regular hplain (isQuiet_arguments hnames) (by decide) (by decide) (by decide)
  · rw [h.argsOrder, Component.map_name_arguments]
    exact hnames

variable {d d' : StoryDocument} {id : String} {c c' : Component} {settings : Settings}

/-- **Harmless components of one name have one story of their own.** -/
theorem storyEntry_storyRest_eq (h : Describes d id c settings) (h' : Describes d' id c' settings)
    (hd : d.Regular) (hd' : d'.Regular) (hargs : c.arguments ≠ []) (hargs' : c'.arguments ≠ [])
    (hname : c.name = c'.name) (hstories : d.storiesId = d'.storiesId) (hc : c.Harmless)
    (hc' : c'.Harmless) :
    storyEntry d.storiesId.toList (d.storyId.toList, untilTagEnd d.storyRest) =
      storyEntry d'.storiesId.toList (d'.storyId.toList, untilTagEnd d'.storyRest) := by
  have hstory : d.storyId = d'.storyId := by rw [h.storyId, h'.storyId]
  by_cases hends : EndsTag (quotedLiteral c.name).toList
  · -- both stories end inside the literal of the name
    rw [untilTagEnd_storyRest_of_name h hd hargs hends, hstories, hstory, hname,
      untilTagEnd_storyRest_of_name h' hd' hargs' (hname ▸ hends)]
  · -- both stories are those of the settings
    rw [storyEntry_storyRest_of_not h hd hends (hc.ends.resolve_left hends)]
    rw [hname] at hends
    rw [storyEntry_storyRest_of_not h' hd' hends (hc'.ends.resolve_left hends), hstories, hstory]

/-- **A component is harmless if it has the stories of a harmless one**: its own,
and those of its arguments. -/
theorem harmless_of_stories_eq (h : Describes d id c settings) (h' : Describes d' id c' settings)
    (hd : d.Regular) (hd' : d'.Regular) (hnames : ∀ a ∈ c.arguments, IsQuiet a.name)
    (hnames' : ∀ a ∈ c'.arguments, IsQuiet a.name) (hname : c.name = c'.name)
    (htags : settings.tags ≠ []) (hc' : c'.Harmless) {storiesId : List Char}
    (hown : storyEntry storiesId (d.storyId.toList, untilTagEnd d.storyRest) =
      storyEntry d'.storiesId.toList (d'.storyId.toList, untilTagEnd d'.storyRest))
    (hrest : closedStories storiesId (argumentText c d.endOfStory) =
      closedStories storiesId (argumentText c' d'.endOfStory)) : c.Harmless := by
  constructor
  · -- the literals of the harmless component open no story, so these open as few
    have hlength := congrArg List.length hrest
    have hcomponent : d.componentId = d'.componentId := by rw [h.componentId, h'.componentId]
    rw [length_closedStories_argumentText hd hnames, length_closedStories_argumentText hd' hnames',
      hc'.opens, hcomponent, Nat.add_right_cancel_iff] at hlength
    exact List.length_eq_zero_iff.mp hlength
  · by_cases hends : EndsTag (quotedLiteral c.name).toList
    · exact Or.inl hends
    · -- the tags of the one story would be lost, and those of the other one are not
      right
      intro hsome
      have hlost := tags_storyRest_of_endsTag h hd hsome storiesId
      rw [hname] at hends
      rw [hown, storyEntry_storyRest_of_not h' hd' hends (hc'.ends.resolve_left hends)] at hlost
      exact htags hlost

end StoryDocument

/-- **The values of arguments do not change the stories file exactly if they are harmless**: a
component has the stories file of a harmless one with the same identity if and only if it is
harmless.  The name of the component may open stories as long as it ends their tags. -/
theorem storiesFile?_eq_iff_harmless {c c' : Component} (hid : c.id = c'.id)
    (hname : c.name = c'.name) (hmachine : c.machineName = c'.machineName)
    (hplain : IsPlainName c.machineName) (hinputs : c.hasNoInputs = false)
    (hinputs' : c'.hasNoInputs = false) (hnames : ∀ n ∈ c.inputs.names, IsWord n.toList)
    (hnames' : ∀ n ∈ c'.inputs.names, IsWord n.toList)
    (hclosed : ∀ t ∈ openings 0 (quotedLiteral c.name).toList, EndsTag t.2)
    (hharmless : c'.Harmless) (url : String) :
    ∃ d d' f f', c.document? Settings.standard = some d ∧ c'.document? Settings.standard = some d' ∧
      storiesFile? d.render url = some f ∧ storiesFile? d'.render url = some f' ∧
        (f = f' ↔ c.Harmless) := by
  obtain ⟨d, hd, h, hreg, hargs, hpassed⟩ := exists_regular hinputs hplain hnames
  obtain ⟨d', hd', h', hreg', hargs', hpassed'⟩ :=
    exists_regular hinputs' (hmachine ▸ hplain) hnames'
  rw [← hid] at h'
  have htitle : d.title = d'.title := by rw [h.title, h'.title, hname]
  have hstories : d.storiesId = d'.storiesId := by rw [h.storiesId, h'.storiesId, hmachine]
  have hcomponent : d.componentId = d'.componentId := by rw [h.componentId, h'.componentId]
  refine ⟨d, d', _, _, hd, hd', storiesFile?_render hreg.storiesId url,
    storiesFile?_render hreg'.storiesId url, ?_⟩
  rw [StoriesFile.mk.injEq, stories_chars h hreg hargs hclosed,
    stories_chars h' hreg' hargs' (hname ▸ hclosed), htitle, hstories, hname,
    List.append_cancel_left_eq, List.cons.injEq, List.append_cancel_left_eq]
  constructor
  · rintro ⟨-, -, hown, hrest⟩
    exact harmless_of_stories_eq h h' hreg hreg' (isQuiet_arguments hnames)
      (isQuiet_arguments hnames') hname (show Settings.standard.tags ≠ [] by decide) hharmless hown
      hrest
  · intro hc
    refine ⟨rfl, rfl, ?_, ?_⟩
    · have hown :=
        storyEntry_storyRest_eq h h' hreg hreg' hargs hargs' hname hstories hc hharmless
      rw [hstories] at hown
      exact hown
    · rw [closedStories_argumentText hreg (isQuiet_arguments hnames) hc.opens,
        closedStories_argumentText hreg' (isQuiet_arguments hnames') hharmless.opens, hcomponent]
      apply List.map_congr_left
      intro t _
      exact storyEntry_closingText hpassed hpassed' d'.storiesId.toList t

/-- A component with one text that has a default. -/
def labelled (default : String) : Component :=
  (Component.bare "lib:card" "Card" "card" "lib/card").withProperty "label"
    ⟨some (.single .string), none, none, none, some (.text default), false⟩

/-- A default with a quote and braces is harmless. -/
theorem storiesFile?_labelled_iff_harmless :
    ∃ d d' f f', (labelled "it's \x7bone\x7d").document? Settings.standard = some d ∧
      (labelled "another").document? Settings.standard = some d' ∧
      storiesFile? d.render "" = some f ∧ storiesFile? d'.render "" = some f' ∧
        (f = f' ↔ (labelled "it's \x7bone\x7d").Harmless) :=
  storiesFile?_eq_iff_harmless
    (show (labelled "it's \x7bone\x7d").id = (labelled "another").id from rfl) rfl rfl (by decide)
    rfl rfl (by decide) (by decide) (by decide) ⟨by decide, by decide⟩ ""

/-- A text that opens a story and ends its tag. -/
def storyText : String := "\x7b% story injected with \x7b name: 'Injected' \x7d %\x7d"

/-- **A default changes the stories file**: of two components that differ in a default
only, one has a second story. -/
theorem storiesFile?_labelled_ne :
    (labelled "plain").id = (labelled storyText).id ∧
      (labelled "plain").name = (labelled storyText).name ∧
      (labelled "plain").machineName = (labelled storyText).machineName ∧
      IsPlainName (labelled "plain").machineName ∧ (labelled "plain").hasNoInputs = false ∧
      (labelled storyText).hasNoInputs = false ∧
      (∀ n ∈ (labelled "plain").inputs.names, IsWord n.toList) ∧
      (∀ n ∈ (labelled storyText).inputs.names, IsWord n.toList) ∧
      ∃ d d' f f', (labelled "plain").document? Settings.standard = some d ∧
        (labelled storyText).document? Settings.standard = some d' ∧
        storiesFile? d.render "" = some f ∧ storiesFile? d'.render "" = some f' ∧ f ≠ f' := by
  have hnames : ∀ s, ∀ a ∈ (labelled s).arguments, IsQuiet a.name := by
    intro s a ha
    obtain rfl := List.mem_singleton.mp ha
    exact (by decide : IsQuiet "label")
  obtain ⟨d, hd, h⟩ := exists_describes (c := labelled "plain") rfl "lib:card" Settings.standard
  obtain ⟨d', hd', h'⟩ :=
    exists_describes (c := labelled storyText) rfl "lib:card" Settings.standard
  have hreg := h.regular (by decide) (hnames _) (by decide) (by decide) (by decide)
  have hreg' := h'.regular (by decide) (hnames _) (by decide) (by decide) (by decide)
  refine ⟨rfl, rfl, rfl, by decide, rfl, rfl, by decide, by decide, d, d', _, _, hd, hd',
    storiesFile?_render hreg.storiesId "", storiesFile?_render hreg'.storiesId "", ?_⟩
  intro hfile
  have hcount := congrArg List.length (StoriesFile.mk.inj hfile).2.2
  rw [List.length_map, List.length_map, length_stories_chars hreg, length_stories_chars hreg',
    h.title, h'.title, h.defaults, h'.defaults, h.argTypes, h'.argTypes, h.componentId,
    h'.componentId] at hcount
  revert hcount
  decide

end ComponentStories
