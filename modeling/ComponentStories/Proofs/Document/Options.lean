import ComponentStories.Proofs.Document.Blocks
import ComponentStories.Proofs.Document.Openings
import ComponentStories.Proofs.Template.Keys

/-
# The options of a document's story

The options of the story in a document are its name, two groups of literals, and its tags.  A reader
of options passes over the literals, for each is the text of a value or of a control, and keeps the
name and the tags (`topLevel_valueText_append`), which are then found under their keys
(`nameOption_keptText`, `tagsOption_keptText`).  The tag of the story is not ended earlier than it
should be unless a literal ends it (`endsTag_valueText`).
-/

namespace ComponentStories.StoryDocument

open Text Template Template.OptionState

/-! ## Literals that are passed over -/

/-- A reader of options passes over every literal of the document. -/
structure Erasable (d : StoryDocument) : Prop where
  /-- The literals of the defaults are passed over. -/
  defaults : ∀ e ∈ d.defaults, Erased e.2.toList
  /-- The literals of the controls are passed over. -/
  argTypes : ∀ e ∈ d.argTypes, Erased e.2.toList

/-- The literals of a component's document are texts of values and of controls. -/
theorem Describes.erasable {d : StoryDocument} {id : String} {c : Component} {settings : Settings}
    (h : Describes d id c settings) : d.Erasable where
  defaults := by
    rw [h.defaults]
    intro e he
    rcases List.mem_cons.mp he with rfl | he
    · show Erased (quotedLiteral c.name).toList
      rw [toList_quotedLiteral]
      exact (OptionPart.isMadeOf_quoted (Or.inr rfl) (Quoted.isEscaped_escapeAll _)).erased
    · obtain ⟨a, ha, rfl⟩ := List.mem_map.mp he
      exact (Component.isCompiled_of_mem_arguments ha).isMadeOf_defaultLiteral.erased
  argTypes := by
    rw [h.argTypes]
    intro e he
    obtain ⟨a, ha, rfl⟩ := List.mem_map.mp he
    exact a.control.isMadeOf_literal.erased

/-- A block of literals that are passed over is passed over between its braces. -/
theorem read_block_append {es : List (String × String)} (hnames : ∀ e ∈ es, IsQuiet e.1)
    (h : ∀ e ∈ es, Erased e.2.toList) (s : List Char) :
    outer.read (block es ++ s) = outer.read s := by
  have hentries : Erased (pairBlock es) := by
    refine entries_induction (fun _ _ => Erased.append) (fun _ => erased_of_plain) (by decide) ?_ h
    intro e he c hc
    have hquiet := hnames e he c hc
    rw [isQuiet, Bool.and_eq_true] at hquiet
    exact hquiet.1
  have hinside : Erased ("\n            ".toList ++ (pairBlock es ++ "\n        ".toList)) :=
    (erased_of_plain (by decide)).append (hentries.append (erased_of_plain (by decide)))
  rw [block, List.cons_append, List.append_assoc]
  exact read_group hinside 0 s

/-! ## What is kept -/

theorem kept_quotedLabel {s : String} (h : IsLabel s) :
    Kept ('\'' :: (s.toList ++ ['\''])) :=
  kept_quoted (Or.inl rfl) (quotable_of_notMem (h.notMem (by decide)) (h.notMem (by decide)))

theorem kept_tagList {tags : List String} (h : ∀ t ∈ tags, IsLabel t) : Kept (tagList tags) := by
  have hjoin : Kept (join ", ".toList (tags.map fun t => '\'' :: t.toList ++ ['\''])) := by
    refine join_induction kept_nil (fun _ _ => Kept.append) (kept_of_plain (by decide)) _ ?_
    intro t ht
    obtain ⟨u, hu, rfl⟩ := List.mem_map.mp ht
    exact kept_quotedLabel (h u hu)
  have hopen : Kept ['['] := kept_of_plain (by decide)
  exact (hopen.append hjoin).append (kept_of_plain (by decide))

/-- What is kept of the name and the values. -/
def keptValues (d : StoryDocument) : List Char :=
  "\n        name: '".toList ++
    (d.storyName.toList ++ "',\n        args: ,\n        argTypes: ".toList)

/-- Of the name and the values, the name is kept. -/
theorem read_valueText_append {d : StoryDocument} (hd : d.Regular) (he : d.Erasable)
    (s : List Char) : outer.read (d.valueText ++ s) = d.keptValues ++ outer.read s := by
  have hfront : "\n        name: '".toList = "\n        name: ".toList ++ ['\''] := by decide
  have hargs : "',\n        args: ".toList = ['\''] ++ ",\n        args: ".toList := by decide
  have hkept : "',\n        args: ,\n        argTypes: ".toList =
      ['\''] ++ (",\n        args: ".toList ++ ",\n        argTypes: ".toList) := by decide
  have hname := kept_quotedLabel hd.storyName
  have hplain : Kept "\n        name: ".toList := kept_of_plain (by decide)
  have hcomma : Kept ",\n        args: ".toList := kept_of_plain (by decide)
  have htypes : Kept ",\n        argTypes: ".toList := kept_of_plain (by decide)
  have hsplit : d.valueText ++ s = "\n        name: ".toList ++
      (('\'' :: (d.storyName.toList ++ ['\''])) ++ (",\n        args: ".toList ++
        (block d.defaults ++ (",\n        argTypes: ".toList ++ (block d.argTypes ++ s))))) := by
    unfold valueText
    rw [hfront, hargs]
    simp only [List.append_assoc, List.cons_append, List.nil_append]
  rw [hsplit, hplain, hname, hcomma, read_block_append hd.defaults he.defaults, htypes,
    read_block_append hd.argTypes he.argTypes]
  unfold keptValues
  rw [hfront, hkept]
  simp only [List.append_assoc, List.cons_append, List.nil_append]

/-- What is kept of the options of the story. -/
def keptText (d : StoryDocument) : List Char := d.keptValues ++ d.tagText

/-- **Of the options of the story its name and its tags are kept**, and nothing of the literals. -/
theorem topLevel_valueText_append {d : StoryDocument} (hd : d.Regular) (he : d.Erasable)
    (s : List Char) : topLevel (d.valueText ++ (d.tagText ++ '}' :: s)) = d.keptText := by
  have hfront : Kept ",\n        tags: ".toList := kept_of_plain (by decide)
  have hback : Kept "\n    ".toList := kept_of_plain (by decide)
  have htags : Kept d.tagText :=
    hfront.append ((kept_tagList fun t ht => (hd.tags t ht).1).append hback)
  rw [topLevel, read_valueText_append hd he, htags, read_close, List.append_nil, keptText]

/-! ## What is found -/

/-- The name of the story is found. -/
theorem nameOption_keptText {d : StoryDocument} (hd : d.Regular) :
    nameOption d.keptText = some d.storyName.toList := by
  have hquote : '\'' ∉ d.storyName.toList := hd.storyName.notMem (by decide)
  have hsplit : d.keptText = "\n        name: '".toList ++ (d.storyName.toList ++
      '\'' :: (",\n        args: ,\n        argTypes: ".toList ++ d.tagText)) := by
    have hclose : "',\n        args: ,\n        argTypes: ".toList =
        '\'' :: ",\n        args: ,\n        argTypes: ".toList := by decide
    unfold keptText keptValues
    rw [hclose]
    simp only [List.append_assoc, List.cons_append]
  have hkey : ∀ (read : List Char → Option (List Char)) r,
      optionValue "name:".toList read ("\n        name: '".toList ++ r) =
        (read ('\'' :: r)).or (findKey "name:".toList read ("name: '".toList ++ r)) :=
    fun _ _ => rfl
  rw [hsplit, nameOption, hkey, quotedBy?, if_pos rfl, untilQuote?_append hquote]
  rfl

/-- A tag of a document is one that can stand in a list. -/
theorem isTag_of_isLabel {t : String} (h : IsLabel t) (hne : t ≠ "") : IsTag t.toList := by
  refine ⟨fun hnil => hne (String.toList_eq_nil_iff.mp hnil), fun c hc => ?_⟩
  have hother : ∀ x : Char, isLabelChar x = false → c ≠ x := by
    rintro x hx rfl
    exact h.notMem hx hc
  refine ⟨?_, hother ',' (by decide), hother ']' (by decide)⟩
  rw [isQuote, Bool.or_eq_false_iff, beq_eq_false_iff_ne, beq_eq_false_iff_ne]
  exact ⟨hother '\'' (by decide), hother '"' (by decide)⟩

/-- The tags of the story are found, in order. -/
theorem tagsOption_keptText {d : StoryDocument} (hd : d.Regular) :
    tagsOption d.keptText = some (d.tags.map String.toList) := by
  have hcolon : ':' ∉ d.storyName.toList := hd.storyName.notMem (by decide)
  have hsplit : d.keptText = "\n        name: '".toList ++ (d.storyName.toList ++
      '\'' :: (",\n        args: ,\n        argTypes: ,\n        tags: ".toList ++
        (tagList d.tags ++ "\n    ".toList))) := by
    have hclose : "',\n        args: ,\n        argTypes: ".toList =
        '\'' :: ",\n        args: ,\n        argTypes: ".toList := by decide
    have hkey : ",\n        args: ,\n        argTypes: ,\n        tags: ".toList =
        ",\n        args: ,\n        argTypes: ".toList ++ ",\n        tags: ".toList := by decide
    unfold keptText keptValues tagText
    rw [hclose, hkey]
    simp only [List.append_assoc, List.cons_append]
  have hfront : ∀ (read : List Char → Option (List (List Char))) r,
      optionValue "tags:".toList read ("\n        name: '".toList ++ r) =
        findKey "tags:".toList read r := fun _ _ => rfl
  have hkey : ∀ (read : List Char → Option (List (List Char))) r,
      findKey "tags:".toList read
          ('\'' :: (",\n        args: ,\n        argTypes: ,\n        tags: ".toList ++ r)) =
        (read (skipBlanks (' ' :: r))).or (findKey "tags:".toList read ("tags: ".toList ++ r)) :=
    fun _ _ => rfl
  have hquoted : (d.tags.map fun t => '\'' :: t.toList ++ ['\'']) =
      (d.tags.map String.toList).map quotedTag := by
    rw [List.map_map]
    rfl
  have htags : ∀ t ∈ d.tags.map String.toList, IsTag t := by
    intro t ht
    obtain ⟨u, hu, rfl⟩ := List.mem_map.mp ht
    exact isTag_of_isLabel (hd.tags u hu).1 (hd.tags u hu).2
  have hlist : skipBlanks (' ' :: (tagList d.tags ++ "\n    ".toList)) =
      '[' :: (join ", ".toList ((d.tags.map String.toList).map quotedTag) ++
        ']' :: "\n    ".toList) := by
    rw [tagList, hquoted, List.cons_append, List.cons_append, List.append_assoc]
    rfl
  rw [hsplit, tagsOption, hfront, findKey_append_cons (x := ':') (by decide) hcolon (by decide),
    hkey, hlist]
  show ((untilQuote? ']' _).map fun x => tagsOf x.1).or _ = _
  rw [untilQuote?_append (bracket_notMem_join htags), Option.map_some, Option.some_or]
  exact congrArg some (tagsOf_join htags)

/-! ## The end of the tag -/

/-- A literal of the list ends a tag. -/
def SomeEndsTag (es : List (String × String)) : Prop := ∃ e ∈ es, EndsTag e.2.toList

instance (es : List (String × String)) : Decidable (SomeEndsTag es) :=
  inferInstanceAs (Decidable (∃ e ∈ es, _))

theorem someEndsTag_nil : ¬ SomeEndsTag [] := by simp [SomeEndsTag]

theorem someEndsTag_cons {e : String × String} {es : List (String × String)} :
    SomeEndsTag (e :: es) ↔ EndsTag e.2.toList ∨ SomeEndsTag es := by
  simp [SomeEndsTag]

theorem someEndsTag_append {es es' : List (String × String)} :
    SomeEndsTag (es ++ es') ↔ SomeEndsTag es ∨ SomeEndsTag es' := by
  simp [SomeEndsTag, or_and_right, exists_or]

/-- A block ends a tag exactly if one of its literals does. -/
theorem endsTag_pairBlock_append {es : List (String × String)} (h : ∀ e ∈ es, IsQuiet e.1)
    (s : List Char) : EndsTag (pairBlock es ++ '\n' :: s) ↔ SomeEndsTag es ∨ EndsTag s := by
  have hname : ∀ {e : String × String}, IsQuiet e.1 → ∀ r,
      EndsTag (entryText e ++ r) ↔ EndsTag (e.2.toList ++ r) := by
    intro e he r
    have hpercent : '%' ∉ e.1.toList ++ ": ".toList := by
      rw [List.mem_append, not_or]
      exact ⟨he.notMem (by decide), by decide⟩
    rw [entryText, List.append_assoc, endsTag_append_of_notMem hpercent]
  have hline : ∀ r, EndsTag ('\n' :: r) ↔ EndsTag r := fun r =>
    endsTag_append_of_notMem (a := ['\n']) (by decide)
  -- what follows an entry begins with a comma or a line break, which end no tag
  induction es with
  | nil =>
    show EndsTag ('\n' :: s) ↔ _
    rw [hline]
    exact (or_iff_right someEndsTag_nil).symm
  | cons e es ih =>
    have he := h e List.mem_cons_self
    have htail : EndsTag (pairBlock es ++ '\n' :: s) ↔ SomeEndsTag es ∨ EndsTag s :=
      ih fun f hf => h f (List.mem_cons_of_mem e hf)
    cases es with
    | nil =>
      show EndsTag (entryText e ++ '\n' :: s) ↔ _
      rw [hname he, endsTag_append_cons (by decide), hline, someEndsTag_cons, or_assoc]
      exact or_congr_right (or_iff_right someEndsTag_nil).symm
    | cons f es =>
      have hsplit : pairBlock (e :: f :: es) ++ '\n' :: s = entryText e ++
          (',' :: ("\n            ".toList ++ (pairBlock (f :: es) ++ '\n' :: s))) := by
        show entryText e ++ separator 12 ++ pairBlock (f :: es) ++ '\n' :: s = _
        rw [List.append_assoc, List.append_assoc]
        rfl
      have hcomma : ∀ r, EndsTag (',' :: r) ↔ EndsTag r := fun r =>
        endsTag_append_of_notMem (a := [',']) (by decide)
      rw [hsplit, hname he, endsTag_append_cons (by decide), hcomma,
        endsTag_append_of_notMem (by decide), htail, someEndsTag_cons (e := e), or_assoc]

/-- **The values end the tag of the story exactly if a literal does.** -/
theorem endsTag_valueText {d : StoryDocument} (hd : d.Regular) :
    EndsTag d.valueText ↔ SomeEndsTag d.defaults ∨ SomeEndsTag d.argTypes := by
  have hblock : ∀ {es : List (String × String)}, (∀ e ∈ es, IsQuiet e.1) → ∀ r,
      EndsTag (block es ++ r) ↔ SomeEndsTag es ∨ EndsTag r := by
    intro es hes r
    have hline : "\n        \x7d".toList ++ r = '\n' :: ("        \x7d".toList ++ r) := rfl
    have hsplit : block es ++ r = ('{' :: "\n            ".toList) ++ (pairBlock es ++
        '\n' :: ("        \x7d".toList ++ r)) := by
      rw [block_append, hline]
      rfl
    rw [hsplit, endsTag_append_of_notMem (by decide), endsTag_pairBlock_append hes,
      endsTag_append_of_notMem (a := "        \x7d".toList) (by decide)]
  have hlast : EndsTag (block d.argTypes) ↔ SomeEndsTag d.argTypes := by
    have h := hblock hd.argTypes []
    rw [List.append_nil] at h
    rw [h]
    exact or_iff_left (by decide)
  unfold valueText
  rw [endsTag_append_of_notMem (by decide),
    endsTag_append_of_notMem (hd.storyName.notMem (by decide)),
    endsTag_append_of_notMem (by decide), hblock hd.defaults,
    endsTag_append_of_notMem (by decide), hlast]

/-- Where no literal ends a tag, the tag of the story ends behind its options. -/
theorem untilTagEnd_storyRest {d : StoryDocument} (hd : d.Regular)
    (hdefaults : ¬ SomeEndsTag d.defaults) (hcontrols : ¬ SomeEndsTag d.argTypes) :
    untilTagEnd d.storyRest = d.valueText ++ (d.tagText ++ ['}', ' ']) := by
  have htags : '%' ∉ tagList d.tags :=
    notMem_tagList (by decide) (fun t ht => (hd.tags t ht).1) (by decide)
  have hpercent : '%' ∉ d.tagText ++ ['}', ' '] := by
    unfold tagText
    simp only [List.mem_append, not_or]
    exact ⟨⟨by decide, htags, by decide⟩, by decide⟩
  -- the tags begin with a comma, over which no end of a tag reaches
  have hcomma : ∃ r, d.tagText ++ ['}', ' '] = ',' :: r := ⟨_, rfl⟩
  have hend : ¬ EndsTag (d.valueText ++ (d.tagText ++ ['}', ' '])) := by
    obtain ⟨r, hr⟩ := hcomma
    rw [hr] at hpercent ⊢
    rw [endsTag_append_cons (by decide), endsTag_valueText hd, not_or, not_or]
    exact ⟨⟨hdefaults, hcontrols⟩, not_endsTag_of_notMem hpercent⟩
  have hsplit : d.storyRest =
      (d.valueText ++ (d.tagText ++ ['}', ' '])) ++ '%' :: '}' :: d.embedText := by
    have hclose : "\x7d %\x7d".toList = ['}', ' ', '%', '}'] := rfl
    unfold storyRest
    rw [hclose]
    simp only [List.append_assoc, List.cons_append, List.nil_append]
  rw [hsplit, untilTagEnd_append hend]

/-- **The document's own story is read as it was written** where no literal ends a tag. -/
theorem storyEntry_storyRest {d : StoryDocument} (hd : d.Regular) (he : d.Erasable)
    (hdefaults : ¬ SomeEndsTag d.defaults) (hcontrols : ¬ SomeEndsTag d.argTypes) :
    storyEntry d.storiesId.toList (d.storyId.toList, untilTagEnd d.storyRest) =
      ⟨d.storyName, d.tags, ⟨none, d.storiesId ++ "/" ++ d.storyId⟩⟩ := by
  have htags : (d.tags.map String.toList).map String.ofList = d.tags := by
    rw [List.map_map]
    exact List.map_id'' (fun t => String.ofList_toList) d.tags
  rw [untilTagEnd_storyRest hd hdefaults hcontrols, storyEntry_toList,
    topLevel_valueText_append hd he, nameOption_keptText hd, tagsOption_keptText hd,
    Option.getD_some, Option.getD_some, String.ofList_toList, htags]

end ComponentStories.StoryDocument
