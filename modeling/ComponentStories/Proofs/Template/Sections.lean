import ComponentStories.Proofs.Template.Groups
import ComponentStories.Proofs.Template.Header
import ComponentStories.Proofs.Template.Stories

/-
# Templates whose stories have groups among their options

A template that is made of a header and of story tags, with text between them, has a stories file,
and the file has one entry for every story tag.  The options of a story may hold groups, and a group
may hold what looks like options of the story, but the file does not depend on what is in a group
(`storiesFile?_source`).
-/

namespace ComponentStories

open Text Template

/-! ## Templates -/

/-- The tag of a story. -/
structure StoryTag where
  /-- The identifier. -/
  id : String
  /-- The identifier is a word. -/
  isWord : IsWord id.toList
  /-- The options. -/
  options : List OptionPart
  /-- The options hold no delimiter of tags. -/
  tagFree : TagFree (OptionPart.charsAll options)

/-- A tag of a template and the text that follows it. -/
structure StorySection where
  /-- The story that the tag opens; the tag ends a story if there is none. -/
  story : Option StoryTag
  /-- The text behind the tag. -/
  text : String
  /-- No tag begins in the text. -/
  free : ¬ ['{', '%'] <:+: text.toList

/-- A template that begins with its header. -/
structure StoryTemplate where
  /-- The identifier of the stories. -/
  id : String
  /-- The identifier is a word. -/
  isWord : IsWord id.toList
  /-- The title. -/
  title : String
  /-- No quote stands in the title. -/
  quote : '"' ∉ title.toList
  /-- No backslash stands in the title. -/
  backslash : '\\' ∉ title.toList
  /-- No tag begins in the title. -/
  titleFree : ¬ ['{', '%'] <:+: title.toList
  /-- The text behind the header. -/
  text : String
  /-- No tag begins in the text. -/
  free : ¬ ['{', '%'] <:+: text.toList
  /-- What follows the text. -/
  sections : List StorySection

/-! ## One tag -/

namespace StoryTag

/-- What stands between the brace that opens the options and the end of the tag. -/
def body (s : StoryTag) : List Char := ' ' :: (OptionPart.charsAll s.options ++ " \x7d ".toList)

/-- The opening of the tag, up to the brace of its options. -/
def opening (s : StoryTag) : List Char :=
  "\x7b% story ".toList ++ (s.id.toList ++ " with \x7b".toList)

/-- The characters of the tag. -/
def chars (s : StoryTag) : List Char := s.opening ++ (s.body ++ ['%', '}'])

/-- The options outside of every group, between blanks. -/
def own (s : StoryTag) : List Char := ' ' :: (s.options.flatMap OptionPart.outside ++ [' '])

/-- The entry that the identifier and the options outside of every group give. -/
def entry (storiesId : String) (s : StoryTag) : StoryEntry where
  name := String.ofList ((nameOption s.own).getD s.id.toList)
  tags := ((tagsOption s.own).getD []).map String.ofList
  server := ⟨none, storiesId ++ "/" ++ s.id⟩

/-- The tag with nothing inside of its groups. -/
def emptied (s : StoryTag) : StoryTag where
  id := s.id
  isWord := s.isWord
  options := s.options.map OptionPart.emptied
  tagFree := OptionPart.tagFree_charsAll_map_emptied s.tagFree

theorem entry_emptied (storiesId : String) (s : StoryTag) :
    s.emptied.entry storiesId = s.entry storiesId := by
  have hown : s.emptied.own = s.own := by
    rw [own, own, emptied, List.flatMap_map]
    exact congrArg (fun l => ' ' :: (l ++ [' ']))
      (List.flatMap_congr fun p _ => p.outside_emptied)
  rw [entry, entry, hown]
  rfl

theorem topLevel_body (s : StoryTag) : topLevel s.body = s.own := by
  have hread : ∀ r, topLevel (' ' :: r) = ' ' :: OptionState.outer.read r := fun _ => rfl
  rw [body, hread, OptionPart.read_charsAll_append]
  rfl

theorem storyEntry_body (storiesId : String) (s : StoryTag) :
    storyEntry storiesId.toList (s.id.toList, s.body) = s.entry storiesId := by
  rw [storyEntry_toList, topLevel_body, entry]

theorem not_endsTag_body (s : StoryTag) : ¬ EndsTag s.body := by
  have hblank : s.body = [' '] ++ (OptionPart.charsAll s.options ++ ' ' :: ['}', ' ']) := rfl
  rw [hblank, endsTag_append_of_notMem (by decide), endsTag_append_cons (by decide), not_or]
  exact ⟨s.tagFree.2, by decide⟩

/-- No tag begins between the opening of a tag and the text behind it. -/
theorem not_infix_body_append (s : StoryTag) {text : List Char} (h : ¬ ['{', '%'] <:+: text) :
    ¬ ['{', '%'] <:+: s.body ++ ('%' :: '}' :: text) := by
  have hsplit : s.body ++ ('%' :: '}' :: text) =
      [' '] ++ (OptionPart.charsAll s.options ++ ' ' :: ("\x7d %\x7d".toList ++ text)) := by
    rw [body, List.cons_append, List.append_assoc]
    rfl
  rw [hsplit, pair_infix_append_of_notMem (by decide), pair_infix_append_cons (by decide),
    pair_infix_cons_of_ne (by decide), pair_infix_append_of_notMem (by decide), not_or]
  exact ⟨s.tagFree.1, h⟩

/-- A tag and the text behind it have one story, whatever follows them. -/
theorem stories_chars_append (s : StoryTag) {text r : List Char} (h : ¬ ['{', '%'] <:+: text)
    (hr : r.head? ≠ some '%') :
    stories 0 (s.chars ++ (text ++ r)) = (s.id.toList, s.body) :: stories 0 r := by
  have hopens : Opens "story".toList s.id.toList s.opening :=
    opens_written "story".toList s.isWord
  have hsplit : s.chars ++ (text ++ r) = s.opening ++ (s.body ++ ('%' :: '}' :: text) ++ r) := by
    rw [chars]
    simp only [List.append_assoc, List.cons_append, List.nil_append]
  have hcut : untilTagEnd (s.body ++ ('%' :: '}' :: text) ++ r) = s.body := by
    rw [List.append_assoc]
    exact untilTagEnd_append s.not_endsTag_body (text ++ r)
  rw [stories_eq_map_openings, stories_eq_map_openings, hsplit, openings_append hopens,
    List.map_cons, hcut, openings_append_of_untagged (s.not_infix_body_append h) hr]

end StoryTag

/-! ## The tags behind the header -/

namespace StorySection

/-- The characters of the tag and of the text behind it. -/
def chars (c : StorySection) : List Char :=
  match c.story with
  | some s => s.chars ++ c.text.toList
  | none => "\x7b% endstory %\x7d".toList ++ c.text.toList

/-- The section with nothing inside of the groups of its story. -/
def emptied (c : StorySection) : StorySection where
  story := c.story.map StoryTag.emptied
  text := c.text
  free := c.free

/-- A section begins with its tag, so no delimiter reaches into it from the front. -/
theorem head?_flatMap_chars (cs : List StorySection) :
    (cs.flatMap chars).head? ≠ some '%' := by
  cases cs with
  | nil => simp
  | cons c cs =>
    have hbrace : ∃ r, (c :: cs).flatMap chars = '{' :: r := by
      rw [List.flatMap_cons, chars]
      cases c.story with
      | some s => exact ⟨_, rfl⟩
      | none => exact ⟨_, rfl⟩
    obtain ⟨r, hr⟩ := hbrace
    rw [hr, List.head?_cons, ne_eq, Option.some.injEq]
    decide

/-- A section has the story of its tag, if the tag opens one. -/
theorem stories_chars_append (c : StorySection) {r : List Char} (hr : r.head? ≠ some '%') :
    stories 0 (c.chars ++ r) =
      (c.story.map fun s => (s.id.toList, s.body)).toList ++ stories 0 r := by
  rw [chars]
  cases c.story with
  | some s =>
    dsimp only
    rw [List.append_assoc, s.stories_chars_append c.free hr]
    rfl
  | none =>
    have hfree : ¬ ['{', '%'] <:+: "% endstory %\x7d".toList ++ c.text.toList := by
      rw [pair_infix_append_of_notMem (by decide)]
      exact c.free
    have hfirst : "\x7b% endstory %\x7d".toList ++ c.text.toList ++ r =
        '{' :: ("% endstory %\x7d".toList ++ c.text.toList ++ r) := rfl
    dsimp only
    rw [hfirst, stories_eq_map_openings, openings_cons rfl, openings_append_of_untagged hfree hr,
      ← stories_eq_map_openings]
    rfl

/-- **The stories of sections are those of their tags**, in order. -/
theorem stories_flatMap_chars (cs : List StorySection) :
    stories 0 (cs.flatMap chars) =
      (cs.filterMap story).map fun s => (s.id.toList, s.body) := by
  induction cs with
  | nil => rfl
  | cons c cs ih =>
    rw [List.flatMap_cons, stories_chars_append c (head?_flatMap_chars cs), ih,
      List.filterMap_cons]
    cases c.story with
    | some s => rfl
    | none => rfl

end StorySection

/-! ## The whole template -/

namespace StoryTemplate

/-- The header. -/
def headerChars (t : StoryTemplate) : List Char :=
  "\x7b% stories ".toList ++ (t.id.toList ++ (" with \x7b title: ".toList ++
    ('"' :: (t.title.toList ++ '"' :: " \x7d %\x7d".toList))))

/-- The characters of the template. -/
def chars (t : StoryTemplate) : List Char :=
  t.headerChars ++ (t.text.toList ++ t.sections.flatMap StorySection.chars)

/-- The text of the template. -/
def source (t : StoryTemplate) : String := String.ofList t.chars

/-- The tags that open stories, in order. -/
def stories (t : StoryTemplate) : List StoryTag := t.sections.filterMap StorySection.story

/-- The template with nothing inside of the groups of its stories. -/
def emptied (t : StoryTemplate) : StoryTemplate :=
  { t with sections := t.sections.map StorySection.emptied }

/-- The header is read, whatever follows it. -/
theorem header?_chars (t : StoryTemplate) :
    header? t.chars = some (t.id.toList, t.title.toList) := by
  have htitle := title?_append_of_notMem t.quote t.backslash
    (" \x7d %\x7d".toList ++ (t.text.toList ++ t.sections.flatMap StorySection.chars))
  have h := header?_append_title t.isWord htitle
  unfold chars headerChars
  simp only [List.append_assoc, List.cons_append]
  exact h

/-- The stories are those of the tags behind the header. -/
theorem stories_chars (t : StoryTemplate) :
    Template.stories 0 t.chars = t.stories.map fun s => (s.id.toList, s.body) := by
  -- no tag begins in the title, and none between the title and the first tag behind the header
  have htitle : ∀ r, openings 0 (t.title.toList ++ '"' :: r) = openings 0 r := by
    intro r
    rw [openings_append_of_untagged t.titleFree (by simp), openings_cons_of_ne (by decide)]
  have htext := openings_append_of_untagged t.free
    (StorySection.head?_flatMap_chars t.sections)
  unfold chars headerChars
  simp only [List.append_assoc, List.cons_append]
  rw [stories_eq_map_openings, openings_header_append t.isWord, openings_cons_of_ne (by decide),
    htitle, openings_append_of_notMem (by decide), htext, ← stories_eq_map_openings,
    StorySection.stories_flatMap_chars, stories]

/-- The stories file that the header and the tags give. -/
def file (t : StoryTemplate) (url : String) : StoriesFile where
  title := t.title
  server := ⟨if url = "" then none else some url, t.id⟩
  stories := t.stories.map (StoryTag.entry t.id)

/-- The stories file of a template. -/
theorem storiesFile?_eq_file (t : StoryTemplate) (url : String) :
    storiesFile? t.source url = some (t.file url) := by
  have htext : t.source.toList = t.chars := String.toList_ofList
  have hentries : (t.stories.map fun s => (s.id.toList, s.body)).map (storyEntry t.id.toList) =
      t.stories.map (StoryTag.entry t.id) := by
    rw [List.map_map]
    exact List.map_congr_left fun s _ => s.storyEntry_body t.id
  rw [storiesFile?, htext, header?_chars, Option.map_some]
  dsimp only
  rw [stories_chars, hentries, String.ofList_toList, String.ofList_toList, file]

/-- The groups do not matter for the stories file. -/
theorem file_emptied (t : StoryTemplate) (url : String) : t.emptied.file url = t.file url := by
  have hstories : t.emptied.stories = t.stories.map StoryTag.emptied := by
    rw [stories, stories, emptied, List.filterMap_map, List.map_filterMap]
    rfl
  have hentries : t.emptied.stories.map (StoryTag.entry t.emptied.id) =
      t.stories.map (StoryTag.entry t.id) := by
    rw [hstories, List.map_map]
    exact List.map_congr_left fun s _ => s.entry_emptied t.id
  rw [file, file, hentries]
  rfl

/-- **Groups never matter.**  A template has a stories file with its title and one entry for every
story tag, in order, under the identifiers of the stories and of the story; the name and the tags
come from the options outside of every group.  The file stays the same when the groups are emptied,
and when anything else is written into them. -/
theorem storiesFile?_source (t : StoryTemplate) (url : String) :
    (∃ f, storiesFile? t.source url = some f ∧ f.title = t.title ∧
      f.server = ⟨if url = "" then none else some url, t.id⟩ ∧
      f.stories = t.stories.map fun s =>
        { name := String.ofList ((nameOption s.own).getD s.id.toList)
          tags := ((tagsOption s.own).getD []).map String.ofList
          server := ⟨none, t.id ++ "/" ++ s.id⟩ }) ∧
    storiesFile? t.emptied.source url = storiesFile? t.source url ∧
    ∀ t' : StoryTemplate, t'.emptied = t.emptied →
      storiesFile? t'.source url = storiesFile? t.source url := by
  refine ⟨⟨t.file url, storiesFile?_eq_file t url, rfl, rfl, rfl⟩, ?_, ?_⟩
  · rw [storiesFile?_eq_file, storiesFile?_eq_file, file_emptied]
  · intro t' h
    rw [storiesFile?_eq_file, storiesFile?_eq_file, ← file_emptied, h, file_emptied]

/-- The options of a card: a name and a group of arguments. -/
def cardOptions (args : List OptionPart) : List OptionPart :=
  [.plain "name: ".toList (by decide), .quoted '\'' (Or.inl rfl) "Card".toList (by decide),
    .plain ", args: ".toList (by decide), .group args]

/-- Arguments with a name, with a quoted brace, and with tags in a group of their own. -/
def cardArgs : List OptionPart :=
  [.plain "name: ".toList (by decide), .quoted '"' (Or.inr rfl) "\\\" \x7d".toList (by decide),
    .plain ", deep: ".toList (by decide),
    .group [.plain "tags: [".toList (by decide), .quoted '\'' (Or.inl rfl) "new".toList (by decide),
      .plain "]".toList (by decide)]]

/-- The template of a card. -/
def card (args : List OptionPart) (h : TagFree (OptionPart.charsAll (cardOptions args))) :
    StoryTemplate where
  id := "card"
  isWord := by decide
  title := "Kit/Card"
  quote := by decide
  backslash := by decide
  titleFree := by decide
  text := "\n"
  free := by decide
  sections := [⟨some ⟨"default", by decide, cardOptions args, h⟩, "<p>\x7b</p>", by decide⟩,
    ⟨none, "\n", by decide⟩]

/-- The name and the tags in the arguments of the card are not those of its story. -/
theorem storiesFile?_source_card :
    (card cardArgs (by decide)).source =
      "\x7b% stories card with \x7b title: \"Kit/Card\" \x7d %\x7d\n" ++
      "\x7b% story default with \x7b name: 'Card', args: " ++
      "\x7bname: \"\\\" \x7d\", deep: \x7btags: ['new']\x7d\x7d \x7d %\x7d<p>\x7b</p>" ++
      "\x7b% endstory %\x7d\n" ∧
    ∃ f, storiesFile? (card cardArgs (by decide)).source "" = some f ∧
      f.stories = [⟨"Card", [], ⟨none, "card/default"⟩⟩] ∧
      storiesFile? (card [] (by decide)).source "" = some f := by
  constructor
  · decide +kernel
  · have h := storiesFile?_source (card cardArgs (by decide)) ""
    obtain ⟨f, hf, -, -, hstories⟩ := h.1
    refine ⟨f, hf, hstories.trans (by decide +kernel), ?_⟩
    rw [← hf]
    exact h.2.2 (card [] (by decide)) rfl

end StoryTemplate

end ComponentStories
