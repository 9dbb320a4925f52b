import ComponentStories.Proofs.Template.Header
import ComponentStories.Proofs.Template.Hidden
import ComponentStories.Proofs.Template.Stories

/-
# Templates with one story whose options are pairs

A template with a header and one story tag has a stories file with one entry.  If the options of the
story are pairs of a key and a quoted text, the entry has the name of the pair with the key `name`
and no tags, unless a text hides a name or tags: a name that is hidden in front of that pair, and
tags that are hidden anywhere, are taken in place of them (`exists_storiesFile?_eq`).
-/

namespace ComponentStories

open Text Template

/-- A template with one story tag, whose options are pairs. -/
structure LoneStory where
  /-- The text in front of the tag. -/
  front : String
  /-- The identifier of the story. -/
  id : String
  /-- The opening of the tag, up to the brace of its options. -/
  opening : List Char
  /-- It is the opening of a story tag with the identifier. -/
  opens : Opens "story".toList id.toList opening
  /-- The blanks behind the brace. -/
  pad : List Char
  /-- They are blanks. -/
  blank : AllBlank pad
  /-- The options. -/
  pairs : List OptionPair
  /-- The text between the brace that closes the options and the end of the tag. -/
  rest : String
  /-- No tag begins or ends in it. -/
  free : '{' ∉ rest.toList ∧ '%' ∉ rest.toList
  /-- The text behind the tag. -/
  back : String
  /-- No other story tag opens in front of the tag, and none behind it. -/
  alone : storyIds (front.toList ++ ['{']) = [] ∧ storyIds back.toList = []

namespace LoneStory

/-- What stands between the brace that opens the options and the end of the tag. -/
def body (t : LoneStory) : List Char := pairChars t.pad t.pairs ++ '}' :: t.rest.toList

/-- The characters of the template. -/
def chars (t : LoneStory) : List Char :=
  t.front.toList ++ (t.opening ++ (t.body ++ '%' :: '}' :: t.back.toList))

/-- The text of the template. -/
def source (t : LoneStory) : String := String.ofList t.chars

theorem not_endsTag_body (t : LoneStory) : ¬ EndsTag t.body := by
  have hrest : TagFree t.rest.toList := (inert_of_notMem t.free.1 t.free.2).tagFree
  exact ((inert_pairChars t.blank t.pairs).2 _
    ((tagFree_cons (by decide) (by decide)).mpr hrest)).2

/-- Nothing opens between the opening of the tag and the text behind it. -/
theorem openings_body_append (t : LoneStory) (r : List Char) :
    openings 0 (t.body ++ '%' :: '}' :: r) = openings 0 r := by
  have hrest : '{' ∉ '}' :: (t.rest.toList ++ ['%', '}']) := by
    simp only [List.mem_cons, List.mem_append, not_or]
    exact ⟨by decide, t.free.1, by decide, by decide, List.not_mem_nil⟩
  have hsplit : t.body ++ '%' :: '}' :: r =
      pairChars t.pad t.pairs ++ ('}' :: (t.rest.toList ++ ['%', '}']) ++ r) := by
    simp only [body, List.append_assoc, List.cons_append, List.nil_append]
  rw [hsplit, openings_append_of_untagged (inert_pairChars t.blank t.pairs).tagFree.1 (by simp),
    openings_append_of_notMem hrest]

/-- The one story of the template is that of its tag. -/
theorem stories_chars (t : LoneStory) : Template.stories 0 t.chars = [(t.id.toList, t.body)] := by
  have hfront := openings_append_brace (storyIds_eq_nil_iff.mp t.alone.1)
  have hopenings : openings 0 t.chars =
      [(t.id.toList, t.body ++ '%' :: '}' :: t.back.toList)] := by
    obtain ⟨u, hu⟩ := t.opens.exists_eq
    rw [chars, hu, List.cons_append, hfront, ← List.cons_append, ← hu, openings_append t.opens,
      openings_body_append, storyIds_eq_nil_iff.mp t.alone.2]
  rw [stories_eq_map_openings, hopenings, List.map_singleton]
  dsimp only
  rw [untilTagEnd_append t.not_endsTag_body]

/-- The text of the pair with the key `name`, or the identifier if there is no such pair. -/
def ownName (t : LoneStory) : String :=
  ((t.pairs.find? fun p => p.key = "name").map OptionPair.text).getD t.id

/-- **The options of a lone story are found by their keys.**  A template with a header has a stories
file with one entry, under the identifiers of the stories and of the story.  Its name is the text of
the pair with the key `name`, or the identifier, as long as no text in front of that pair hides a
name, and it has no tags as long as no text hides tags.  Otherwise it has what a text hides. -/
theorem exists_storiesFile?_eq (t : LoneStory) {storiesId title : List Char}
    (h : header? t.source.toList = some (storiesId, title)) (url : String) :
    ∃ f e, storiesFile? t.source url = some f ∧ f.stories = [e] ∧
      e.server = ⟨none, String.ofList storiesId ++ "/" ++ t.id⟩ ∧
      ((¬ ∃ v, OptionPair.HiddenName t.pairs v) → e.name = t.ownName) ∧
      ((∃ v, OptionPair.HiddenName t.pairs v) →
        ∃ v, OptionPair.HiddenName t.pairs v ∧ e.name = String.ofList v) ∧
      ((¬ ∃ ts, OptionPair.HiddenTags t.pairs ts) → e.tags = []) ∧
      ((∃ ts, OptionPair.HiddenTags t.pairs ts) →
        ∃ ts, OptionPair.HiddenTags t.pairs ts ∧ e.tags = ts.map String.ofList) := by
  have hchars : t.source.toList = t.chars := String.toList_ofList
  have hentry := storyEntry_toList (String.ofList storiesId) t.id t.body
  rw [String.toList_ofList, body, topLevel_pairChars_append t.blank] at hentry
  have hfile : ∃ f, storiesFile? t.source url = some f ∧
      f.stories = [storyEntry storiesId (t.id.toList, t.body)] := by
    rw [storiesFile?, h, hchars, stories_chars]
    exact ⟨_, rfl, rfl⟩
  obtain ⟨f, hf, hstories⟩ := hfile
  refine ⟨f, _, hf, hstories, ?_⟩
  rw [body, hentry]
  refine ⟨rfl, ?_⟩
  dsimp only
  rw [← and_assoc]
  constructor
  · rcases OptionPair.nameOption_pairChars t.blank t.pairs with ⟨v, hv, hname⟩ | ⟨hnone, hname⟩
    · rw [hname]
      exact ⟨fun hno => absurd ⟨v, hv⟩ hno, fun _ => ⟨v, hv, rfl⟩⟩
    · refine ⟨fun _ => ?_, fun hsome => absurd hsome hnone⟩
      rw [hname, OptionPair.findSome?_name?, ownName]
      cases t.pairs.find? fun p => p.key = "name" with
      | none => exact String.ofList_toList
      | some p => exact String.ofList_toList
  · rcases OptionPair.tagsOption_pairChars t.blank t.pairs with ⟨ts, hts, htags⟩ | ⟨hnone, htags⟩
    · rw [htags]
      exact ⟨fun hno => absurd ⟨ts, hts⟩ hno, fun _ => ⟨ts, hts, rfl⟩⟩
    · rw [htags]
      exact ⟨fun _ => rfl, fun hsome => absurd hsome hnone⟩

/-- The template of a card with a name between a label and a note. -/
def noted (label note : OptionPair) : LoneStory where
  front := "\x7b% stories card with \x7b title: \"Kit/Card\" \x7d %\x7d\n"
  id := "default"
  opening := "\x7b% story default with \x7b".toList
  opens := opens_written "story".toList (by decide)
  pad := []
  blank := by decide
  pairs := [label, ⟨[' '], "name", [' '], '\'', "The \"card\"", [], by decide, by decide,
    rfl, by decide, by decide, by decide⟩, note]
  rest := " "
  free := by decide
  back := "\n\x7b% endstory %\x7d\n"
  alone := by decide

/-- A label that holds the key of a name, but no name behind it. -/
def surnamed : OptionPair :=
  ⟨[' '], "label", [' '], '"', "Given name: none, surname:'Wrong'", [], by decide, by decide,
    rfl, by decide, by decide, by decide⟩

/-- A note that begins with the key of tags. -/
def remark : OptionPair :=
  ⟨[' '], "note", [' '], '\'', "tags: [new]", [' '], by decide, by decide, rfl, by decide,
    by decide, by decide⟩

/-- What looks like a name or tags in the texts of the card is not taken for them. -/
theorem exists_storiesFile?_eq_surnamed :
    header? (noted surnamed remark).source.toList = some ("card".toList, "Kit/Card".toList) ∧
    ∃ f e, storiesFile? (noted surnamed remark).source "" = some f ∧ f.stories = [e] ∧
      e.name = "The \"card\"" ∧ e.tags = [] := by
  have hheader : header? (noted surnamed remark).source.toList =
      some ("card".toList, "Kit/Card".toList) := by
    rw [source, String.toList_ofList]
    decide +kernel
  obtain ⟨f, e, hf, he, -, hname, -, htags, -⟩ := exists_storiesFile?_eq _ hheader ""
  refine ⟨hheader, f, e, hf, he, ?_, ?_⟩
  · exact (hname (by decide +kernel)).trans (by decide)
  · exact htags (by decide +kernel)

/-- A label that hides a name. -/
def naming : OptionPair :=
  ⟨[' '], "label", [' '], '"', "First, name: 'Wrong'", [], by decide, by decide, rfl,
    by decide, by decide, by decide⟩

/-- A note that hides a list of tags. -/
def tagging : OptionPair :=
  ⟨[' '], "note", [' '], '\'', "See tags: [new]", [' '], by decide, by decide, rfl,
    by decide, by decide, by decide⟩

/-- **A text may hide the name of its story, and tags**: the entry then has them, although the pairs
have another name and no tags. -/
theorem exists_storiesFile?_ne_naming :
    (noted naming tagging).source =
      "\x7b% stories card with \x7b title: \"Kit/Card\" \x7d %\x7d\n" ++
      "\x7b% story default with \x7b label: \"First, name: 'Wrong'\"," ++
      " name: 'The \"card\"', note: 'See tags: [new]' \x7d %\x7d\n\x7b% endstory %\x7d\n" ∧
    (noted naming tagging).pairs.map OptionPair.key = ["label", "name", "note"] ∧
    (noted naming tagging).ownName = "The \"card\"" ∧
    (storiesFile? (noted naming tagging).source "").map StoriesFile.stories =
      some [⟨"Wrong", ["new"], ⟨none, "card/default"⟩⟩] := by
  refine ⟨by decide +kernel, by decide, by decide, ?_⟩
  rw [storiesFile?, source, String.toList_ofList]
  decide +kernel

end LoneStory

end ComponentStories
