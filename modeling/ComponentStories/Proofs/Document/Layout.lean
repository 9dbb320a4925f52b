import ComponentStories.Proofs.Argument.Inputs
import ComponentStories.Proofs.Template.Header
import Mathlib.Data.List.DropRight

/-
# The layout of a document

What the document of a component holds (`Describes`), and its text in the parts that a reader of it
meets: the header, the opening of the story, the values of the story, its tags, and the embedded
component (`chars_eq`).
-/

namespace ComponentStories

open Text

/-! ## Names -/

/-- A plain name: letters, digits, underscores and hyphens, at least one of them. -/
def IsPlainName (s : String) : Prop := s.toList ≠ [] ∧ ∀ c ∈ s.toList, isWord c = true ∨ c = '-'

instance (s : String) : Decidable (IsPlainName s) := inferInstanceAs (Decidable (_ ∧ _))

theorem IsPlainName.notMem {s : String} (h : IsPlainName s) {c : Char} (hc : isWord c = false)
    (hdash : c ≠ '-') : c ∉ s.toList := by
  intro hmem
  rcases h.2 c hmem with hw | hd
  · rw [hc] at hw
    exact absurd hw (by decide)
  · exact hdash hd

/-- The title is the group without the slashes at its end, a slash, and the name. -/
theorem titleOf_eq (group name : String) :
    titleOf group name = String.ofList (group.toList.rdropWhile (· = '/')) ++ "/" ++ name := by
  have hdrop : dropEndWhile (· == '/') group.toList = group.toList.rdropWhile (· = '/') := by
    rw [dropEndWhile, List.rdropWhile]
    congr 1
  rw [← String.toList_inj, titleOf, hdrop]
  simp

/-- The identifier of the stories is the machine name, each hyphen replaced by an underscore. -/
theorem storiesIdOf_eq (machineName : String) :
    storiesIdOf machineName = machineName.map fun ch => if ch = '-' then '_' else ch := by
  rw [← String.toList_inj, storiesIdOf, String.toList_ofList, String.toList_map]

/-- A plain machine name gives a word as the identifier of the stories. -/
theorem isWord_storiesIdOf {machineName : String} (h : IsPlainName machineName) :
    Template.IsWord (storiesIdOf machineName).toList := by
  rw [storiesIdOf, String.toList_ofList]
  constructor
  · rw [ne_eq, List.map_eq_nil_iff]
    exact h.1
  · intro c hc
    obtain ⟨d, hd, rfl⟩ := List.mem_map.mp hc
    split
    · decide
    · rename_i hne
      exact (h.2 d hd).resolve_right hne

theorem toList_quotedLiteral (s : String) : (quotedLiteral s).toList = Quoted.encode s.toList := by
  rw [quotedLiteral, Json.compact, String.toList_ofList, Json.chars]

/-- The names and the default literals of the arguments. -/
def Component.defaultEntries (c : Component) : List (String × String) :=
  c.arguments.map fun a => (a.name, a.defaultLiteral)

/-- The names and the control literals of the arguments. -/
def Component.controlEntries (c : Component) : List (String × String) :=
  c.arguments.map fun a => (a.name, a.control.literal)

namespace StoryDocument

/-! ## What a document holds -/

/-- The document holds what the component, its arguments and the settings say. -/
structure Describes (d : StoryDocument) (id : String) (c : Component) (settings : Settings) :
    Prop where
  /-- The title is the name in its group. -/
  title : d.title = titleOf settings.group c.name
  /-- The stories are identified by the machine name. -/
  storiesId : d.storiesId = storiesIdOf c.machineName
  /-- The component is the one asked for. -/
  componentId : d.componentId = id
  /-- The story has the identifier of the settings. -/
  storyId : d.storyId = settings.storyId
  /-- The story has the name of the settings. -/
  storyName : d.storyName = settings.storyName
  /-- Every argument is passed on. -/
  argsOrder : d.argsOrder = c.arguments.map Argument.name
  /-- The name and every argument have a default. -/
  defaults : d.defaults = ("title", quotedLiteral c.name) :: c.defaultEntries
  /-- Every argument has a control. -/
  argTypes : d.argTypes = c.controlEntries
  /-- The story has the tags of the settings. -/
  tags : d.tags = settings.tags

/-- A component with inputs has a document, which holds what the component says. -/
theorem exists_describes {c : Component} (h : c.hasNoInputs = false) (id : String)
    (settings : Settings) :
    ∃ d, assemble? id c c.arguments settings = some d ∧ Describes d id c settings := by
  have hne : ¬ c.arguments.isEmpty = true := by
    rw [List.isEmpty_iff, Component.arguments_eq_nil_iff, h]
    decide
  rw [assemble?, if_neg hne]
  exact ⟨_, rfl, ⟨rfl, rfl, rfl, rfl, rfl, rfl, rfl, rfl, rfl⟩⟩

/-- A document that is assembled holds what the component says, and the component has arguments. -/
theorem describes_of_assemble? {d : StoryDocument} {id : String} {c : Component}
    {settings : Settings} (h : assemble? id c c.arguments settings = some d) :
    c.arguments ≠ [] ∧ Describes d id c settings := by
  rw [assemble?] at h
  split at h
  · exact absurd h (by simp)
  · rename_i hne
    rw [Option.some.injEq] at h
    refine ⟨fun hnil => hne (List.isEmpty_iff.mpr hnil), ?_⟩
    subst h
    exact ⟨rfl, rfl, rfl, rfl, rfl, rfl, rfl, rfl, rfl⟩

/-- A plain machine name makes the identifier of the stories a word. -/
theorem Describes.isWord {d : StoryDocument} {id : String} {c : Component} {settings : Settings}
    (h : Describes d id c settings) (hmachine : IsPlainName c.machineName) :
    Template.IsWord d.storiesId.toList := by
  rw [h.storiesId]
  exact isWord_storiesIdOf hmachine

/-! ## The parts of the text -/

/-- The header, up to the opening of the story. -/
def headerText (d : StoryDocument) : List Char :=
  "\x7b% stories ".toList ++ (d.storiesId.toList ++ (" with \x7b title: ".toList ++
    ((quotedLiteral d.title).toList ++ " \x7d %\x7d\n\n    ".toList)))

/-- The opening of the story, up to the brace of its options. -/
def storyOpening (d : StoryDocument) : List Char :=
  "\x7b% story ".toList ++ (d.storyId.toList ++ " with \x7b".toList)

/-- A block of names and literals between its braces. -/
def block (es : List (String × String)) : List Char :=
  '{' :: (("\n            ".toList ++ (pairBlock es ++ "\n        ".toList)) ++ ['}'])

/-- A block in front of a text, up to the brace that closes it. -/
theorem block_append (es : List (String × String)) (s : List Char) :
    block es ++ s =
      '{' :: ("\n            ".toList ++ (pairBlock es ++ ("\n        \x7d".toList ++ s))) := by
  have hend : "\n        \x7d".toList = "\n        ".toList ++ ['}'] := by decide
  rw [block, hend, List.cons_append]
  simp only [List.append_assoc]

/-- The options of the story that hold its name and its values. -/
def valueText (d : StoryDocument) : List Char :=
  "\n        name: '".toList ++ (d.storyName.toList ++ ("',\n        args: ".toList ++
    (block d.defaults ++ (",\n        argTypes: ".toList ++ block d.argTypes))))

/-- The options of the story that hold its tags. -/
def tagText (d : StoryDocument) : List Char :=
  ",\n        tags: ".toList ++ (tagList d.tags ++ "\n    ".toList)

/-- The names that are passed on, between the braces of their group. -/
def nameText (names : List String) : List Char :=
  "\n        ".toList ++ (nameBlock names ++ "\n    ".toList)

/-- The end of every document. -/
def footText : List Char :=
  "%\x7d\n".toList ++
  "    \x7b% endembed %\x7d\n\n  \x7b% endstory %\x7d\n\n\x7b% endstories %\x7d\n".toList

/-- What follows the identifier of the embedded component. -/
def closingText (d : StoryDocument) : List Char :=
  "\" with ".toList ++ '{' :: (nameText d.argsOrder ++ '}' :: ' ' :: footText)

/-- What follows the options of the story. -/
def embedText (d : StoryDocument) : List Char :=
  "\n\n    \x7b% embed \"".toList ++ (d.componentId.toList ++ d.closingText)

/-- **The parts of a document**, in order. -/
theorem chars_eq (d : StoryDocument) :
    d.chars = d.headerText ++ (d.storyOpening ++ (d.valueText ++ (d.tagText ++
      ("\x7d %\x7d".toList ++ d.embedText)))) := by
  -- the fixed texts of the layout, cut where a part ends
  have hstory : " \x7d %\x7d\n\n    \x7b% story ".toList =
      " \x7d %\x7d\n\n    ".toList ++ "\x7b% story ".toList := by decide
  have hname : " with \x7b\n        name: '".toList =
      " with \x7b".toList ++ "\n        name: '".toList := by decide
  have hargs : "',\n        args: \x7b\n            ".toList =
      "',\n        args: ".toList ++ '{' :: "\n            ".toList := by decide
  have htypes : "\n        \x7d,\n        argTypes: \x7b\n            ".toList =
      "\n        ".toList ++
        '}' :: (",\n        argTypes: ".toList ++ '{' :: "\n            ".toList) := by decide
  have htags : "\n        \x7d,\n        tags: ".toList =
      "\n        ".toList ++ '}' :: ",\n        tags: ".toList := by decide
  have hembed : "\n    \x7d %\x7d\n\n    \x7b% embed \"".toList =
      "\n    ".toList ++ ("\x7d %\x7d".toList ++ "\n\n    \x7b% embed \"".toList) := by decide
  have hnames : "\" with \x7b\n        ".toList =
      "\" with ".toList ++ '{' :: "\n        ".toList := by decide
  have hfoot : "\n    \x7d %\x7d\n".toList =
      "\n    ".toList ++ '}' :: ' ' :: "%\x7d\n".toList := by decide
  unfold chars
  rw [hstory, hname, hargs, htypes, htags, hembed, hnames, hfoot]
  unfold headerText storyOpening valueText tagText embedText closingText nameText footText block
  simp only [List.append_assoc, List.cons_append, List.nil_append]

end StoryDocument

end ComponentStories
