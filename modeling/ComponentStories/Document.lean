import ComponentStories.Argument
import ComponentStories.Text.Blank

/-
# Story documents

A story document is the template of one component's preview: a header with a title, one story with
the defaults and controls of the arguments, and the component embedded with those arguments.
-/

namespace ComponentStories

/-! ## Settings -/

/-- What every document of a site has in common. -/
structure Settings where
  /-- The group in front of every title. -/
  group : String
  /-- The identifier of the story. -/
  storyId : String
  /-- The name of the story. -/
  storyName : String
  /-- The tags of the story. -/
  tags : List String
  deriving DecidableEq, Repr

/-- The settings of a site that sets nothing. -/
def Settings.standard : Settings where
  group := "Components/SDC"
  storyId := "default"
  storyName := "Default SDC"
  tags := ["project"]

instance : Inhabited Settings := ⟨Settings.standard⟩

/-! ## Documents -/

/-- The document of one component. -/
structure StoryDocument where
  /-- The title, with its group. -/
  title : String
  /-- The identifier of the stories, made from the machine name. -/
  storiesId : String
  /-- The identifier of the component. -/
  componentId : String
  /-- The identifier of the story. -/
  storyId : String
  /-- The name of the story. -/
  storyName : String
  /-- The names that are passed to the component. -/
  argsOrder : List String
  /-- The names and the literals of the defaults, led by the title. -/
  defaults : List (String × String)
  /-- The names and the literals of the controls. -/
  argTypes : List (String × String)
  /-- The tags of the story. -/
  tags : List String
  deriving DecidableEq, Repr

/-- The text as a quoted literal. -/
def quotedLiteral (s : String) : String := (Json.text s).compact

/-- The machine name with underscores in place of hyphens. -/
def storiesIdOf (machineName : String) : String :=
  String.ofList (machineName.toList.map fun c => if c = '-' then '_' else c)

/-- The group without slashes at its end, a slash, and the name. -/
def titleOf (group name : String) : String :=
  String.ofList (Text.dropEndWhile (· == '/') group.toList ++ '/' :: name.toList)

/-- The document of a component under an identifier; none without arguments. -/
def StoryDocument.assemble? (componentId : String) (c : Component) (args : List Argument)
    (settings : Settings) : Option StoryDocument :=
  if args.isEmpty then none
  else some {
    title := titleOf settings.group c.name
    storiesId := storiesIdOf c.machineName
    componentId := componentId
    storyId := settings.storyId
    storyName := settings.storyName
    argsOrder := args.map Argument.name
    defaults := ("title", quotedLiteral c.name) :: args.map fun a => (a.name, a.defaultLiteral)
    argTypes := args.map fun a => (a.name, a.control.literal)
    tags := settings.tags }

/-- The document of a component under its own identifier. -/
def Component.document? (c : Component) (settings : Settings) : Option StoryDocument :=
  StoryDocument.assemble? c.id c c.arguments settings

namespace StoryDocument

/-! ## The text -/

/-- An entry of a block: name and literal. -/
def entryText (e : String × String) : List Char := e.1.toList ++ ": ".toList ++ e.2.toList

/-- What stands between two entries of a block that is indented by `depth` spaces. -/
def separator (depth : Nat) : List Char := ',' :: '\n' :: List.replicate depth ' '

/-- The entries of a block of names and literals. -/
def pairBlock (es : List (String × String)) : List Char :=
  Text.join (separator 12) (es.map entryText)

/-- The entries of the block of the embedded component. -/
def nameBlock (names : List String) : List Char :=
  Text.join (separator 8) (names.map String.toList)

/-- The tags between single quotes. -/
def tagList (tags : List String) : List Char :=
  '[' :: Text.join ", ".toList (tags.map fun t => '\'' :: t.toList ++ ['\'']) ++ [']']

/-- The characters of the document. -/
def chars (d : StoryDocument) : List Char :=
  "\x7b% stories ".toList ++ d.storiesId.toList ++
  " with \x7b title: ".toList ++ (quotedLiteral d.title).toList ++
  " \x7d %\x7d\n\n    \x7b% story ".toList ++ d.storyId.toList ++
  " with \x7b\n        name: '".toList ++ d.storyName.toList ++
  "',\n        args: \x7b\n            ".toList ++ pairBlock d.defaults ++
  "\n        \x7d,\n        argTypes: \x7b\n            ".toList ++ pairBlock d.argTypes ++
  "\n        \x7d,\n        tags: ".toList ++ tagList d.tags ++
  "\n    \x7d %\x7d\n\n    \x7b% embed \"".toList ++ d.componentId.toList ++
  "\" with \x7b\n        ".toList ++ nameBlock d.argsOrder ++
  "\n    \x7d %\x7d\n".toList ++
  "    \x7b% endembed %\x7d\n\n  \x7b% endstory %\x7d\n\n\x7b% endstories %\x7d\n".toList

/-- The text of the document. -/
def render (d : StoryDocument) : String := String.ofList d.chars

end StoryDocument

end ComponentStories
