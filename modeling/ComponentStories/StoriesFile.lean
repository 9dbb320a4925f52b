import ComponentStories.Json.Printer

/-
# Stories files

A stories file tells the preview tool the title of a group of stories, the stories, and under which
identifiers their markup is served.  It is stored as a value in the data interchange format, its
fields in a fixed order; an address that is not set and an empty list of tags are left out.
-/

namespace ComponentStories

/-! ## The file -/

/-- Where the markup of stories is served. -/
structure ServerParameters where
  /-- The address of the server, if it is set. -/
  url : Option String
  /-- The identifier of what is served. -/
  id : String
  deriving DecidableEq, Repr

/-- One story. -/
structure StoryEntry where
  /-- The name. -/
  name : String
  /-- The tags. -/
  tags : List String
  /-- Where its markup is served. -/
  server : ServerParameters
  deriving DecidableEq, Repr

/-- A stories file. -/
structure StoriesFile where
  /-- The title of the stories. -/
  title : String
  /-- Where their markup is served. -/
  server : ServerParameters
  /-- The stories, in order. -/
  stories : List StoryEntry
  deriving DecidableEq, Repr

/-! ## The file as a value -/

/-- The parameters as a value. -/
def ServerParameters.toJson (p : ServerParameters) : Json :=
  let url := match p.url with
    | some u => [("url", Json.text u)]
    | none => []
  .object [("server", .object (url ++ [("id", .text p.id)]))]

/-- The story as a value. -/
def StoryEntry.toJson (e : StoryEntry) : Json :=
  let tags := if e.tags.isEmpty then [] else [("tags", Json.texts e.tags)]
  .object (("name", .text e.name) :: tags ++ [("parameters", e.server.toJson)])

namespace StoriesFile

/-- The file as a value. -/
def toJson (f : StoriesFile) : Json :=
  .object [("title", .text f.title), ("parameters", f.server.toJson),
    ("stories", .array (f.stories.map StoryEntry.toJson))]

/-- The text of the file. -/
def render (f : StoriesFile) : String := f.toJson.compact

/-- The text of the file for people to read. -/
def pretty (f : StoriesFile) : String := f.toJson.pretty

end StoriesFile

end ComponentStories
