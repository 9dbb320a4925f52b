import ComponentStories.Component.Load
import ComponentStories.Document
import ComponentStories.Site
import ComponentStories.Toml.Reader

/-
# Configurations

A configuration says where the site lies, where its components are, where its stories files go and
under which address the server is reached.  Whatever it does not say has a standard.
-/

namespace ComponentStories

/-- A configuration. -/
structure Config where
  /-- The root of the site. -/
  root : String
  /-- The directories below the root where components are looked for. -/
  componentDirs : List String
  /-- The group in front of every title. -/
  group : String
  /-- The directory of the stories files, taken from the root. -/
  storiesDir : String
  /-- The address of the server, if it is known. -/
  serverUrl : Option String
  deriving DecidableEq, Repr

/-- Why a configuration cannot be loaded. -/
inductive ConfigError
  /-- The file cannot be read. -/
  | read (path : String) (cause : IoError)
  /-- The text is no configuration. -/
  | parse (path : String)
  deriving DecidableEq, Repr

/-- The text of a failure. -/
def ConfigError.message : ConfigError → String
  | read path _ => "Failed to read " ++ path
  | parse path => "Failed to parse " ++ path

/-- The messages of the causes, the nearest first. -/
def ConfigError.causes : ConfigError → List String
  | read _ cause => [cause.message]
  | parse _ => ["TOML parse error"]

namespace Config

/-- The configuration that says nothing. -/
def standard : Config where
  root := "web"
  componentDirs := Site.templateDirs
  group := Settings.standard.group
  storiesDir := Site.standardStoriesDir
  serverUrl := none

instance : Inhabited Config := ⟨standard⟩

/-! ## From a document -/

open Toml (Node)

/-- The text that a node is. -/
def text? : Node → Option String
  | .text s => some s
  | _ => none

/-- The texts that a node lists. -/
def texts? : Node → Option (List String)
  | .array items => items.mapM text?
  | _ => none

/-- The named parts of a section.  A list gives its items to the names in
order; a date gives none. -/
def section? (names : List String) : Node → Option (List (String × Node))
  | .closed entries => some entries
  | .table _ entries => some entries
  | .moment => some []
  | .array items => some (names.zip items)
  | .tables last earlier => some (names.zip (earlier.reverse ++ [last]))
  | _ => none

/-- What `read` gives for a part of a section, or the standard when the part is missing. -/
def part? {α : Type} (entries : List (String × Node)) (name : String) (read : Node → Option α)
    (standard : α) : Option α :=
  match entries.lookup name with
  | some n => read n
  | none => some standard

/-- The address in the section about the server.  An empty list is no such section. -/
def serverUrl? : Node → Option (Option String)
  | .array [] => none
  | n => do
    let entries ← section? ["base_url"] n
    part? entries "base_url" (fun n => (text? n).map some) none

/-- The configuration that the table of a document is. -/
def ofNode? (n : Node) : Option Config := do
  let root ← part? n.entries "project" (fun n => do
    let entries ← section? ["root"] n
    part? entries "root" text? standard.root) standard.root
  let (dirs, group) ← part? n.entries "components" (fun n => do
    let entries ← section? ["dirs", "namespace"] n
    let dirs ← part? entries "dirs" texts? standard.componentDirs
    let group ← part? entries "namespace" text? standard.group
    pure (dirs, group)) (standard.componentDirs, standard.group)
  let storiesDir ← part? n.entries "stories" (fun n => do
    let entries ← section? ["dir"] n
    part? entries "dir" text? standard.storiesDir) standard.storiesDir
  let serverUrl ← part? n.entries "server" serverUrl? standard.serverUrl
  pure ⟨root, dirs, group, storiesDir, serverUrl⟩

/-- The configuration that a text writes. -/
def ofText? (source : String) : Option Config := (Toml.document? source.toList).bind ofNode?

/-! ## From a file -/

/-- The configuration in a file; the standard one if there is no file. -/
def load (fs : FileSystem) (path : String) : Except ConfigError Config :=
  if fs.holds path then
    match fs.readText path with
    | .error e => .error (.read path e)
    | .ok source =>
      match ofText? source with
      | some c => .ok c
      | none => .error (.parse path)
  else .ok standard

/-- What is told of a configuration that was loaded. -/
def loadLog (fs : FileSystem) (path : String) : List Record :=
  if fs.holds path then [⟨.info, "Loaded config from " ++ path⟩]
  else [⟨.debug, "No config at " ++ path ++ ", using defaults"⟩]

/-! ## What a configuration stands for -/

/-- The directories of components that exist. -/
def existingDirs (c : Config) (fs : FileSystem) : List String :=
  (c.componentDirs.map (Path.join c.root)).filter fs.isDirectory

/-- The settings of the documents. -/
def settings (c : Config) : Settings := { Settings.standard with group := c.group }

end Config

end ComponentStories
