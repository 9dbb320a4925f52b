import ComponentStories.Component.Source
import ComponentStories.FileName
import ComponentStories.FileSystem.Walk
import ComponentStories.Registry

/-
# Finding components

The components of a directory are defined by the files below it whose names say so.  The identifier
of a component begins with its provider: the extension that the component belongs to, told by
markers and by the names of directories.  A file that cannot be understood is passed over.
-/

namespace ComponentStories

/-! ## Failures -/

/-- Why a component is not loaded. -/
inductive LoadError
  /-- The file cannot be read. -/
  | read (path : String) (cause : IoError)
  /-- The text is no document of a component. -/
  | invalidYaml (path : String)
  /-- The name of the file does not say that it defines a component. -/
  | invalidFileName (path : String)
  /-- There is no such directory. -/
  | directoryNotFound (path : String)
  deriving DecidableEq, Repr

/-- The text of a failure. -/
def LoadError.message : LoadError → String
  | read path cause => "Failed to read " ++ path ++ ": " ++ cause.message
  | invalidYaml path => "Invalid YAML in " ++ path
  | invalidFileName path => "Not a component definition file: " ++ path
  | directoryNotFound path => "Components directory not found: " ++ path

/-- The messages of the causes, the nearest first. -/
def LoadError.causes : LoadError → List String
  | read _ cause => [cause.message]
  | _ => []

namespace FileSystem

/-! ## One component -/

/-- The component that a file defines for a provider. -/
def loadComponent (fs : FileSystem) (path provider : String) : Except LoadError Component :=
  match FileName.machineName? path with
  | none => .error (.invalidFileName path)
  | some name =>
    match fs.readText path with
    | .error e => .error (.read path e)
    | .ok source =>
      let dir := (Path.parent? path).getD ""
      match Component.ofSource? source (provider ++ ":" ++ name) name dir with
      | some c => .ok c
      | none => .error (.invalidYaml path)

/-! ## Providers -/

/-- The name of a directory that holds a marker of that name. -/
def markedName? (fs : FileSystem) (dir : String) : Option String :=
  (Path.fileName? dir).filter fun name => fs.isFile (Path.join dir (name ++ ".info.yml"))

/-- The name above a directory `components`. -/
def nameAboveComponents? (dir : String) : Option String :=
  if Path.fileName? dir = some "components" then (Path.parent? dir).bind Path.fileName? else none

/-- The provider of a component in a directory below a root: the nearest marked directory, else the
one above the nearest directory `components`, else the root. -/
def provider (fs : FileSystem) (root dir : String) : String :=
  let dirs := Path.ancestorsWithin dir root
  match dirs.findSome? fs.markedName? with
  | some name => name
  | none =>
    match dirs.findSome? nameAboveComponents? with
    | some name => name
    | none => (Path.fileName? root).getD "components"

/-! ## All components of a directory -/

/-- What a search has found so far. -/
structure Found where
  /-- The registry with what was found. -/
  registry : Registry
  /-- How many components were found. -/
  count : Nat
  /-- What is told of it. -/
  log : List Record

/-- The search after one more file. -/
def Found.visit (fs : FileSystem) (root : String) (found : Found) (path : String) : Found :=
  let dir := (Path.parent? path).getD root
  match fs.loadComponent path (fs.provider root dir) with
  | .ok c =>
    { registry := found.registry.insert c
      count := found.count + 1
      log := found.log ++ [⟨.debug, "Loaded component " ++ c.id ++ " from " ++ path⟩] ++
        found.registry.replacedLog c }
  | .error e =>
    { found with log := found.log ++ [⟨.warn, "Skipping component definition: " ++ e.message⟩] }

/-- The paths of the files below a directory that are looked at as definitions. -/
def componentFiles (fs : FileSystem) (dir : String) : List String :=
  (fs.filesBelow dir).filter fun path => (Path.fileName? path).any FileName.isComponent

/-- Puts the components below a directory into a registry. -/
def scan (fs : FileSystem) (dir : String) (r : Registry) : Except LoadError Found :=
  if fs.isDirectory dir then
    .ok ((fs.componentFiles dir).foldl (Found.visit fs dir) ⟨r, 0, []⟩)
  else .error (.directoryNotFound dir)

end FileSystem

end ComponentStories
