import ComponentStories.FileName
import ComponentStories.FileSystem.Walk
import ComponentStories.Outcome
import ComponentStories.Policy
import ComponentStories.Store
import ComponentStories.Template.Reader

/-
# Stories files of a site

A site has a root, below which its story templates lie, and a directory for the stories files made
from them.  A stories file is written again when its template is newer.  Templates outside of the
root are refused when they are looked for.
-/

namespace ComponentStories

/-! ## Addresses -/

/-- The address that markup is served at, for the address of a server. -/
def renderUrl (base : String) : String :=
  String.ofList (Text.dropEndWhile (· == '/') base.toList) ++ "/storybook/stories/render"

/-- Whether a batch leaves the address out: on request, and unless it is asked for. -/
def leavesUrlOut (leaveOut putIn : Bool) : Bool := leaveOut || !putIn

/-! ## Sites -/

/-- A site: its root, and the directory of its stories files. -/
structure Site where
  /-- The root. -/
  root : String
  /-- The directory of the stories files. -/
  storiesDir : String
  deriving DecidableEq, Repr

/-- How stories files are generated. -/
structure Request where
  /-- Whether a stories file is written that is newer than its template. -/
  force : Bool
  /-- The address that markup is served at, if it is put in. -/
  serverUrl : Option String
  deriving DecidableEq, Repr

namespace Site

/-- The directory of the stories files when the site does not say. -/
def standardStoriesDir : String := "../storybook/stories"

/-- The directories below the root where templates are looked for. -/
def templateDirs : List String := ["themes", "modules", "profiles"]

/-- The site with a root and a directory for stories files, which is taken from the root
and made if it is missing. -/
def prepare (root dir : String) (fs : FileSystem) : Except GenerateError Site × FileSystem :=
  let storiesDir := Path.join root dir
  match fs.makeDirectories storiesDir with
  | (.ok (), fs) => (.ok ⟨root, storiesDir⟩, fs)
  | (.error e, fs) => (.error (.storiesDirectory storiesDir e), fs)

/-- The path of the stories file of a template. -/
def storiesPath (site : Site) (template : String) : String :=
  Path.join site.storiesDir (FileName.storiesFile ((Path.fileName? template).getD ""))

/-! ## Looking for templates -/

/-- Whether a path leads to a location at or below the one that another path leads to. -/
def isInside (fs : FileSystem) (path root : String) : Bool :=
  match fs.locate path, fs.locate root with
  | .ok l, .ok r => r.isPrefixOf l
  | _, _ => false

/-- Why a path is none of a template of the site, if it is none. -/
def templateFault? (site : Site) (fs : FileSystem) (path : String) : Option GenerateError :=
  if !FileName.endsAsTemplate path then some (.invalidTemplatePath path)
  else if isInside fs path site.root then none
  else some (.outsideRoot path)

/-- The paths of the files below a directory that are looked at as templates. -/
def templateFiles (site : Site) (fs : FileSystem) (dir : String) : List String :=
  (fs.filesBelow (Path.join site.root dir)).filter fun path =>
    (Path.fileName? path).any FileName.isTemplate

/-- The templates below a directory of the site, or the first fault of one. -/
def templatesIn (site : Site) (fs : FileSystem) (dir : String) :
    Except GenerateError (List String) :=
  let paths := site.templateFiles fs dir
  match paths.findSome? (site.templateFault? fs) with
  | some e => .error e
  | none => .ok paths

/-- The templates below some directories of the site, or the first fault of one. -/
def templatesInAll (site : Site) (fs : FileSystem) :
    List String → Except GenerateError (List String)
  | [] => .ok []
  | dir :: dirs =>
    match site.templatesIn fs dir with
    | .error e => .error e
    | .ok paths => (site.templatesInAll fs dirs).map (paths ++ ·)

/-- The templates of the site, or the first fault of one. -/
def templates (site : Site) (fs : FileSystem) : Except GenerateError (List String) :=
  site.templatesInAll fs templateDirs

/-! ## Generating -/

/-- The stories file that a template makes. -/
def readStories (fs : FileSystem) (template serverUrl : String) :
    Except TemplateError StoriesFile :=
  match fs.readText template with
  | .error e => .error (.read template e)
  | .ok source =>
    match Template.storiesFile? source serverUrl with
    | some file => .ok file
    | none => .error (.noHeader template)

/-- What is to be done for a template. -/
inductive Plan
  /-- Nothing, since the stories file is newer. -/
  | upToDate
  /-- The stories file is to be written. -/
  | write (file : StoriesFile)
  deriving DecidableEq, Repr

/-- Whether a stories file is older than its template, for the times of both.  Without a template
there is something to find out. -/
def needsTemplate (template stories : Option Int) : Bool :=
  match template with
  | some time => isStale time stories
  | none => true

/-- What is to be done for a template. -/
def plan (site : Site) (fs : FileSystem) (request : Request) (template : String) :
    Except GenerateError Plan :=
  let path := site.storiesPath template
  match fs.modified template, fs.modified path with
  | .error e, _ => .error (.metadata template e)
  | .ok _, .error e => .error (.metadata path e)
  | .ok source, .ok made =>
    if Policy.staleness.shouldGenerate made.isSome (needsTemplate source made) request.force then
      match readStories fs template (request.serverUrl.getD "") with
      | .ok file => .ok (.write file)
      | .error e => .error (.render path e)
    else .ok .upToDate

/-- Generates the stories file of a template. -/
def generate (site : Site) (request : Request) (template : String) (fs : FileSystem) :
    Attempt × FileSystem :=
  let path := site.storiesPath template
  match site.plan fs request template with
  | .error e => (Attempt.failed e, fs)
  | .ok .upToDate =>
    (⟨.ok (.skipped path .upToDate), [⟨.info, "Skipping JSON file generation for " ++ path⟩]⟩, fs)
  | .ok (.write file) =>
    let shown : Record := ⟨.debug, "Stories for " ++ template ++ ":\n" ++ file.pretty⟩
    match fs.write path (.text file.render) with
    | (.ok (), fs) =>
      (⟨.ok (.generated path), [shown, ⟨.info, "JSON file generated for " ++ path⟩]⟩, fs)
    | (.error e, fs) => (⟨.error (.write path e), [shown]⟩, fs)

/-- Generates the stories files of all templates of the site.  Nothing is written
when one of them is at fault. -/
def generateAll (site : Site) (request : Request) (fs : FileSystem) :
    Except GenerateError (List Attempt) × FileSystem :=
  match site.templates fs with
  | .error e => (.error e, fs)
  | .ok paths =>
    let (attempts, fs) := inTurn (site.generate request) paths fs
    (.ok attempts, fs)

end Site

end ComponentStories
