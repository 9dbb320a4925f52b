import ComponentStories.Command
import ComponentStories.Command.Scaffold
import ComponentStories.Component.Generate
import ComponentStories.Config

/-
# Running commands

A command runs on a file system.  It ends well or with a failure; either way it leaves a file system
and tells what was done.
-/

namespace ComponentStories

/-! ## Ends -/

/-- How a command ends. -/
structure End where
  /-- What is told. -/
  log : List Record
  /-- Why it failed, if it did. -/
  failure : Option Failure
  /-- The file system behind it. -/
  files : FileSystem

namespace End

/-- The end with more told in front. -/
def behind (log : List Record) (e : End) : End := { e with log := log ++ e.log }

/-- The end with a failure that has a cause. -/
def failed (log : List Record) (message : String) (causes : List String) (fs : FileSystem) : End :=
  ⟨log, some ⟨message, causes⟩, fs⟩

end End

/-! ## Batches -/

/-- How many files were generated, skipped, and failed to be generated. -/
structure Tally where
  /-- How many were generated. -/
  generated : Nat
  /-- How many were skipped. -/
  skipped : Nat
  /-- How many failed. -/
  failed : Nat
  deriving DecidableEq, Repr

namespace Tally

/-- The tally with one more result. -/
def add (t : Tally) : Except GenerateError Outcome → Tally
  | .ok o =>
    if o.isGenerated then { t with generated := t.generated + 1 }
    else { t with skipped := t.skipped + 1 }
  | .error _ => { t with failed := t.failed + 1 }

/-- The tally of some results. -/
def ofResults (results : List (Except GenerateError Outcome)) : Tally :=
  results.foldl add ⟨0, 0, 0⟩

/-- The text of a tally. -/
def text (t : Tally) : String :=
  toString t.generated ++ " generated, " ++ toString t.skipped ++ " skipped, " ++
    toString t.failed ++ " failed"

end Tally

/-- What is told of each failure. -/
def failureLog (results : List (Except GenerateError Outcome)) : List Record :=
  results.filterMap fun r =>
    match r with
    | .ok _ => none
    | .error e => some ⟨.error, e.message⟩

/-- The end of a batch: every failure is told, then the tally, and the
batch fails if anything did. -/
def batchEnd (attempts : List Attempt) (fs : FileSystem) : End :=
  let results := Attempt.results attempts
  let tally := Tally.ofResults results
  { log := Attempt.logs attempts ++ failureLog results ++ [⟨.info, tally.text⟩]
    failure :=
      if tally.failed = 0 then none
      else some ⟨toString tally.failed ++ " of " ++ toString results.length ++
        " stories failed to generate", []⟩
    files := fs }

/-! ## Components -/

/-- The registry of all components in some directories, or why there is none, and what is told. -/
def collect (fs : FileSystem) :
    List String → Registry → List Record → Except Failure Registry × List Record
  | [], r, log => (.ok r, log)
  | dir :: dirs, r, log =>
    match fs.scan dir r with
    | .error e => (.error ⟨"Failed to scan " ++ dir, e.message :: e.causes⟩, log)
    | .ok found =>
      collect fs dirs found.registry (log ++ found.log ++
        [⟨.debug, "Loaded " ++ toString found.count ++ " components from " ++ dir⟩])

/-- The registry of all components of a configuration, or why there is none, and what is told. -/
def Config.registry (c : Config) (fs : FileSystem) : Except Failure Registry × List Record :=
  match collect fs (c.existingDirs fs) Registry.empty [] with
  | (.ok r, log) => (.ok r, log ++ [⟨.info, "Found " ++ toString r.size ++ " components"⟩])
  | (.error e, log) => (.error e, log)

/-- Generates the story template of one component. -/
def runComponent (c : Config) (id : String) (force : Bool) (fs : FileSystem) : End :=
  match c.registry fs with
  | (.error e, log) => ⟨log, some e, fs⟩
  | (.ok r, log) =>
    match r.find? id with
    | none => .failed log ("Component with id '" ++ id ++ "' not found.") [] fs
    | some component =>
      match component.generate c.settings force fs with
      | (⟨.ok _, told⟩, fs) => ⟨log ++ told, none, fs⟩
      | (⟨.error e, told⟩, fs) =>
        .failed (log ++ told) ("Failed to generate stories for " ++ id) (e.message :: e.causes) fs

/-- Generates the story templates of all components. -/
def runAllComponents (c : Config) (force : Bool) (fs : FileSystem) : End :=
  match c.registry fs with
  | (.error e, log) => ⟨log, some e, fs⟩
  | (.ok r, log) =>
    let (attempts, fs) := r.generateAll c.settings force fs
    (batchEnd attempts fs).behind log

/-! ## Templates -/

/-- The address that goes into stories files, and what is told of it. -/
def Config.chosenUrl (c : Config) (leaveOut : Bool) : Option String × List Record :=
  if leaveOut then (none, [])
  else
    match c.serverUrl with
    | some base => (some (renderUrl base), [])
    | none => (none, [⟨.warn, "No [server] base_url configured, omitting server URL"⟩])

/-- Does something with the site of a configuration. -/
def withSite (c : Config) (fs : FileSystem) (act : Site → FileSystem → End) : End :=
  match Site.prepare c.root c.storiesDir fs with
  | (.error e, fs) =>
    .failed [] "Failed to set up stories directory" (e.message :: e.causes) fs
  | (.ok site, fs) => act site fs

/-- Generates the stories file of one template. -/
def runTemplate (c : Config) (template : String) (force leaveUrlOut : Bool) (fs : FileSystem) :
    End :=
  let template := Path.join c.root template
  let (url, log) := c.chosenUrl leaveUrlOut
  (withSite c fs fun site fs =>
    match site.generate ⟨force, url⟩ template fs with
    | (⟨.ok _, told⟩, fs) => ⟨told, none, fs⟩
    | (⟨.error e, told⟩, fs) =>
      .failed told ("Failed to generate stories for " ++ template)
        (e.message :: e.causes) fs).behind log

/-- Generates the stories files of all templates. -/
def runAllTemplates (c : Config) (force putUrlIn leaveUrlOut : Bool) (fs : FileSystem) : End :=
  let (url, log) := c.chosenUrl (leavesUrlOut leaveUrlOut putUrlIn)
  (withSite c fs fun site fs =>
    match site.generateAll ⟨force, url⟩ fs with
    | (.error e, fs) =>
      .failed [] "Failed to discover stories templates" (e.message :: e.causes) fs
    | (.ok attempts, fs) =>
      (batchEnd attempts fs).behind
        [⟨.debug, "Found " ++ toString attempts.length ++ " stories templates"⟩]).behind log

/-! ## All commands -/

/-- Writes the first configuration files. -/
def runScaffold (overwrite : Bool) (fs : FileSystem) : End :=
  let step := Scaffold.run overwrite fs
  let done : List Record :=
    if step.failure.isSome then []
    else [⟨.info, "Initialization complete!"⟩,
      ⟨.info, "Run 'storyforge generate-all-component-stories' to generate story templates."⟩]
  ⟨⟨.info, "Initializing storyforge..."⟩ :: step.log ++ done, step.failure, step.files⟩

/-- Does something with the configuration in a file. -/
def withConfig (path : String) (fs : FileSystem) (act : Config → FileSystem → End) : End :=
  match Config.load fs path with
  | .error e => .failed [] e.message e.causes fs
  | .ok c => (act c fs).behind (Config.loadLog fs path)

/-- Runs a command with the configuration in a file. -/
def Command.run (config : String) (command : Command) (fs : FileSystem) : End :=
  match command with
  | .scaffold overwrite => runScaffold overwrite fs
  | .componentTemplate id force => withConfig config fs fun c fs => runComponent c id force fs
  | .allComponentTemplates force => withConfig config fs fun c fs => runAllComponents c force fs
  | .storiesFile template force leaveUrlOut =>
    withConfig config fs fun c fs => runTemplate c template force leaveUrlOut fs
  | .allStoriesFiles force putUrlIn leaveUrlOut =>
    withConfig config fs fun c fs => runAllTemplates c force putUrlIn leaveUrlOut fs

/-! ## The program -/

/-- The line that names the program and its version. -/
def versionLine : String := "storyforge 0.1.0"

/-- The account of the commands. -/
def helpText : String := "Generates Storybook stories from component definitions

Usage: storyforge [--config <CONFIG>] [--verbose] <COMMAND>

Commands:
  init [--yes]
  generate-component-stories <COMPONENT_ID> [--force]
  generate-all-component-stories [--force]
  generate-stories <TEMPLATE_PATH> [--force] [--omit-server-url]
  generate-all-stories [--force] [--include-server-url] [--omit-server-url]
  help"

/-- The report about arguments that ask for nothing that could be done. -/
def refusedReport : String := "error: unexpected arguments, try '--help'\n"

/-- What the program says and leaves. -/
structure Session where
  /-- The status that it ends with. -/
  status : Nat
  /-- What it says, piece by piece. -/
  said : List String
  /-- The report of its failure, if any. -/
  report : String
  /-- The file system behind it. -/
  files : FileSystem

/-- What the program does for some arguments. -/
def session (args : List String) (fs : FileSystem) : Session :=
  match Command.ofArguments args with
  | .refused => ⟨2, [], refusedReport, fs⟩
  | .help => ⟨0, [helpText], "", fs⟩
  | .version => ⟨0, [versionLine], "", fs⟩
  | .run i =>
    let e := i.command.run i.config fs
    let said := (told i.verbose e.log).map Record.text
    match e.failure with
    | none => ⟨0, said, "", e.files⟩
    | some f => ⟨1, said, f.report, e.files⟩

end ComponentStories
