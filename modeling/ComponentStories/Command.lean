/-
# Commands

What the program can be asked to do, and how its arguments say it.  Options may stand in any order,
each at most once, the ones of the program in front of the command and the ones of a command behind
it.  Two hyphens end the options.
-/

namespace ComponentStories

/-! ## What can be asked -/

/-- What the program does. -/
inductive Command
  /-- Writes a first configuration. -/
  | scaffold (overwrite : Bool)
  /-- Generates the story template of one component. -/
  | componentTemplate (id : String) (force : Bool)
  /-- Generates the story templates of all components. -/
  | allComponentTemplates (force : Bool)
  /-- Generates the stories file of one template. -/
  | storiesFile (template : String) (force leaveUrlOut : Bool)
  /-- Generates the stories files of all templates. -/
  | allStoriesFiles (force putUrlIn leaveUrlOut : Bool)
  deriving DecidableEq, Repr

/-- A command with the path of the configuration, and whether everything is told. -/
structure Invocation where
  /-- The path of the configuration. -/
  config : String
  /-- Whether everything is told. -/
  verbose : Bool
  /-- The command. -/
  command : Command
  deriving DecidableEq, Repr

/-- What arguments ask for. -/
inductive Asked
  /-- A command. -/
  | run (i : Invocation)
  /-- The version of the program. -/
  | version
  /-- An account of the commands. -/
  | help
  /-- Nothing that could be done. -/
  | refused
  deriving DecidableEq, Repr

namespace Command

/-! ## Options -/

/-- An option. -/
structure Flag where
  /-- The name behind two hyphens. -/
  long : String
  /-- The letter behind one hyphen, if it has one. -/
  short : Option Char
  /-- Whether a value belongs to it. -/
  valued : Bool
  deriving DecidableEq, Repr

/-- The option that asks for help. -/
def helpFlag : Flag := ⟨"help", some 'h', false⟩

/-- The option that asks for the version. -/
def versionFlag : Flag := ⟨"version", some 'V', false⟩

/-- The option with the path of the configuration. -/
def configFlag : Flag := ⟨"config", some 'c', true⟩

/-- The option for telling everything. -/
def verboseFlag : Flag := ⟨"verbose", some 'v', false⟩

/-- The option for generating in any case. -/
def forceFlag : Flag := ⟨"force", none, false⟩

/-- The option for writing in the place of files. -/
def yesFlag : Flag := ⟨"yes", some 'y', false⟩

/-- The option for leaving the address out. -/
def leaveUrlOutFlag : Flag := ⟨"omit-server-url", none, false⟩

/-- The option for putting the address in. -/
def putUrlInFlag : Flag := ⟨"include-server-url", none, false⟩

/-- What one option of an argument is. -/
inductive Given
  /-- An option without a value. -/
  | flag (f : Flag)
  /-- An option and its value. -/
  | valued (f : Flag) (value : String)
  /-- An option whose value is the next argument. -/
  | open (f : Flag)
  deriving DecidableEq, Repr

/-- The option behind two hyphens, with what follows an equals sign as its value. -/
def longGiven? (flags : List Flag) (s : List Char) : Option Given := do
  let name := s.takeWhile (· ≠ '=')
  let f ← flags.find? fun f => f.long.toList = name
  match f.valued, s.drop name.length with
  | false, [] => some (.flag f)
  | true, [] => some (.open f)
  | true, _ :: value => some (.valued f (String.ofList value))
  | false, _ :: _ => none

/-- The value behind a letter: an equals sign in front of it does not belong to it. -/
def shortValue : List Char → String
  | '=' :: s => String.ofList s
  | s => String.ofList s

/-- The options of the letters behind one hyphen: the ones in front of the first
letter that says nothing, and whether there is such a letter.  A letter with a value
takes the rest of the argument. -/
def shortGiven (flags : List Flag) : List Char → List Given × Bool
  | [] => ([], true)
  | c :: s =>
    match flags.find? fun f => f.short = some c with
    | none => ([], false)
    | some f =>
      if f.valued then
        (if s.isEmpty then [.open f] else [.valued f (shortValue s)], true)
      else
        let (gs, ok) := shortGiven flags s
        (.flag f :: gs, ok)

/-! ## The arguments of one level -/

/-- What has been given so far. -/
structure Seen where
  /-- The options without a value. -/
  flags : List Flag
  /-- The options with their values. -/
  values : List (Flag × String)
  /-- The other arguments. -/
  words : List String

/-- What a level of arguments comes to. -/
inductive Level
  /-- Everything was read. -/
  | done (seen : Seen)
  /-- A command was met; it and the arguments behind it are left. -/
  | command (seen : Seen) (name : String) (rest : List String)
  /-- It ends here. -/
  | asked (a : Asked)

/-- What is given after one more option, or what the level ends with.  No option is given
twice, and no value is empty. -/
def Seen.add (seen : Seen) : Given → Except Asked Seen
  | .flag f =>
    if f = helpFlag then .error .help
    else if f = versionFlag then .error .version
    else if seen.flags.contains f then .error .refused
    else .ok { seen with flags := f :: seen.flags }
  | .valued f value =>
    if (seen.values.map Prod.fst).contains f ∨ value.isEmpty then .error .refused
    else .ok { seen with values := (f, value) :: seen.values }
  | .open _ => .error .refused

/-- What is given after some more options. -/
def Seen.addAll (seen : Seen) : List Given → Except Asked Seen
  | [] => .ok seen
  | g :: rest =>
    match seen.add g with
    | .ok seen => seen.addAll rest
    | .error a => .error a

/-- The options of an argument that begins with a hyphen, and whether it says nothing else. -/
def given (flags : List Flag) (arg : List Char) : List Given × Bool :=
  match arg with
  | '-' :: '-' :: s =>
    match longGiven? flags s with
    | some g => ([g], true)
    | none => ([], false)
  | '-' :: s => shortGiven flags s
  | _ => ([], false)

/-- Whether an argument is looked at as options. -/
def isOption (arg : String) : Bool :=
  match arg.toList with
  | '-' :: _ :: _ => true
  | _ => false

/-- What a level of arguments comes to.  `commands` are the names that end it; `words` is how many
other arguments there may be. -/
def readLevel (flags : List Flag) (commands : List String) (words : Nat) :
    Seen → Option Flag → List String → Level
  | seen, none, [] => .done seen
  | _, some _, [] => .asked .refused
  | seen, some f, arg :: rest =>
    if isOption arg then .asked .refused
    else
      match seen.add (.valued f arg) with
      | .ok seen => readLevel flags commands words seen none rest
      | .error a => .asked a
  | seen, none, arg :: rest =>
    if commands.contains arg then .command seen arg rest
    else if arg = "--" then
      if seen.words.length + rest.length ≤ words then
        .done { seen with words := seen.words ++ rest }
      else .asked .refused
    else if isOption arg then
      let (gs, ok) := given flags arg.toList
      let (gs, waiting) : List Given × Option Flag :=
        match gs.getLast? with
        | some (.open f) => (gs.dropLast, some f)
        | _ => (gs, none)
      match seen.addAll gs with
      | .error a => .asked a
      | .ok seen =>
        if ok then readLevel flags commands words seen waiting rest else .asked .refused
    else if seen.words.length < words then
      readLevel flags commands words { seen with words := seen.words ++ [arg] } none rest
    else .asked .refused

/-! ## The commands -/

/-- The names of commands. -/
def names : List String := ["init", "generate-component-stories", "component-stories",
  "generate-all-component-stories", "all-component-stories", "generate-stories",
  "generate-all-stories", "help"]

/-- The options and the number of other arguments of the command with a name, and
the command that they make. -/
def form (name : String) : List Flag × Nat × (Seen → Option Command) :=
  let has (seen : Seen) (f : Flag) : Bool := seen.flags.contains f
  if name = "init" then ([yesFlag], 0, fun s => some (.scaffold (has s yesFlag)))
  else if name = "generate-component-stories" ∨ name = "component-stories" then
    ([forceFlag], 1, fun s => s.words.head?.map fun id => .componentTemplate id (has s forceFlag))
  else if name = "generate-all-component-stories" ∨ name = "all-component-stories" then
    ([forceFlag], 0, fun s => some (.allComponentTemplates (has s forceFlag)))
  else if name = "generate-stories" then
    ([forceFlag, leaveUrlOutFlag], 1, fun s =>
      (s.words.head?.filter fun w => !w.isEmpty).map fun template =>
        .storiesFile template (has s forceFlag) (has s leaveUrlOutFlag))
  else
    ([forceFlag, putUrlInFlag, leaveUrlOutFlag], 0, fun s =>
      some (.allStoriesFiles (has s forceFlag) (has s putUrlInFlag) (has s leaveUrlOutFlag)))

/-- What the arguments behind the name of a command ask for. -/
def readCommand (seen : Seen) (name : String) (args : List String) : Asked :=
  if name = "help" then
    if args.isEmpty ∨ args.length = 1 ∧ args.all (names.contains ·) then .help else .refused
  else
    let (flags, words, make) := form name
    match readLevel (helpFlag :: flags) [] words ⟨[], [], []⟩ none args with
    | .done inner =>
      match make inner with
      | some command => .run
          { config := (seen.values.lookup configFlag).getD "stories.toml"
            verbose := seen.flags.contains verboseFlag
            command := command }
      | none => .refused
    | .command _ _ _ => .refused
    | .asked a => a

/-- What arguments ask for. -/
def ofArguments (args : List String) : Asked :=
  match readLevel [helpFlag, versionFlag, configFlag, verboseFlag] names 0 ⟨[], [], []⟩ none
    args with
  | .done _ => .refused
  | .command seen name rest => readCommand seen name rest
  | .asked a => a

end Command

end ComponentStories
