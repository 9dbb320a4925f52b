import ComponentStories.Command.Failure
import ComponentStories.FileSystem.Access
import ComponentStories.Log

/-
# Scaffolding

A first configuration and the configuration of the preview tool are written below the working
directory.  Files that are there stay as they are unless they are to be overwritten.
-/

namespace ComponentStories.Scaffold

/-! ## The files -/

/-- The path of the configuration. -/
def configPath : String := "./stories.toml"

/-- The path of the directory with the configuration of the preview tool. -/
def previewDir : String := "./storybook/.storybook"

/-- The path of the configuration of the preview tool. -/
def previewPath : String := "./storybook/.storybook/main.js"

/-- The first configuration. -/
def configText : String := "# Storyforge Configuration

[project]
# Application root containing themes/, modules/ and profiles/
root = \"web\"

[components]
# Directories below the root searched for *.component.yml files
dirs = [\"themes\", \"modules\", \"profiles\"]

# Title namespace of generated stories
namespace = \"Components/SDC\"

[stories]
# Stories JSON output directory, relative to the root
dir = \"../storybook/stories\"

[server]
# Base URL of the application server (for the render endpoint)
# base_url = \"http://localhost\"
"

/-- The configuration of the preview tool. -/
def previewText : String :=
  "/** @type \x7b import('@storybook/server-webpack5').StorybookConfig \x7d */
const config = \x7b
  \"stories\": [
    \"../../storybook/**/*.stories.json\"
  ],
  \"addons\": [
    \"@storybook/addon-webpack5-compiler-swc\"
  ],
  \"framework\": \x7b
    \"name\": \"@storybook/server-webpack5\",
    \"options\": \x7b\x7d
  \x7d
\x7d;
export default config;
"

/-! ## Writing them -/

/-- A step: what is told of it, why it failed if it did, and the file system behind it. -/
structure Step where
  /-- What is told of it. -/
  log : List Record
  /-- Why it failed, if it did. -/
  failure : Option Failure
  /-- The file system behind it. -/
  files : FileSystem

/-- The step that does nothing. -/
def Step.idle (fs : FileSystem) : Step := ⟨[], none, fs⟩

/-- One step and, unless it fails, another one. -/
def Step.thenDo (a : Step) (next : FileSystem → Step) : Step :=
  match a.failure with
  | some _ => a
  | none =>
    let b := next a.files
    ⟨a.log ++ b.log, b.failure, b.files⟩

/-- Writes a file that has a name for people. -/
def writeStep (path name text : String) (fs : FileSystem) : Step :=
  match fs.writeFile path (.text text) with
  | .ok fs => ⟨[⟨.info, "Created " ++ name⟩], none, fs⟩
  | .error e => ⟨[], some ⟨"Failed to write " ++ name, [e.message]⟩, fs⟩

/-- Writes the first configuration unless one is there that is to be kept. -/
def configStep (overwrite : Bool) (fs : FileSystem) : Step :=
  if !fs.holds configPath || overwrite then writeStep configPath "stories.toml" configText fs
  else ⟨[⟨.warn, "stories.toml already exists. Use --yes to overwrite."⟩], none, fs⟩

/-- Makes the directory for the configuration of the preview tool. -/
def directoryStep (fs : FileSystem) : Step :=
  if fs.holds previewDir then .idle fs
  else
    match fs.makeDirectories previewDir with
    | (.ok (), fs) => .idle fs
    | (.error e, fs) => ⟨[], some ⟨"Failed to create storybook/.storybook", [e.message]⟩, fs⟩

/-- Writes the configuration of the preview tool unless one is there that is to be kept. -/
def previewStep (overwrite : Bool) (fs : FileSystem) : Step :=
  if !fs.holds previewPath || overwrite then
    writeStep previewPath "storybook/.storybook/main.js" previewText fs
  else .idle fs

/-- Writes both files. -/
def run (overwrite : Bool) (fs : FileSystem) : Step :=
  ((configStep overwrite fs).thenDo directoryStep).thenDo (previewStep overwrite)

end ComponentStories.Scaffold
