import ComponentStories.FileSystem.Basic
import ComponentStories.Log

/-
# What comes of generating a file

A file is generated, or skipped for a reason, or generating it fails.  A failure has a message that
includes the messages of its causes, and the causes by themselves, the outermost first.
-/

namespace ComponentStories

/-! ## Outcomes -/

/-- Why a file was not generated. -/
inductive SkipReason
  /-- The rule for generating it says no. -/
  | upToDate
  /-- The component has no inputs. -/
  | noInputs
  deriving DecidableEq, Repr

/-- The text of a reason. -/
def SkipReason.text : SkipReason → String
  | upToDate => "up to date"
  | noInputs => "no props or slots"

/-- What came of generating a file. -/
inductive Outcome
  /-- It was written. -/
  | generated (destination : String)
  /-- It was left as it is. -/
  | skipped (destination : String) (reason : SkipReason)
  deriving DecidableEq, Repr

/-- Whether the file was written. -/
def Outcome.isGenerated : Outcome → Bool
  | generated _ => true
  | skipped _ _ => false

/-! ## Failures -/

/-- Why a template gives no stories file. -/
inductive TemplateError
  /-- It cannot be read. -/
  | read (path : String) (cause : IoError)
  /-- It has no header. -/
  | noHeader (path : String)
  deriving DecidableEq, Repr

namespace TemplateError

/-- The text of the failure. -/
def message : TemplateError → String
  | read path cause => "Failed to read template " ++ path ++ ": " ++ cause.message
  | noHeader path => "Template " ++ path ++ " has no stories header"

/-- The messages of the causes, the nearest first. -/
def causes : TemplateError → List String
  | read _ cause => [cause.message]
  | noHeader _ => []

end TemplateError

/-- Why a file could not be generated. -/
inductive GenerateError
  /-- Its template gives no stories file. -/
  | render (destination : String) (cause : TemplateError)
  /-- It cannot be written. -/
  | write (destination : String) (cause : IoError)
  /-- The time of a file cannot be told. -/
  | metadata (path : String) (cause : IoError)
  /-- The directory of the stories files cannot be made. -/
  | storiesDirectory (path : String) (cause : IoError)
  /-- The path is none of a template. -/
  | invalidTemplatePath (path : String)
  /-- The template lies outside of the root. -/
  | outsideRoot (path : String)
  deriving DecidableEq, Repr

namespace GenerateError

/-- The text of the failure. -/
def message : GenerateError → String
  | render destination cause =>
    "Failed to render stories for " ++ destination ++ ": " ++ cause.message
  | write destination cause => "Failed to write " ++ destination ++ ": " ++ cause.message
  | metadata path cause => "Failed to read metadata of " ++ path ++ ": " ++ cause.message
  | storiesDirectory path cause =>
    "Failed to prepare stories directory " ++ path ++ ": " ++ cause.message
  | invalidTemplatePath path => "Invalid template path for the stories \"" ++ path ++ "\""
  | outsideRoot path => "Invalid template name for the stories \"" ++ path ++
      "\": paths outside the application root are not allowed"

/-- The messages of the causes, the nearest first. -/
def causes : GenerateError → List String
  | render _ cause => cause.message :: cause.causes
  | write _ cause => [cause.message]
  | metadata _ cause => [cause.message]
  | storiesDirectory _ cause => [cause.message]
  | invalidTemplatePath _ => []
  | outsideRoot _ => []

end GenerateError

/-! ## Attempts -/

/-- An attempt to generate a file: what came of it, and what is told of it. -/
structure Attempt where
  /-- What came of it. -/
  result : Except GenerateError Outcome
  /-- What is told of it. -/
  log : List Record

namespace Attempt

/-- The attempt that failed without a word. -/
def failed (e : GenerateError) : Attempt := ⟨.error e, []⟩

/-- The records of some attempts, in order. -/
def logs (attempts : List Attempt) : List Record := attempts.flatMap Attempt.log

/-- The results of some attempts, in order. -/
def results (attempts : List Attempt) : List (Except GenerateError Outcome) :=
  attempts.map Attempt.result

end Attempt

end ComponentStories
