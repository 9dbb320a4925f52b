import ComponentStories.Text.Blank

/-
# Reports of failed commands

A command that fails says what it could not do, and the causes of that, the nearest first.  Several
causes are numbered; the lines of a cause stand below one another.
-/

namespace ComponentStories

/-- Why a command failed. -/
structure Failure where
  /-- What could not be done. -/
  message : String
  /-- The causes, the nearest first. -/
  causes : List String
  deriving DecidableEq, Repr

namespace Failure

/-- A text with every line but the first one indented. -/
def indented (indent : List Char) (s : String) : List Char :=
  Text.join ('\n' :: indent) (Text.splitAt '\n' s.toList)

/-- The lead of the cause with a number: the number right-aligned in five places. -/
def numberLead (n : Nat) : List Char :=
  let digits := (toString n).toList
  List.replicate (5 - digits.length) ' ' ++ digits ++ [':', ' ']

/-- Causes with their numbers, a line break in front of each. -/
def numbered : Nat → List String → List Char
  | _, [] => []
  | n, cause :: rest =>
    '\n' :: numberLead n ++ indented (List.replicate 7 ' ') cause ++ numbered (n + 1) rest

/-- The causes with a line break in front of each. -/
def causeChars : List String → List Char
  | [] => []
  | [cause] =>
    let indent := List.replicate 4 ' '
    "\n\nCaused by:\n".toList ++ indent ++ indented indent cause
  | causes => "\n\nCaused by:".toList ++ numbered 0 causes

/-- The report of a failure. -/
def report (f : Failure) : String :=
  "Error: " ++ f.message ++ String.ofList (causeChars f.causes) ++ "\n"

end Failure

end ComponentStories
