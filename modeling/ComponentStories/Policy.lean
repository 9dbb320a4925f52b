/-
# When to generate

A story template is written once, so that changes by hand survive; a stories file is written again
whenever it is older than its template.  Force overrules both.
-/

namespace ComponentStories

/-- A rule that decides whether a file is generated. -/
inductive Policy
  /-- Only while there is no file. -/
  | existence
  /-- Whenever the file is stale. -/
  | staleness
  deriving DecidableEq, Repr

/-- Whether to generate a file that may exist and may be stale. -/
def Policy.shouldGenerate (policy : Policy) (present stale force : Bool) : Bool :=
  force || match policy with
    | existence => !present
    | staleness => stale

/-- Whether a file with the time `destination` is missing or older than its source. -/
def isStale {τ : Type} [LT τ] [DecidableLT τ] (source : τ) (destination : Option τ) : Bool :=
  match destination with
  | none => true
  | some time => decide (time < source)

end ComponentStories
