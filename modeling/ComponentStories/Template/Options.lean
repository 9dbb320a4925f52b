/-
# The options of a story

The options of a story stand between braces in its tag.  `topLevel` gives the text of the options
with every nested group of braces removed, up to the brace that closes the options.  Braces between
quotes are text, and a backslash between quotes takes the next character with it.
-/

namespace ComponentStories.Template

/-- Where a reader of options stands. -/
structure OptionState where
  /-- How many groups are open. -/
  depth : Nat
  /-- The quote that is open, if any. -/
  quote : Option Char
  /-- Whether a backslash stands in front, between quotes. -/
  escaped : Bool
  deriving DecidableEq, Repr

namespace OptionState

/-- Outside of every group and every quote. -/
def outer : OptionState := ⟨0, none, false⟩

/-- What becomes of one character. -/
inductive Step
  /-- The character is text at the depth of the state, and the reader goes on. -/
  | text (next : OptionState)
  /-- The character is a brace of a nested group, and the reader goes on. -/
  | brace (next : OptionState)
  /-- The character closes the options. -/
  | closed
  deriving DecidableEq, Repr

/-- The step over one character. -/
def step (s : OptionState) (c : Char) : Step :=
  match s.quote with
  | some q =>
    if s.escaped then .text { s with escaped := false }
    else if c = '\\' then .text { s with escaped := true }
    else if c = q then .text { s with quote := none }
    else .text s
  | none =>
    if c = '\'' ∨ c = '"' then .text { s with quote := some c }
    else if c = '{' then .brace { s with depth := s.depth + 1 }
    else if c = '}' then
      match s.depth with
      | 0 => .closed
      | d + 1 => .brace { s with depth := d }
    else .text s

/-- The text outside of nested groups from a state on. -/
def read (s : OptionState) : List Char → List Char
  | [] => []
  | c :: r =>
    match s.step c with
    | .text next => if s.depth = 0 then c :: next.read r else next.read r
    | .brace next => next.read r
    | .closed => []

/-- What is read is part of the text, in the same order. -/
theorem read_sublist (s : OptionState) (r : List Char) : (s.read r).Sublist r := by
  induction r generalizing s with
  | nil => exact List.Sublist.slnil
  | cons c r ih =>
    simp only [read]
    split
    · split
      · exact (ih _).cons_cons c
      · exact (ih _).cons c
    · exact (ih _).cons c
    · exact List.nil_sublist _

end OptionState

/-- The text of options without nested groups. -/
def topLevel (body : List Char) : List Char := OptionState.outer.read body

end ComponentStories.Template
