import ComponentStories.Yaml.Source

/-
# The texts of scalars

A scalar is written plain, between quotes or as a block of lines.  Each reader takes the cells
from where the scalar starts and gives its text and the cells behind it.  Line breaks inside plain
and quoted scalars are folded: one break becomes a space, each further one stays.
-/

namespace ComponentStories.Yaml

/-! ## Folding -/

/-- The blanks and line breaks at the front, and what follows. -/
def spanGap : List Cell → List Char × List Cell
  | [] => ([], [])
  | c :: s =>
    if isGap c.char || isBreak c.char then
      let (g, r) := spanGap s
      (c.char :: g, r)
    else ([], c :: s)

/-- What a gap in a scalar stands for.  Without a line break it stands for itself.  Else blanks
are dropped, the first break becomes a space unless further breaks follow, which stay; a
separator stays in any case. -/
def fold (gap : List Char) : List Char :=
  match gap.filter isBreak with
  | [] => gap
  | first :: further =>
    if first = '\n' then
      match further with
      | [] => [' ']
      | _ => further
    else first :: further

/-- What a gap behind an escaped line break stands for: its line breaks. -/
def foldEscaped (gap : List Char) : List Char := gap.filter isBreak

/-! ## Quoted scalars -/

/-- The character of an escape of one letter in double quotes. -/
def escapeOf (c : Char) : Option Char :=
  match c with
  | '0' => some '\x00'
  | 'a' => some '\x07'
  | 'b' => some '\x08'
  | 't' => some '\t'
  | '\t' => some '\t'
  | 'n' => some '\n'
  | 'v' => some '\x0b'
  | 'f' => some '\x0c'
  | 'r' => some '\r'
  | 'e' => some '\x1b'
  | ' ' => some ' '
  | '"' => some '"'
  | '/' => some '/'
  | '\\' => some '\\'
  | 'N' => some '\u0085'
  | '_' => some '\u00a0'
  | 'L' => some '\u2028'
  | 'P' => some '\u2029'
  | _ => none

/-- The number of hexadecimal digits behind an escape letter. -/
def escapeWidth (c : Char) : Option Nat :=
  match c with
  | 'x' => some 2
  | 'u' => some 4
  | 'U' => some 8
  | _ => none

/-- The value of a hexadecimal digit of either case. -/
def hexDigit? (c : Char) : Option Nat :=
  if '0' ≤ c ∧ c ≤ '9' then some (c.toNat - '0'.toNat)
  else if 'a' ≤ c ∧ c ≤ 'f' then some (c.toNat - 'a'.toNat + 10)
  else if 'A' ≤ c ∧ c ≤ 'F' then some (c.toNat - 'A'.toNat + 10)
  else none

/-- The number of exactly `n` hexadecimal digits at the front, and what follows. -/
def hexNumber? : Nat → Nat → List Cell → Option (Nat × List Cell)
  | 0, v, s => some (v, s)
  | _ + 1, _, [] => none
  | n + 1, v, c :: s =>
    match hexDigit? c.char with
    | some d => hexNumber? n (16 * v + d) s
    | none => none

/-- The escape behind a backslash: its character and what follows. -/
def escape? : List Cell → Option (Char × List Cell)
  | [] => none
  | c :: s =>
    match escapeWidth c.char with
    | some width =>
      match hexNumber? width 0 s with
      | some (v, r) =>
        if (0xD800 ≤ v ∧ v ≤ 0xDFFF) ∨ 0x10FFFF < v then none else some (Char.ofNat v, r)
      | none => none
    | none => (escapeOf c.char).map fun x => (x, s)

/-- How a run of characters in quotes ended. -/
inductive RunEnd
  /-- At a blank, a line break, the closing quote or the end. -/
  | plain
  /-- At an escaped line break. -/
  | escapedBreak
  deriving DecidableEq

/-- The characters in quotes up to the next gap or the closing quote.  The quote character written
twice in single quotes stands for itself. -/
def quotedRun (single : Bool) : Nat → List Cell → Option (List Char × RunEnd × List Cell)
  | 0, _ => none
  | _ + 1, [] => some ([], .plain, [])
  | fuel + 1, c :: s =>
    if isGap c.char || isBreak c.char then some ([], .plain, c :: s)
    else if single then
      if c.char = '\'' then
        match s with
        | d :: r =>
          if d.char = '\'' then
            (quotedRun single fuel r).map fun x => ('\'' :: x.1, x.2)
          else some ([], .plain, c :: s)
        | [] => some ([], .plain, c :: s)
      else (quotedRun single fuel s).map fun x => (c.char :: x.1, x.2)
    else if c.char = '"' then some ([], .plain, c :: s)
    else if c.char = '\\' then
      match s with
      | d :: r =>
        if isBreak d.char then some ([], .escapedBreak, r)
        else
          match escape? s with
          | some (x, r) => (quotedRun single fuel r).map fun y => (x :: y.1, y.2)
          | none => none
      | [] => none
    else (quotedRun single fuel s).map fun x => (c.char :: x.1, x.2)

/-- The rest of a quoted scalar, behind the opening quote: its text and the cells behind the
closing quote.  A document marker inside the quotes is an error. -/
def quotedRest (single : Bool) : Nat → List Cell → Option (List Char × List Cell)
  | 0, _ => none
  | fuel + 1, s =>
    if isDocumentMarker s then none
    else
      match quotedRun single (s.length + 1) s with
      | none => none
      | some (_, _, []) => none
      | some (text, ended, c :: r) =>
        if c.char = (if single then '\'' else '"') then some (text, r)
        else
          let (gap, r) := spanGap (c :: r)
          let joint := match ended with
            | .plain => fold gap
            | .escapedBreak => foldEscaped gap
          (quotedRest single fuel r).map fun x => (text ++ joint ++ x.1, x.2)

/-- A quoted scalar from behind its opening quote. -/
def quoted? (single : Bool) (s : List Cell) : Option (List Char × List Cell) :=
  quotedRest single (s.length + 1) s

/-! ## Plain scalars -/

/-- The indicators of flow collections that end a plain scalar inside one. -/
def isFlowIndicator (c : Char) : Bool :=
  c == ',' || c == '[' || c == ']' || c == '{' || c == '}'

/-- The characters of a plain scalar up to a gap or to what ends the scalar.  Inside a flow
collection a colon in front of an indicator is an error. -/
def plainRun (inFlow : Bool) : List Cell → Option (List Char × List Cell)
  | [] => some ([], [])
  | c :: s =>
    if isGap c.char || isBreak c.char then some ([], c :: s)
    else if inFlow && c.char == ':' && (peekIs isFlowIndicator 0 s || peekIs (· == '?') 0 s) then
      none
    else if c.char == ':' && endsWordAt 0 s then some ([], c :: s)
    else if inFlow && isFlowIndicator c.char then some ([], c :: s)
    else (plainRun inFlow s).map fun x => (c.char :: x.1, x.2)

/-- Whether a tab stands in the indentation of a later line of a plain scalar. -/
def tabInIndent (indent : Int) : Bool → List Cell → Bool
  | _, [] => false
  | broken, c :: s =>
    if isBreak c.char then tabInIndent indent true s
    else if isGap c.char then
      (broken && c.char == '\t' && decide ((c.column : Int) < indent)) ||
        tabInIndent indent broken s
    else false

/-- The rest of a plain scalar whose last line break gap is `joint`: its text, whether it ended
behind a line break, and the cells behind it. -/
def plainRest (inFlow : Bool) (indent : Int) :
    Nat → List Char → Bool → List Cell → Option (List Char × Bool × List Cell)
  | 0, _, _, _ => none
  | fuel + 1, joint, broken, s =>
    if isDocumentMarker s || peekIs (· == '#') 0 s then some ([], broken, s)
    else
      match plainRun inFlow s with
      | none => none
      | some (text, r) =>
        let lead := if text.isEmpty then [] else joint
        let broken := if text.isEmpty then broken else false
        if !(peekIs (fun c => isGap c || isBreak c) 0 r) then some (lead ++ text, broken, r)
        else if tabInIndent indent broken r then none
        else
          let (gap, after) := spanGap r
          let broken := broken || gap.any isBreak
          if !inFlow && decide ((columnOf after : Int) < indent) then
            some (lead ++ text, broken, after)
          else
            (plainRest inFlow indent fuel (fold gap) broken after).map fun x =>
              (lead ++ text ++ x.1, x.2)

/-- A plain scalar inside a block of the given indentation: its text, whether it ended behind a
line break, and the cells behind it. -/
def plain? (inFlow : Bool) (blockIndent : Int) (s : List Cell) :
    Option (List Char × Bool × List Cell) :=
  plainRest inFlow (blockIndent + 1) (s.length + 1) [] false s

/-! ## Block scalars -/

/-- What becomes of the line breaks at the end of a block scalar. -/
inductive Chomping
  /-- All are dropped. -/
  | strip
  /-- The first one stays. -/
  | clip
  /-- All stay. -/
  | keep
  deriving DecidableEq

/-- The chomping indicator at the front. -/
def chomping? : List Cell → Option (Chomping × List Cell)
  | [] => none
  | c :: s =>
    if c.char = '+' then some (.keep, s) else if c.char = '-' then some (.strip, s) else none

/-- The indentation indicator at the front, if any; zero is an error. -/
def increment? : List Cell → Option (Nat × List Cell)
  | [] => some (0, [])
  | c :: s =>
    if '0' ≤ c.char ∧ c.char ≤ '9' then
      if c.char = '0' then none else some (c.char.toNat - '0'.toNat, s)
    else some (0, c :: s)

/-- The header of a block scalar behind its indicator: chomping, indentation indicator (zero when
absent), and what follows. -/
def blockHeader? (s : List Cell) : Option (Chomping × Nat × List Cell) :=
  match chomping? s with
  | some (chomping, s) => (increment? s).map fun x => (chomping, x.1, x.2)
  | none =>
    match increment? s with
    | none => none
    | some (0, s) => some (.clip, 0, s)
    | some (increment, s) =>
      match chomping? s with
      | some (chomping, s) => some (chomping, increment, s)
      | none => some (.clip, increment, s)

/-- The cells from the next line break on. -/
def dropLine : List Cell → List Cell
  | [] => []
  | c :: s => if isBreak c.char then c :: s else dropLine s

/-- The cells without the blanks at the front. -/
def dropGaps : List Cell → List Cell
  | [] => []
  | c :: s => if isGap c.char then dropGaps s else c :: s

/-- The rest of a line that holds nothing but blanks and a comment, its line break included. -/
def emptyLineEnd? (s : List Cell) : Option (List Cell) :=
  let s := dropGaps s
  let s := if peekIs (· == '#') 0 s then dropLine s else s
  match s with
  | [] => some []
  | c :: r => if isBreak c.char then some r else none

/-- The indentation and the empty lines in front of a line of a block scalar: the line breaks, the
greatest column reached, and what follows.  An indentation of zero is not yet known.  A tab in the
indentation is an error. -/
def blockBreaks (indent : Nat) : Nat → List Cell → Option (List Char × Nat × List Cell)
  | greatest, [] => some ([], greatest, [])
  | greatest, c :: s =>
    let greatest := max greatest c.column
    if (indent = 0 ∨ c.column < indent) ∧ c.char = ' ' then
      blockBreaks indent (max greatest (c.column + 1)) s
    else if (indent = 0 ∨ c.column < indent) ∧ c.char = '\t' then none
    else if isBreak c.char then
      (blockBreaks indent greatest s).map fun x => (c.char :: x.1, x.2)
    else some ([], greatest, c :: s)

/-- The characters of a line, its break (none at the end), and the cells behind. -/
def blockLine : List Cell → List Char × List Char × List Cell
  | [] => ([], [], [])
  | c :: s =>
    if isBreak c.char then ([], [c.char], s)
    else
      let (text, ending, r) := blockLine s
      (c.char :: text, ending, r)

/-- What stands between two lines of a block scalar: `ending` broke the line before, `empty` are
the breaks of empty lines.  In a folded scalar a break between two lines that begin with no blank
becomes a space when no empty line stands between, and nothing otherwise. -/
def blockJoint (literal leadingBlank trailingBlank : Bool) (ending empty : List Char) : List Char :=
  if !literal && ending.head? == some '\n' && !leadingBlank && !trailingBlank then
    if empty.isEmpty then [' '] else empty
  else ending ++ empty

/-- The lines of a block scalar: the text without the breaks at its end, the break of the last line,
the breaks of the empty lines behind it, and the cells behind. -/
def blockLines (literal : Bool) (indent : Nat) :
    Nat → Bool → List Char → List Char → List Cell →
      Option (List Char × List Char × List Char × List Cell)
  | 0, _, _, _, _ => none
  | fuel + 1, leadingBlank, ending, empty, s =>
    match s with
    | [] => some ([], ending, empty, [])
    | c :: _ =>
      if c.column ≠ indent then some ([], ending, empty, s)
      else
        let blank := isGap c.char
        let joint := blockJoint literal leadingBlank blank ending empty
        let (text, ending, r) := blockLine s
        match blockBreaks indent 0 r with
        | none => none
        | some (empty, _, r) =>
          (blockLines literal indent fuel blank ending empty r).map fun x =>
            (joint ++ text ++ x.1, x.2)

/-- A block scalar behind its indicator, inside a block of the given indentation: its
text and the cells behind it. -/
def block? (literal : Bool) (blockIndent : Int) (s : List Cell) :
    Option (List Char × List Cell) := do
  let (chomping, increment, s) ← blockHeader? s
  let s ← emptyLineEnd? s
  let given : Nat := if increment = 0 then 0 else (max blockIndent 0).toNat + increment
  let (empty, greatest, s) ← blockBreaks given 0 s
  let indent := if given = 0 then max greatest (max (blockIndent + 1).toNat 1) else given
  let (text, ending, empty, s) ← blockLines literal indent (s.length + 1) false [] empty s
  let tail := match chomping with
    | .strip => []
    | .clip => ending
    | .keep => ending ++ empty
  pure (text ++ tail, s)

end ComponentStories.Yaml
