import ComponentStories.Toml.Basic
import ComponentStories.Toml.Plain
import ComponentStories.Toml.Text

/-
# Reading configuration documents

A document is a list of lines: headers of tables, pairs of a key and a value, comments.  A value may
span several lines.  `document?` gives the table that a text writes.
-/

namespace ComponentStories.Toml

/-! ## Between the parts -/

/-- The text without a comment at its front. -/
def skipComment : List Char → List Char
  | '#' :: s => s.dropWhile isVisible
  | s => s

/-- What follows the end of a line at the front. -/
def lineEnd? : List Char → Option (List Char)
  | [] => some []
  | s => lineBreak? s

/-- What follows the rest of a line in which nothing else stands. -/
def restOfLine? (s : List Char) : Option (List Char) := lineEnd? (skipComment (skipGaps s))

/-- The text without blanks, comments and line breaks at its front. -/
def skipLines : Nat → List Char → Option (List Char)
  | 0, _ => none
  | fuel + 1, s =>
    match skipGaps s with
    | '#' :: r => (lineBreak? (skipComment ('#' :: r))).bind (skipLines fuel)
    | r =>
      match lineBreak? r with
      | some r => skipLines fuel r
      | none => some r

/-! ## Keys -/

/-- A character of a bare key. -/
def isKeyChar (c : Char) : Bool := c.isAlphanum || c == '-' || c == '_'

/-- One part of a key at the front, and what follows it. -/
def keyPart? (s : List Char) : Option (String × List Char) :=
  match lineText? s with
  | some (t, r) => some (String.ofList t, r)
  | none =>
    match s.takeWhile isKeyChar with
    | [] => none
    | k => some (String.ofList k, s.dropWhile isKeyChar)

/-- The parts of a key at the front, and what follows them. -/
def keyParts? : Nat → List Char → Option (List String × List Char)
  | 0, _ => none
  | fuel + 1, s => do
    let (k, s) ← keyPart? (skipGaps s)
    match skipGaps s with
    | '.' :: r =>
      let (ks, r) ← keyParts? fuel r
      pure (k :: ks, r)
    | r => pure ([k], r)

/-- How many parts a key may have, and how many values may be nested. -/
def nestingLimit : Nat := 79

/-- A key at the front, and what follows it. -/
def key? (s : List Char) : Option (List String × List Char) :=
  (keyParts? (s.length + 1) s).filter fun x => x.1.length ≤ nestingLimit

/-! ## Values -/

/-- The items of a list up to its closing bracket, and what follows that. -/
def arrayRest? (value : List Char → Option (Node × List Char)) :
    Nat → List Char → Option (List Node × List Char)
  | 0, _ => none
  | fuel + 1, s => do
    let s ← skipLines (s.length + 1) s
    match s with
    | ']' :: r => pure ([], r)
    | s =>
      let (v, s) ← value s
      let s ← skipLines (s.length + 1) s
      match s with
      | ',' :: r =>
        let (vs, r) ← arrayRest? value fuel r
        pure (v :: vs, r)
      | ']' :: r => pure ([v], r)
      | _ => none

/-- A pair of a key and a value at the front, and what follows it. -/
def pair? (value : List Char → Option (Node × List Char)) (s : List Char) :
    Option ((List String × Node) × List Char) := do
  let (k, s) ← key? s
  match s with
  | '=' :: s =>
    let (v, s) ← value (skipGaps s)
    pure ((k, v), s)
  | _ => none

/-- The table, which stands between braces, with the pairs up to the closing brace
added, and what follows that. -/
def tableRest? (value : List Char → Option (Node × List Char)) :
    Nat → Node → List Char → Option (Node × List Char)
  | 0, _, _ => none
  | fuel + 1, t, s => do
    let ((k, v), s) ← pair? value s
    let t ← addDotted? k v t
    match skipGaps s with
    | ',' :: r => tableRest? value fuel t r
    | '}' :: r => pure (t, r)
    | _ => none

/-- A number, a truth value, a date or a time of day at the front, and what follows it. -/
def plain? (s : List Char) : Option (Node × List Char) :=
  ((moment? s).map fun r => (.moment, r)).or
    ((((fraction? s).or (special? s)).or ((integer? s).or (truth? s))).map fun r => (.plain, r))

/-- A value at the front, and what follows it; `depth` lists and tables may be nested in it. -/
def value? : Nat → List Char → Option (Node × List Char)
  | depth, s =>
    match s, depth with
    | '[' :: r, depth + 1 =>
      (arrayRest? (value? depth) (r.length + 1) r).map fun x => (.array x.1, x.2)
    | '{' :: r, depth + 1 =>
      match skipGaps r with
      | '}' :: r => some (.closed [], r)
      | r =>
        (tableRest? (value? depth) (r.length + 1) (.table .header []) r).map fun x =>
          (.closed x.1.entries, x.2)
    | s, _ =>
      ((text? s).map fun x => (.text (String.ofList x.1), x.2)).or (plain? s)

/-! ## Documents -/

/-- What has been read: the table of the document, and the path of the last header. -/
structure Reading where
  /-- The table of the document. -/
  root : Node
  /-- The path of the last header. -/
  current : List String

/-- The reading after a header, which ends with `close` and opens a table as `f` says. -/
def Reading.header? (f : String → Node → Option Node) (close : List Char) (st : Reading)
    (s : List Char) : Option (Reading × List Char) := do
  let (k, s) ← key? s
  let s ← Text.dropLead? close s
  let s ← restOfLine? s
  let root ← atHeader f k st.root
  pure (⟨root, k⟩, s)

/-- The reading after a pair of a key and a value. -/
def Reading.pair? (st : Reading) (s : List Char) : Option (Reading × List Char) := do
  let ((k, v), s) ← Toml.pair? (value? nestingLimit) s
  let s ← restOfLine? s
  let root ← within false (addDotted? k v) st.current st.root
  pure (⟨root, st.current⟩, s)

/-- The reading after all lines of a text. -/
def Reading.lines? : Nat → Reading → List Char → Option Reading
  | 0, _, _ => none
  | fuel + 1, st, s =>
    match skipGaps s with
    | [] => some st
    | '#' :: r => (lineEnd? (skipComment ('#' :: r))).bind (lines? fuel st)
    | '[' :: '[' :: r =>
      match st.header? openElement? [']', ']'] r with
      | some (st, r) => lines? fuel st r
      | none => none
    | '[' :: r =>
      match st.header? openTable? [']'] r with
      | some (st, r) => lines? fuel st r
      | none => none
    | r =>
      match lineBreak? r with
      | some r => lines? fuel st r
      | none =>
        match st.pair? r with
        | some (st, r) => lines? fuel st r
        | none => none

/-- The text without a mark of the byte order at its front. -/
def skipMark : List Char → List Char
  | '\uFEFF' :: s => s
  | s => s

/-- The table that a text writes. -/
def document? (s : List Char) : Option Node :=
  ((Reading.mk (.table .header []) []).lines? (s.length + 2) (skipMark s)).map Reading.root

end ComponentStories.Toml
