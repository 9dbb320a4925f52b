import ComponentStories.Yaml.Scalar

/-
# Tokens

A document is cut into tokens.  The structure that indentation stands for becomes tokens of its
own: a block collection opens where its first entry stands further in than the block around it, and
ends where a line stands further out.

A mapping key is known to be one only when its colon is met.  Until then its place in the sequence
of tokens is kept as a *pending key*, one for each level of flow collections; at the colon the key
token is put in at that place, together with the start of a block mapping if the key opens one.
-/

namespace ComponentStories.Yaml

/-! ## The tokens -/

/-- What a document is made of. -/
inductive Token
  /-- A version directive. -/
  | version (major minor : Nat)
  /-- A tag directive: its handle and the bytes that the handle stands for. -/
  | tagPrefix (handle : List Char) (stands : List UInt8)
  /-- Three hyphens. -/
  | documentStart
  /-- Three dots. -/
  | documentEnd
  /-- A block sequence opens. -/
  | blockSequence
  /-- A block mapping opens. -/
  | blockMapping
  /-- A block collection ends. -/
  | blockEnd
  /-- An opening bracket. -/
  | flowSequence
  /-- A closing bracket. -/
  | flowSequenceEnd
  /-- An opening brace. -/
  | flowMapping
  /-- A closing brace. -/
  | flowMappingEnd
  /-- The hyphen of an entry. -/
  | blockEntry
  /-- A comma. -/
  | flowEntry
  /-- What follows is a key. -/
  | key
  /-- What follows is the value of a key. -/
  | value
  /-- A reference to a named node. -/
  | alias (name : List Char)
  /-- A name for the node that follows. -/
  | anchor (name : List Char)
  /-- A tag for the node that follows: its handle and the bytes behind it. -/
  | tag (handle : List Char) (suffix : List UInt8)
  /-- A scalar: whether it is plain, and its text. -/
  | scalar (plain : Bool) (text : List Char)

/-! ## Names and tags -/

/-- The name characters at the front, and what follows. -/
def spanName : List Cell → List Char × List Cell
  | [] => ([], [])
  | c :: s =>
    if isNameChar c.char then
      let (n, r) := spanName s
      (c.char :: n, r)
    else ([], c :: s)

/-- Whether a character may stand directly behind a node's name. -/
def mayFollowName (c : Char) : Bool :=
  isGap c || isBreak c || "?:,]\x7d%@`".toList.contains c

/-- A node's name and what follows it. -/
def nodeName? (s : List Cell) : Option (List Char × List Cell) :=
  match spanName s with
  | ([], _) => none
  | (n, []) => some (n, [])
  | (n, c :: r) => if mayFollowName c.char then some (n, c :: r) else none

/-- Whether a character may stand in a tag; `,`, `[` and `]` only between angle brackets. -/
def isTagChar (verbatim : Bool) (c : Char) : Bool :=
  isNameChar c || ";/?:@&=+$.%!~*'()".toList.contains c || (verbatim && ",[]".toList.contains c)

/-- The number of bytes of the character that begins with a byte; zero for a wrong one. -/
def sequenceWidth (b : Nat) : Nat :=
  if b < 0x80 then 1
  else if 0xC0 ≤ b ∧ b < 0xE0 then 2
  else if 0xE0 ≤ b ∧ b < 0xF0 then 3
  else if 0xF0 ≤ b ∧ b < 0xF8 then 4
  else 0

/-- The byte that a percent sign and two hexadecimal digits write. -/
def escapedByte? : List Cell → Option (Nat × List Cell)
  | p :: a :: b :: s =>
    if p.char = '%' then
      match hexDigit? a.char, hexDigit? b.char with
      | some x, some y => some (16 * x + y, s)
      | _, _ => none
    else none
  | _ => none

/-- The further bytes of an escaped character. -/
def escapedTail? : Nat → List Cell → Option (List UInt8 × List Cell)
  | 0, s => some ([], s)
  | n + 1, s =>
    match escapedByte? s with
    | some (b, s) =>
      if 0x80 ≤ b ∧ b < 0xC0 then (escapedTail? n s).map fun x => (b.toUInt8 :: x.1, x.2) else none
    | none => none

/-- The bytes of an escaped character. -/
def escapedChar? (s : List Cell) : Option (List UInt8 × List Cell) :=
  match escapedByte? s with
  | some (b, s) =>
    if sequenceWidth b = 0 then none
    else (escapedTail? (sequenceWidth b - 1) s).map fun x => (b.toUInt8 :: x.1, x.2)
  | none => none

/-- The bytes of a text. -/
def bytesOf (s : List Char) : List UInt8 := (String.ofList s).toUTF8.toList

/-- The bytes of the tag characters at the front, and what follows. -/
def tagBytes? (verbatim : Bool) : Nat → List Cell → Option (List UInt8 × List Cell)
  | 0, _ => none
  | _ + 1, [] => some ([], [])
  | fuel + 1, c :: s =>
    if !isTagChar verbatim c.char then some ([], c :: s)
    else if c.char = '%' then
      match escapedChar? (c :: s) with
      | some (b, r) => (tagBytes? verbatim fuel r).map fun x => (b ++ x.1, x.2)
      | none => none
    else (tagBytes? verbatim fuel s).map fun x => (bytesOf [c.char] ++ x.1, x.2)

/-- The bytes of the tag characters at the front, of which there is at least one. -/
def someTagBytes? (verbatim : Bool) (s : List Cell) : Option (List UInt8 × List Cell) :=
  match tagBytes? verbatim (s.length + 1) s with
  | some (b, r) => if peekIs (isTagChar verbatim) 0 s then some (b, r) else none
  | none => none

/-- An exclamation mark, name characters and perhaps another mark: the text read, whether it closed
with a mark, and what follows. -/
def tagHandle? : List Cell → Option (List Char × Bool × List Cell)
  | [] => none
  | c :: s =>
    if c.char ≠ '!' then none
    else
      let (name, r) := spanName s
      match r with
      | d :: r' =>
        if d.char = '!' then some ('!' :: name ++ ['!'], true, r') else some ('!' :: name, false, r)
      | [] => some ('!' :: name, false, [])

/-- A tag behind its exclamation mark, which `s` begins with, and what follows it. -/
def tagForm? (s : List Cell) : Option (Token × List Cell) :=
  if peekIs (· == '<') 1 s then
    match someTagBytes? true (s.drop 2) with
    | some (b, c :: r) => if c.char = '>' then some (.tag [] b, r) else none
    | _ => none
  else
    match tagHandle? s with
    | none => none
    | some (handle, true, r) => (someTagBytes? false r).map fun x => (.tag handle x.1, x.2)
    | some (handle, false, r) =>
      match tagBytes? false (r.length + 1) r with
      | none => none
      | some (b, r) =>
        let suffix := bytesOf (handle.drop 1) ++ b
        if suffix.isEmpty then some (.tag [] (bytesOf ['!']), r) else some (.tag ['!'] suffix, r)

/-- A tag and what follows it: a blank, a line break, the end, or a comma in a flow collection. -/
def tag? (inFlow : Bool) (s : List Cell) : Option (Token × List Cell) :=
  match tagForm? s with
  | some (t, r) =>
    if endsWordAt 0 r || (inFlow && peekIs (· == ',') 0 r) then some (t, r) else none
  | none => none

/-! ## Directives -/

/-- One to nine digits and what follows them. -/
def versionNumber? (s : List Cell) : Option (Nat × List Cell) :=
  let ds := s.takeWhile fun c => '0' ≤ c.char && c.char ≤ '9'
  if ds.isEmpty || 9 < ds.length then none
  else some (ds.foldl (fun n c => 10 * n + (c.char.toNat - '0'.toNat)) 0, s.drop ds.length)

/-- The value of a version directive. -/
def versionValue? (s : List Cell) : Option (Token × List Cell) :=
  match versionNumber? (dropGaps s) with
  | some (major, c :: s) =>
    if c.char = '.' then (versionNumber? s).map fun x => (.version major x.1, x.2) else none
  | _ => none

/-- The value of a tag directive: a handle, a blank and what the handle stands for. -/
def tagPrefixValue? (s : List Cell) : Option (Token × List Cell) :=
  match tagHandle? (dropGaps s) with
  | none => none
  | some (handle, closed, r) =>
    if !closed && handle ≠ ['!'] then none
    else if !(peekIs isGap 0 r) then none
    else
      match someTagBytes? true (dropGaps r) with
      | some (b, r) => if endsWordAt 0 r then some (.tagPrefix handle b, r) else none
      | none => none

/-- A directive behind its percent sign, and what follows its line. -/
def directive? (s : List Cell) : Option (Token × List Cell) :=
  let (name, r) := spanName s
  if !(endsWordAt 0 r) then none
  else
    let found := if name = "YAML".toList then versionValue? r
      else if name = "TAG".toList then tagPrefixValue? r
      else none
    match found with
    | none => none
    | some (t, r) => (emptyLineEnd? r).map fun r => (t, r)

/-! ## The state of the reader -/

/-- A place where a key may turn out to have begun. -/
structure PendingKey where
  /-- The number of tokens before it. -/
  before : Nat
  /-- Whether something else than a key would be an error. -/
  required : Bool
  /-- Its place in the source. -/
  start : Cell

/-- What has been read, and what the indentation and the keys allow next. -/
structure Lexer where
  /-- The cells ahead. -/
  ahead : List Cell
  /-- The tokens so far, the last one first. -/
  done : List Token
  /-- The number of tokens so far. -/
  count : Nat
  /-- The column of the innermost block; minus one outside of all. -/
  indent : Int
  /-- The columns of the blocks around it. -/
  outer : List Int
  /-- The pending key of each open flow collection and, last, of the block. -/
  pending : List (Option PendingKey)
  /-- Whether a key may begin here. -/
  keyAllowed : Bool

namespace Lexer

/-- The reader in front of a source. -/
def start (s : List Cell) : Lexer := ⟨s, [], 0, -1, [], [none], true⟩

/-- Whether the reader is inside a flow collection. -/
def inFlow (l : Lexer) : Bool := 1 < l.pending.length

/-- One more token. -/
def push (l : Lexer) (t : Token) : Lexer := { l with done := t :: l.done, count := l.count + 1 }

/-- Some tokens put in where `before` tokens stood. -/
def insert (l : Lexer) (before : Nat) (ts : List Token) : Lexer :=
  let n := l.count - before
  { l with
    done := l.done.take n ++ ts.reverse ++ l.done.drop n
    count := l.count + ts.length }

/-- The reader without the pending key of the innermost level; an error if it was required. -/
def dropPending (l : Lexer) : Option Lexer :=
  match l.pending with
  | some k :: ks => if k.required then none else some { l with pending := none :: ks }
  | _ => some l

/-- The reader with a pending key at the next cell, if a key may begin there. -/
def savePending (l : Lexer) : Option Lexer :=
  match l.ahead with
  | [] => some l
  | c :: _ =>
    if l.keyAllowed then
      match l.dropPending with
      | none => none
      | some l =>
        let required := !l.inFlow && l.indent == (c.column : Int)
        some { l with pending := some ⟨l.count, required, c⟩ :: l.pending.drop 1 }
    else some l

/-- Whether a pending key is too far back to be one: on another line or over 1024 characters. -/
def isStale (c : Cell) (k : PendingKey) : Bool :=
  k.start.line < c.line || k.start.index + 1024 < c.index

/-- The reader without the keys that are too far back; an error if one of them was required. -/
def dropStale (l : Lexer) : Option Lexer :=
  match l.ahead with
  | [] => some l
  | c :: _ =>
    let stale (k : Option PendingKey) : Bool := k.any (isStale c)
    if l.pending.any fun k => stale k && k.any PendingKey.required then none
    else some { l with pending := l.pending.map fun k => if stale k then none else k }

/-- The block ends for the blocks that stand further in than a column, given from the inside. -/
def closeBlocks (column : Int) (indent : Int) : List Int → Nat × Int × List Int
  | [] => (0, indent, [])
  | o :: os =>
    if column < indent then
      let (n, i, r) := closeBlocks column o os
      (n + 1, i, r)
    else (0, indent, o :: os)

/-- The reader with all blocks ended that stand further in than a column. -/
def unroll (l : Lexer) (column : Int) : Lexer :=
  if l.inFlow then l
  else
    let (n, indent, outer) := closeBlocks column l.indent l.outer
    { l with
      done := List.replicate n .blockEnd ++ l.done
      count := l.count + n
      indent := indent
      outer := outer }

/-- The reader with a block opened at a column, if that is further in than the block around; the
token of the new block goes where `before` tokens stood. -/
def roll (l : Lexer) (column : Nat) (before : Nat) (t : Token) : Lexer :=
  if l.inFlow then l
  else if l.indent < (column : Int) then
    { (l.insert before [t]) with indent := column, outer := l.indent :: l.outer }
  else l

/-- The cells from the next token on, and whether a key may begin there.  Blanks, comments and line
breaks are skipped; a tab only where no key may begin or inside a flow collection; a byte order
mark only at the start of a line. -/
def skipToToken (flow : Bool) : Bool → Bool → List Cell → Bool × List Cell
  | _, allowed, [] => (allowed, [])
  | true, allowed, c :: s =>
    if isBreak c.char then skipToToken flow false (allowed || !flow) s
    else skipToToken flow true allowed s
  | false, allowed, c :: s =>
    if isBreak c.char then skipToToken flow false (allowed || !flow) s
    else if c.char = ' ' then skipToToken flow false allowed s
    else if c.char = '\t' ∧ (flow || !allowed) then skipToToken flow false allowed s
    else if c.char = '#' then skipToToken flow true allowed s
    else if c.char = byteOrderMark ∧ c.column = 0 then skipToToken flow false allowed s
    else (allowed, c :: s)

/-- The reader in front of the next token, with stale keys and inner blocks gone. -/
def advance (l : Lexer) : Option Lexer :=
  let (allowed, s) := skipToToken l.inFlow false l.keyAllowed l.ahead
  match dropStale { l with ahead := s, keyAllowed := allowed } with
  | none => none
  | some l =>
    match l.ahead with
    | [] => some l
    | c :: _ => some (l.unroll c.column)

/-! ## The tokens one by one -/

/-- An opening bracket or brace. -/
def openFlow (l : Lexer) (t : Token) (rest : List Cell) : Option Lexer :=
  match l.savePending with
  | none => none
  | some l =>
    some (push { l with ahead := rest, pending := none :: l.pending, keyAllowed := true } t)

/-- A closing bracket or brace. -/
def closeFlow (l : Lexer) (t : Token) (rest : List Cell) : Option Lexer :=
  match l.dropPending with
  | none => none
  | some l =>
    let pending := if l.inFlow then l.pending.drop 1 else l.pending
    some (push { l with ahead := rest, pending := pending, keyAllowed := false } t)

/-- A comma. -/
def flowEntry (l : Lexer) (rest : List Cell) : Option Lexer :=
  match l.dropPending with
  | none => none
  | some l => some (push { l with ahead := rest, keyAllowed := true } .flowEntry)

/-- The hyphen of an entry. -/
def blockEntry (l : Lexer) (c : Cell) (rest : List Cell) : Option Lexer :=
  if !l.inFlow && !l.keyAllowed then none
  else
    match dropPending (l.roll c.column l.count .blockSequence) with
    | none => none
    | some l => some (push { l with ahead := rest, keyAllowed := true } .blockEntry)

/-- The question mark of an explicit key. -/
def explicitKey (l : Lexer) (c : Cell) (rest : List Cell) : Option Lexer :=
  if !l.inFlow && !l.keyAllowed then none
  else
    match dropPending (l.roll c.column l.count .blockMapping) with
    | none => none
    | some l => some (push { l with ahead := rest, keyAllowed := !l.inFlow } .key)

/-- The colon of a value: what was pending turns out to be its key. -/
def value (l : Lexer) (c : Cell) (rest : List Cell) : Option Lexer :=
  match l.pending with
  | some k :: ks =>
    let l := (l.insert k.before [.key]).roll k.start.column k.before .blockMapping
    some (push { l with ahead := rest, pending := none :: ks, keyAllowed := false } .value)
  | _ =>
    if !l.inFlow && !l.keyAllowed then none
    else
      let l := l.roll c.column l.count .blockMapping
      some (push { l with ahead := rest, keyAllowed := !l.inFlow } .value)

/-- A token that may begin a key: its reader gives the token and what follows. -/
def keyed (l : Lexer) (read : List Cell → Option (Token × List Cell)) : Option Lexer :=
  match l.savePending with
  | none => none
  | some l =>
    (read l.ahead).map fun x => push { l with ahead := x.2, keyAllowed := false } x.1

/-- A plain scalar; behind a line break a key may begin. -/
def plainScalar (l : Lexer) : Option Lexer :=
  match l.savePending with
  | none => none
  | some l =>
    (plain? l.inFlow l.indent l.ahead).map fun x =>
      push { l with ahead := x.2.2, keyAllowed := x.2.1 } (.scalar true x.1)

/-- A block scalar, behind which a key may begin. -/
def blockScalar (l : Lexer) (literal : Bool) (rest : List Cell) : Option Lexer :=
  match l.dropPending with
  | none => none
  | some l =>
    (block? literal l.indent rest).map fun x =>
      push { l with ahead := x.2, keyAllowed := true } (.scalar false x.1)

/-- A directive or a document marker, in front of which every block ends. -/
def atMargin (l : Lexer) (read : List Cell → Option (Token × List Cell)) : Option Lexer :=
  match dropPending (l.unroll (-1)) with
  | none => none
  | some l =>
    (read l.ahead).map fun x => push { l with ahead := x.2, keyAllowed := false } x.1

/-- The characters that no plain scalar begins with. -/
def isIndicator (c : Char) : Bool := "-?:,[]\x7b\x7d#&*!|>'\"%@`".toList.contains c

/-- Whether a plain scalar begins here: with no indicator, or with a hyphen, and outside flow
collections with a question mark or a colon, in front of something. -/
def beginsPlain (flow : Bool) (c : Char) (s : List Cell) : Bool :=
  !(isGap c || isBreak c || isIndicator c) || (c == '-' && !(peekIs isGap 0 s)) ||
    (!flow && (c == '?' || c == ':') && !(endsWordAt 0 s))

/-- The reader behind the next token, which begins with the cell `c`. -/
def next (l : Lexer) (c : Cell) (s : List Cell) : Option Lexer :=
  let flow := l.inFlow
  if c.column = 0 ∧ c.char = '%' then
    l.atMargin fun s => directive? (s.drop 1)
  else if isMarker '-' (c :: s) then l.atMargin fun s => some (.documentStart, s.drop 3)
  else if isMarker '.' (c :: s) then l.atMargin fun s => some (.documentEnd, s.drop 3)
  else if c.char = '[' then l.openFlow .flowSequence s
  else if c.char = '{' then l.openFlow .flowMapping s
  else if c.char = ']' then l.closeFlow .flowSequenceEnd s
  else if c.char = '}' then l.closeFlow .flowMappingEnd s
  else if c.char = ',' then l.flowEntry s
  else if c.char = '-' ∧ endsWordAt 0 s then l.blockEntry c s
  else if c.char = '?' ∧ (flow || endsWordAt 0 s) then l.explicitKey c s
  else if c.char = ':' ∧ (flow || endsWordAt 0 s) then l.value c s
  else if c.char = '*' then
    l.keyed fun s => (nodeName? (s.drop 1)).map fun x => (.alias x.1, x.2)
  else if c.char = '&' then
    l.keyed fun s => (nodeName? (s.drop 1)).map fun x => (.anchor x.1, x.2)
  else if c.char = '!' then l.keyed (tag? flow)
  else if c.char = '|' ∧ !flow then l.blockScalar true s
  else if c.char = '>' ∧ !flow then l.blockScalar false s
  else if c.char = '\'' then
    l.keyed fun s => (quoted? true (s.drop 1)).map fun x => (.scalar false x.1, x.2)
  else if c.char = '"' then
    l.keyed fun s => (quoted? false (s.drop 1)).map fun x => (.scalar false x.1, x.2)
  else if beginsPlain flow c.char s then l.plainScalar
  else none

/-- All tokens from here on, in order. -/
def run : Nat → Lexer → Option (List Token)
  | 0, _ => none
  | fuel + 1, l =>
    match l.advance with
    | none => none
    | some l =>
      match l.ahead with
      | [] => (dropPending (l.unroll (-1))).map fun l => l.done.reverse
      | c :: s =>
        match l.next c s with
        | none => none
        | some l => run fuel l

end Lexer

/-- The tokens of a source text; none when it cannot be cut into tokens. -/
def tokens? (s : List Char) : Option (List Token) :=
  match cells? s with
  | none => none
  | some cells => Lexer.run (cells.length + 2) (Lexer.start cells)

end ComponentStories.Yaml
