/-
# The source of a document: characters with their places

`Source.ofText?` refuses characters that a document may not hold, drops a byte order mark at the
start, makes every spelling of a line break one character and notes the place of each character.
A place is given by the line, the column in it and the number of characters before.
-/

namespace ComponentStories.Yaml

/-! ## Characters -/

/-- Whether a document may hold the character: no control except tab, line breaks and the next
line character, and no noncharacter of the first plane. -/
def isAllowed (c : Char) : Bool :=
  let n := c.toNat
  n == 0x09 || n == 0x0A || n == 0x0D || (0x20 ≤ n && n ≤ 0x7E) || n == 0x85 ||
    (0xA0 ≤ n && n ≤ 0xD7FF) || (0xE000 ≤ n && n ≤ 0xFFFD) || 0x10000 ≤ n

/-- The byte order mark. -/
def byteOrderMark : Char := '\ufeff'

/-- The line separator and the paragraph separator, which keep their character as line breaks. -/
def isSeparator (c : Char) : Bool := c == '\u2028' || c == '\u2029'

/-- Whether a character of a normalised source ends a line. -/
def isBreak (c : Char) : Bool := c == '\n' || isSeparator c

/-- A space or a tab. -/
def isGap (c : Char) : Bool := c == ' ' || c == '\t'

/-- A letter, a digit, the underscore or the hyphen, of ASCII. -/
def isNameChar (c : Char) : Bool :=
  ('a' ≤ c && c ≤ 'z') || ('A' ≤ c && c ≤ 'Z') || ('0' ≤ c && c ≤ '9') || c == '_' || c == '-'

/-- The text with every line break that has no character of its own written as `\n`. -/
def normalizeBreaks : List Char → List Char
  | '\r' :: '\n' :: s => '\n' :: normalizeBreaks s
  | '\r' :: s => '\n' :: normalizeBreaks s
  | '\u0085' :: s => '\n' :: normalizeBreaks s
  | c :: s => c :: normalizeBreaks s
  | [] => []

/-! ## Places -/

/-- A character and its place. -/
structure Cell where
  /-- The character. -/
  char : Char
  /-- The number of line breaks before. -/
  line : Nat
  /-- The number of characters before on the line. -/
  column : Nat
  /-- The number of characters before. -/
  index : Nat
  deriving Inhabited

/-- The characters with their places, from a given place on. -/
def place (line column index : Nat) : List Char → List Cell
  | [] => []
  | c :: s =>
    ⟨c, line, column, index⟩ ::
      if isBreak c then place (line + 1) 0 (index + 1) s else place line (column + 1) (index + 1) s

/-- The cells of a source text; none when it holds a character that is not allowed. -/
def cells? (s : List Char) : Option (List Cell) :=
  let s := match s with
    | c :: r => if c = byteOrderMark then r else c :: r
    | [] => []
  if s.all isAllowed then some (place 0 0 0 (normalizeBreaks s)) else none

/-! ## Looking ahead -/

/-- Whether the character at a distance has a property; past the end it has none. -/
def peekIs (p : Char → Bool) (n : Nat) (s : List Cell) : Bool :=
  match s[n]? with
  | some c => p c.char
  | none => false

/-- Whether a blank, a line break or the end stands at a distance. -/
def endsWordAt (n : Nat) (s : List Cell) : Bool :=
  match s[n]? with
  | some c => isGap c.char || isBreak c.char
  | none => true

/-- The column of the next character; zero at the end. -/
def columnOf : List Cell → Nat
  | [] => 0
  | c :: _ => c.column

/-- Whether the line begins with three times a character and a blank, a break or the end. -/
def isMarker (mark : Char) (s : List Cell) : Bool :=
  match s with
  | a :: b :: c :: _ =>
    a.column == 0 && a.char == mark && b.char == mark && c.char == mark && endsWordAt 3 s
  | _ => false

/-- Whether a document begins or ends here. -/
def isDocumentMarker (s : List Cell) : Bool := isMarker '-' s || isMarker '.' s

end ComponentStories.Yaml
