/-
# Texts as bytes

The encoding of characters in one to four bytes.  A first byte fixes how many bytes follow it and
between which bounds each of them lies.  Bytes that begin a character without completing it, and
bytes that begin none, are no text; each such run stands for one replacement character.  A text is
divided between two characters only.
-/

namespace ComponentStories.Utf8

/-- The bounds of a byte that continues a character. -/
def tail : Nat × Nat := (0x80, 0xBF)

/-- The bounds of the bytes behind a first byte; none if no character begins with the byte. -/
def follow? (b : Nat) : Option (List (Nat × Nat)) :=
  if b < 0x80 then some []
  else if b < 0xC2 then none
  else if b < 0xE0 then some [tail]
  else if b = 0xE0 then some [(0xA0, 0xBF), tail]
  else if b = 0xED then some [(0x80, 0x9F), tail]
  else if b < 0xF0 then some [tail, tail]
  else if b = 0xF0 then some [(0x90, 0xBF), tail, tail]
  else if b < 0xF4 then some [tail, tail, tail]
  else if b = 0xF4 then some [(0x80, 0x8F), tail, tail]
  else none

/-- The bytes at the front that lie within the bounds, one after the other. -/
def within : List (Nat × Nat) → List UInt8 → List Nat
  | (lo, hi) :: bounds, b :: bytes =>
    if lo ≤ b.toNat ∧ b.toNat ≤ hi then b.toNat :: within bounds bytes else []
  | _, _ => []

/-- The code point of a first byte and the bytes behind it. -/
def codePoint (b : Nat) (behind : List Nat) : Nat :=
  let first := if behind.isEmpty then b else b % Nat.pow 2 (6 - behind.length)
  behind.foldl (fun n c => n * 64 + c % 64) first

/-- The characters of some bytes, and nothing for each run of bytes that is no character.  `skip`
counts the bytes that belong to the character before them. -/
def decodeFrom : Nat → List UInt8 → List (Option Char)
  | _, [] => []
  | skip + 1, _ :: bytes => decodeFrom skip bytes
  | 0, b :: bytes =>
    match follow? b.toNat with
    | none => none :: decodeFrom 0 bytes
    | some bounds =>
      let behind := within bounds bytes
      let c := if behind.length = bounds.length then some (Char.ofNat (codePoint b.toNat behind))
        else none
      c :: decodeFrom behind.length bytes

/-- The text of some bytes; none if they are no text. -/
def decode? (bytes : List UInt8) : Option String :=
  ((decodeFrom 0 bytes).mapM id).map String.ofList

/-- The text of some bytes, with a replacement character for each run that is no character. -/
def decodeLossy (bytes : List UInt8) : String :=
  String.ofList ((decodeFrom 0 bytes).map fun c => c.getD '\uFFFD')

/-! ## Dividing a text -/

/-- Whether a byte continues a character. -/
def isTail (b : UInt8) : Bool := tail.1 ≤ b.toNat && b.toNat ≤ tail.2

/-- Whether a character begins at an offset, or the bytes end there. -/
def isBoundary (bytes : List UInt8) (offset : Nat) : Bool :=
  offset == 0 ||
    match bytes[offset]? with
    | some b => !isTail b
    | none => offset == bytes.length

/-- Why a text is not divided. -/
inductive DivideError
  /-- The offset lies inside a character or behind the text. -/
  | noBoundary
  deriving DecidableEq, Repr

/-- The texts in front of an offset and from there on. -/
def divide (bytes : List UInt8) (offset : Nat) : Except DivideError (String × String) :=
  if bytes.length < offset then .error .noBoundary
  else
    match decode? (bytes.take offset), decode? (bytes.drop offset) with
    | some front, some rest => .ok (front, rest)
    | _, _ => .error .noBoundary

end ComponentStories.Utf8
