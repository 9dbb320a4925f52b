/-
# Quoted texts

`Quoted.encode` writes the characters of a text between double quotes: the quote, the backslash
and the controls below U+0020 are escaped and every other character stands for itself.
`Quoted.decode` reads a quoted text and the escapes of the format, which are more.  Main
statement: `decode_encode`, what was written is read back, whatever follows it.
-/

namespace ComponentStories.Quoted

/-! ## Writing -/

/-- The lower-case hexadecimal digit of a number below sixteen. -/
def hexDigit (n : Nat) : Char := "0123456789abcdef".toList.getD n '0'

/-- One character as it is written. -/
def escape (c : Char) : List Char :=
  if c = '"' then ['\\', '"']
  else if c = '\\' then ['\\', '\\']
  else if c = '\x08' then ['\\', 'b']
  else if c = '\t' then ['\\', 't']
  else if c = '\n' then ['\\', 'n']
  else if c = '\x0c' then ['\\', 'f']
  else if c = '\r' then ['\\', 'r']
  else if c.toNat < 0x20 then
    ['\\', 'u', '0', '0', hexDigit (c.toNat / 16), hexDigit (c.toNat % 16)]
  else [c]

/-- The characters of a text as they are written between the quotes. -/
def escapeAll (s : List Char) : List Char := s.flatMap escape

/-- The quoted text. -/
def encode (s : List Char) : List Char := '"' :: escapeAll s ++ ['"']

/-! ## Reading

A quoted text is read in two steps, for an escape of four hexadecimal digits is half a character
when it names a surrogate. -/

/-- What stands at one place of a quoted text. -/
inductive Piece
  /-- A character, written as itself or by a short escape. -/
  | char (c : Char)
  /-- The code of an escape of four hexadecimal digits. -/
  | code (n : Nat)
  deriving DecidableEq

/-- The value of a hexadecimal digit of either case. -/
def hexValue (c : Char) : Option Nat :=
  if '0' ≤ c ∧ c ≤ '9' then some (c.toNat - '0'.toNat)
  else if 'a' ≤ c ∧ c ≤ 'f' then some (c.toNat - 'a'.toNat + 10)
  else if 'A' ≤ c ∧ c ≤ 'F' then some (c.toNat - 'A'.toNat + 10)
  else none

/-- The number that some hexadecimal digits write. -/
def hexNumber (digits : List Char) : Option Nat :=
  digits.foldlM (fun n c => (hexValue c).map (16 * n + ·)) 0

/-- The character of an escape of one letter. -/
def shortEscape (c : Char) : Option Char :=
  match c with
  | '"' => some '"'
  | '\\' => some '\\'
  | '/' => some '/'
  | 'b' => some '\x08'
  | 'f' => some '\x0c'
  | 'n' => some '\n'
  | 'r' => some '\r'
  | 't' => some '\t'
  | _ => none

/-- The pieces up to the closing quote, and what follows the quote. -/
def pieces : List Char → Option (List Piece × List Char)
  | [] => none
  | '"' :: r => some ([], r)
  | ['\\'] => none
  | '\\' :: 'u' :: a :: b :: c :: d :: r => do
    let n ← hexNumber [a, b, c, d]
    let (ps, r) ← pieces r
    pure (.code n :: ps, r)
  | '\\' :: e :: r => do
    let x ← shortEscape e
    let (ps, r) ← pieces r
    pure (.char x :: ps, r)
  | c :: r =>
    if c.toNat < 0x20 then none
    else do
      let (ps, r) ← pieces r
      pure (.char c :: ps, r)

/-- Whether a code is the first half of a surrogate pair. -/
def isHighSurrogate (n : Nat) : Bool := 0xD800 ≤ n && n ≤ 0xDBFF

/-- Whether a code is the second half of a surrogate pair. -/
def isLowSurrogate (n : Nat) : Bool := 0xDC00 ≤ n && n ≤ 0xDFFF

/-- The characters of some pieces; none when half a surrogate pair stands alone. -/
def joinPieces : List Piece → Option (List Char)
  | [] => some []
  | .char c :: ps => (joinPieces ps).map (c :: ·)
  | .code n :: ps =>
    if isHighSurrogate n then
      match ps with
      | .code m :: ps =>
        if isLowSurrogate m then
          (joinPieces ps).map (Char.ofNat (0x10000 + (n - 0xD800) * 0x400 + (m - 0xDC00)) :: ·)
        else none
      | _ => none
    else if isLowSurrogate n then none
    else (joinPieces ps).map (Char.ofNat n :: ·)

/-- The text that stands quoted at the front, and what follows it. -/
def decode : List Char → Option (List Char × List Char)
  | '"' :: r => do
    let (ps, r) ← pieces r
    let s ← joinPieces ps
    pure (s, r)
  | _ => none

/-! ## What is written is read back -/

/-- The piece as which a written character is read. -/
def pieceOf (c : Char) : Piece :=
  if c.toNat < 0x20 ∧ c ≠ '\x08' ∧ c ≠ '\t' ∧ c ≠ '\n' ∧ c ≠ '\x0c' ∧ c ≠ '\r' then .code c.toNat
  else .char c

/-- The code escape of a control is read as its code. -/
theorem hexNumber_control {n : Nat} (h : n < 0x20) :
    hexNumber ['0', '0', hexDigit (n / 16), hexDigit (n % 16)] = some n := by
  have : ∀ m : Fin 0x20, hexNumber ['0', '0', hexDigit (m.val / 16), hexDigit (m.val % 16)] =
      some m.val := by decide
  exact this ⟨n, h⟩

/-- The written form of one character in front of a text is read as its piece. -/
theorem pieces_escape_append (c : Char) (r : List Char) :
    pieces (escape c ++ r) = (pieces r).map fun x => (pieceOf c :: x.1, x.2) := by
  have hmap : ∀ p : Piece, (do
      let (ps, r) ← pieces r
      pure (p :: ps, r) : Option (List Piece × List Char)) =
      (pieces r).map fun x => (p :: x.1, x.2) := by
    intro p; cases pieces r <;> rfl
  simp only [escape]
  split
  · subst c; exact hmap (.char '"')
  split
  · subst c; exact hmap (.char '\\')
  split
  · subst c; exact hmap (.char '\x08')
  split
  · subst c; exact hmap (.char '\t')
  split
  · subst c; exact hmap (.char '\n')
  split
  · subst c; exact hmap (.char '\x0c')
  split
  · subst c; exact hmap (.char '\r')
  split
  · rename_i h1 h2 h3 h4 h5 h6 h7 h8
    simp only [List.cons_append, List.nil_append, pieces, hexNumber_control h8]
    have hp : pieceOf c = .code c.toNat := by simp [pieceOf, h3, h4, h5, h6, h7, h8]
    rw [hp]; exact hmap (.code c.toNat)
  · rename_i h1 h2 h3 h4 h5 h6 h7 h8
    have hp : pieceOf c = .char c := by simp [pieceOf, h8]
    rw [hp, List.cons_append, List.nil_append]
    conv => lhs; unfold pieces
    split
    · simp at *
    · rename_i heq; simp only [List.cons.injEq] at heq; exact absurd heq.1 h1
    · rename_i heq; simp only [List.cons.injEq] at heq; exact absurd heq.1 h2
    · rename_i heq; simp only [List.cons.injEq] at heq; exact absurd heq.1 h2
    · rename_i heq; simp only [List.cons.injEq] at heq; exact absurd heq.1 h2
    · rename_i heq
      simp only [List.cons.injEq] at heq
      obtain ⟨rfl, rfl⟩ := heq
      simp only [h8, if_false]
      exact hmap (.char c)

/-- Written characters are read as their pieces, up to the closing quote. -/
theorem pieces_escapeAll (s r : List Char) :
    pieces (escapeAll s ++ '"' :: r) = some (s.map pieceOf, r) := by
  induction s with
  | nil => simp [escapeAll, pieces]
  | cons c s ih =>
    have : escapeAll (c :: s) ++ '"' :: r = escape c ++ (escapeAll s ++ '"' :: r) := by
      simp [escapeAll]
    rw [this, pieces_escape_append, ih]; rfl

/-- The pieces of written characters are those characters. -/
theorem joinPieces_map_pieceOf (s : List Char) : joinPieces (s.map pieceOf) = some s := by
  induction s with
  | nil => rfl
  | cons c s ih =>
    by_cases h : c.toNat < 0x20 ∧ c ≠ '\x08' ∧ c ≠ '\t' ∧ c ≠ '\n' ∧ c ≠ '\x0c' ∧ c ≠ '\r'
    · have hp : pieceOf c = .code c.toNat := by unfold pieceOf; rw [if_pos h]
      have h1 : isHighSurrogate c.toNat = false := by
        have := h.1; simp [isHighSurrogate]; omega
      have h2 : isLowSurrogate c.toNat = false := by
        have := h.1; simp [isLowSurrogate]; omega
      simp only [List.map_cons, hp]
      unfold joinPieces
      simp [h1, h2, ih, Char.ofNat_toNat]
    · have hp : pieceOf c = .char c := by unfold pieceOf; rw [if_neg h]
      simp [List.map_cons, hp, joinPieces, ih]

/-- **A written text is read back**, and what follows it is left. -/
theorem decode_encode (s r : List Char) : decode (encode s ++ r) = some (s, r) := by
  have : encode s ++ r = '"' :: (escapeAll s ++ '"' :: r) := by simp [encode]
  rw [this]
  simp [decode, pieces_escapeAll, joinPieces_map_pieceOf]

end ComponentStories.Quoted
