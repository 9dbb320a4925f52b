import ComponentStories.Text.Blank

/-
# Quoted texts of configuration documents

Texts stand between one or three quotes of one kind.  Between double quotes a backslash escapes; in
three of them it also takes a line break and the blanks behind it away.
-/

namespace ComponentStories.Toml

/-! ## Characters -/

/-- A blank inside a line. -/
def isGap (c : Char) : Bool := c == ' ' || c == '\t'

/-- A character that may stand in a line. -/
def isVisible (c : Char) : Bool := c == '\t' || (0x20 ≤ c.toNat && c.toNat ≠ 0x7F)

/-- The text without the blanks at its front. -/
def skipGaps (s : List Char) : List Char := s.dropWhile isGap

/-- What follows a line break at the front. -/
def lineBreak? : List Char → Option (List Char)
  | '\n' :: s => some s
  | '\r' :: '\n' :: s => some s
  | _ => none

/-- The text without blanks and line breaks at its front. -/
def skipBlankLines : List Char → List Char
  | '\r' :: '\n' :: s => skipBlankLines s
  | c :: s => if isGap c || c == '\n' then skipBlankLines s else c :: s
  | [] => []

/-- The value of a hexadecimal digit. -/
def hexDigit? (c : Char) : Option Nat :=
  if '0' ≤ c ∧ c ≤ '9' then some (c.toNat - 48)
  else if 'a' ≤ c ∧ c ≤ 'f' then some (c.toNat - 87)
  else if 'A' ≤ c ∧ c ≤ 'F' then some (c.toNat - 55)
  else none

/-- The character with a code in `n` hexadecimal digits at the front, and what follows it. -/
def codedChar? (n : Nat) (s : List Char) : Option (Char × List Char) := do
  let digits ← (s.take n).mapM hexDigit?
  let code := digits.foldl (fun a d => a * 16 + d) 0
  if digits.length = n ∧ code.isValidChar then some (Char.ofNat code, s.drop n) else none

/-- The character that is written behind a backslash, and what follows it. -/
def escaped? : List Char → Option (Char × List Char)
  | 'b' :: s => some ('\x08', s)
  | 'f' :: s => some ('\x0c', s)
  | 'n' :: s => some ('\n', s)
  | 'r' :: s => some ('\r', s)
  | 't' :: s => some ('\t', s)
  | '\\' :: s => some ('\\', s)
  | '"' :: s => some ('"', s)
  | 'u' :: s => codedChar? 4 s
  | 'U' :: s => codedChar? 8 s
  | _ => none

/-! ## One line -/

/-- The text up to a double quote, and what follows that. -/
def quoted? : Nat → List Char → Option (List Char × List Char)
  | 0, _ => none
  | _, [] => none
  | fuel + 1, c :: s =>
    if c = '"' then some ([], s)
    else if c = '\\' then do
      let (e, s) ← escaped? s
      let (t, r) ← quoted? fuel s
      pure (e :: t, r)
    else if isVisible c then do
      let (t, r) ← quoted? fuel s
      pure (c :: t, r)
    else none

/-- The text up to a single quote, and what follows that. -/
def literal? : List Char → Option (List Char × List Char)
  | [] => none
  | c :: s =>
    if c = '\'' then some ([], s)
    else if isVisible c then (literal? s).map fun x => (c :: x.1, x.2)
    else none

/-! ## Several lines -/

/-- The text without a line break at its front. -/
def dropBreak (s : List Char) : List Char := (lineBreak? s).getD s

/-- What three closing quotes end, with up to two quotes in front of
them that belong to the text. -/
def closing? (quote : Char) : List Char → Option (List Char × List Char)
  | a :: b :: c :: d :: e :: s =>
    if a = quote ∧ b = quote ∧ c = quote then
      if d = quote then
        if e = quote then some ([quote, quote], s) else some ([quote], e :: s)
      else some ([], d :: e :: s)
    else none
  | [a, b, c, d] =>
    if a = quote ∧ b = quote ∧ c = quote then
      if d = quote then some ([quote], []) else some ([], [d])
    else none
  | [a, b, c] => if a = quote ∧ b = quote ∧ c = quote then some ([], []) else none
  | _ => none

/-- The text up to three quotes of a kind, and what follows these. -/
def lines? (quote : Char) : Nat → List Char → Option (List Char × List Char)
  | 0, _ => none
  | _, [] => none
  | fuel + 1, c :: s =>
    match closing? quote (c :: s) with
    | some x => some x
    | none =>
      match lineBreak? (c :: s) with
      | some s => do
        let (t, r) ← lines? quote fuel s
        pure ('\n' :: t, r)
      | none =>
        if c = '\\' ∧ quote = '"' then
          match lineBreak? (skipGaps s) with
          | some s => lines? quote fuel (skipBlankLines s)
          | none => do
            let (e, s) ← escaped? s
            let (t, r) ← lines? quote fuel s
            pure (e :: t, r)
        else if isVisible c then do
          let (t, r) ← lines? quote fuel s
          pure (c :: t, r)
        else none

/-- A quoted text at the front that stands in one line. -/
def lineText? : List Char → Option (List Char × List Char)
  | '"' :: s => quoted? (s.length + 1) s
  | '\'' :: s => literal? s
  | _ => none

/-- A quoted text at the front. -/
def text? : List Char → Option (List Char × List Char)
  | '"' :: '"' :: '"' :: s => lines? '"' (s.length + 1) (dropBreak s)
  | '\'' :: '\'' :: '\'' :: s => lines? '\'' (s.length + 1) (dropBreak s)
  | s => lineText? s

end ComponentStories.Toml
