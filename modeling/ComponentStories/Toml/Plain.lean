import ComponentStories.Decimal.Double

/-
# Numbers and dates of configuration documents

A configuration makes no use of numbers, truth values, dates and times of day, but they may stand in
its document.  Here their grammar and their bounds are checked: each function gives what follows
such a value at the front of a text.
-/

namespace ComponentStories.Toml

/-! ## Digits -/

/-- The digits at the front, single underscores between them left out, and what follows them. -/
def digitRun (p : Char → Bool) : List Char → List Char × List Char
  | [] => ([], [])
  | '_' :: c :: s =>
    if p c then let (d, r) := digitRun p s; (c :: d, r) else ([], '_' :: c :: s)
  | c :: s => if p c then let (d, r) := digitRun p s; (c :: d, r) else ([], c :: s)

/-- At least one digit at the front, underscores left out, and what follows. -/
def digits? (p : Char → Bool) : List Char → Option (List Char × List Char)
  | c :: s => if p c then some (digitRun p (c :: s)) else none
  | [] => none

/-- The value of a digit in any base up to sixteen. -/
def digitValue (c : Char) : Nat :=
  if c.isDigit then c.toNat - 48 else c.toLower.toNat - 87

/-- The number that digits write in a base. -/
def ofDigits (base : Nat) (ds : List Char) : Nat :=
  ds.foldl (fun n d => n * base + digitValue d) 0

/-- Whether a sign stands at the front that is a minus, and what follows the sign. -/
def sign : List Char → Bool × List Char
  | '-' :: s => (true, s)
  | '+' :: s => (false, s)
  | s => (false, s)

/-- Decimal digits at the front without a zero before others, and what follows. -/
def decimal? : List Char → Option (List Char × List Char)
  | '0' :: s => some (['0'], s)
  | s => digits? Char.isDigit s

/-! ## Numbers -/

/-- What follows an integer at the front that has a base of its own and fits 64 bits. -/
def basedInteger? (base : Nat) (p : Char → Bool) (s : List Char) : Option (List Char) := do
  let (ds, r) ← digits? p s
  if ofDigits base ds < Nat.pow 2 63 then some r else none

/-- What follows an integer at the front that fits 64 bits. -/
def integer? : List Char → Option (List Char)
  | '0' :: 'x' :: s =>
    basedInteger? 16 (fun c => c.isDigit || ('a' ≤ c && c ≤ 'f') || ('A' ≤ c && c ≤ 'F')) s
  | '0' :: 'o' :: s => basedInteger? 8 (fun c => '0' ≤ c && c ≤ '7') s
  | '0' :: 'b' :: s => basedInteger? 2 (fun c => c == '0' || c == '1') s
  | s => do
    let (negative, s) := sign s
    let (ds, r) ← decimal? s
    if ofDigits 10 ds < Nat.pow 2 63 + (if negative then 1 else 0) then some r else none

/-- The exponent at the front, and what follows it. -/
def exponent? : List Char → Option (Int × List Char)
  | c :: s =>
    if c = 'e' ∨ c = 'E' then do
      let (negative, s) := sign s
      let (ds, r) ← digits? Char.isDigit s
      let n := ofDigits 10 ds
      pure (if negative then -(n : Int) else n, r)
    else none
  | [] => none

/-- What follows a number at the front that has a fraction or an exponent and is not too large. -/
def fraction? (s : List Char) : Option (List Char) := do
  let (negative, s) := sign s
  let (whole, s) ← decimal? s
  let (part, e, r) ← match s with
    | '.' :: s => do
      let (part, s) ← digits? Char.isDigit s
      match exponent? s with
      | some (e, r) => pure (part, e, r)
      | none => pure (part, 0, s)
    | s => do
      let (e, r) ← exponent? s
      pure ([], e, r)
  let n := ofDigits 10 (whole ++ part)
  if negative ∨ (Double.ofDecimal false n (e - part.length)).isSome then some r else none

/-- What follows an infinity or no number at the front. -/
def special? (s : List Char) : Option (List Char) :=
  match (sign s).2 with
  | 'i' :: 'n' :: 'f' :: r => some r
  | 'n' :: 'a' :: 'n' :: r => some r
  | _ => none

/-- What follows a truth value at the front. -/
def truth? : List Char → Option (List Char)
  | 't' :: 'r' :: 'u' :: 'e' :: r => some r
  | 'f' :: 'a' :: 'l' :: 's' :: 'e' :: r => some r
  | _ => none

/-! ## Dates and times of day -/

/-- The number of exactly `n` digits at the front, and what follows it. -/
def fixed? (n : Nat) (s : List Char) : Option (Nat × List Char) :=
  let ds := s.take n
  if ds.length = n ∧ ds.all Char.isDigit then some (ofDigits 10 ds, s.drop n) else none

/-- The number of two digits at the front that lies between bounds, and what follows it. -/
def two? (lo hi : Nat) (s : List Char) : Option (Nat × List Char) :=
  (fixed? 2 s).filter fun x => lo ≤ x.1 && x.1 ≤ hi

/-- What follows a character at the front. -/
def char? (c : Char) : List Char → Option (List Char)
  | d :: s => if d = c then some s else none
  | [] => none

/-- How many days a month has. -/
def daysIn (year month : Nat) : Nat :=
  let leap := year % 4 = 0 ∧ (year % 100 ≠ 0 ∨ year % 400 = 0)
  if month = 2 then (if leap then 29 else 28)
  else if month = 4 ∨ month = 6 ∨ month = 9 ∨ month = 11 then 30
  else 31

/-- What follows a date at the front. -/
def date? (s : List Char) : Option (List Char) := do
  let (year, s) ← fixed? 4 s
  let s ← char? '-' s
  let (month, s) ← two? 1 12 s
  let s ← char? '-' s
  let (day, s) ← two? 1 31 s
  if day ≤ daysIn year month then some s else none

/-- The text without the fraction of a second at its front. -/
def skipSecondPart : List Char → List Char
  | '.' :: c :: s => if c.isDigit then s.dropWhile Char.isDigit else '.' :: c :: s
  | s => s

/-- What follows a time of day at the front. -/
def time? (s : List Char) : Option (List Char) := do
  let (_, s) ← two? 0 23 s
  let s ← char? ':' s
  let (_, s) ← two? 0 59 s
  let s ← char? ':' s
  let (_, s) ← two? 0 60 s
  pure (skipSecondPart s)

/-- What follows the distance to universal time at the front. -/
def offset? : List Char → Option (List Char)
  | c :: s =>
    if c = 'Z' ∨ c = 'z' then some s
    else if c = '+' ∨ c = '-' then do
      let (_, s) ← two? 0 23 s
      let s ← char? ':' s
      let (_, s) ← two? 0 59 s
      pure s
    else none
  | [] => none

/-- What follows a time of day behind a date. -/
def timeBehind? : List Char → Option (List Char)
  | c :: s =>
    if c = 'T' ∨ c = 't' ∨ c = ' ' then (time? s).map fun r => (offset? r).getD r else none
  | [] => none

/-- What follows a date, a time of day or both at the front. -/
def moment? (s : List Char) : Option (List Char) :=
  match date? s with
  | some r => some ((timeBehind? r).getD r)
  | none => time? s

end ComponentStories.Toml
