/-
# Records of what was done

A record is a message with a level.  The least level is told on request only.
-/

namespace ComponentStories

/-- How much a record matters. -/
inductive Level
  /-- Told only on request. -/
  | debug
  /-- The usual course of things. -/
  | info
  /-- Something was left out. -/
  | warn
  /-- Something failed. -/
  | error
  deriving DecidableEq, Repr

/-- The word of a level. -/
def Level.word : Level → String
  | debug => "DEBUG"
  | info => "INFO"
  | warn => "WARN"
  | error => "ERROR"

/-- A record: how much it matters, and a message. -/
structure Record where
  /-- How much it matters. -/
  level : Level
  /-- The message. -/
  message : String
  deriving DecidableEq, Repr

/-- The lower-case hexadecimal digits of a number below 256, at least two of them. -/
def hexPair (n : Nat) : List Char := [Nat.digitChar (n / 16), Nat.digitChar (n % 16)]

/-- A character as it is told: one that would steer a terminal is written as a code. -/
def toldChar (c : Char) : List Char :=
  let n := c.toNat
  if n = 0x07 ∨ n = 0x08 ∨ n = 0x0C ∨ n = 0x1B ∨ n = 0x7F then ['\\', 'x'] ++ hexPair n
  else if 0x80 ≤ n ∧ n ≤ 0x9F then ['\\', 'u', '{'] ++ hexPair n ++ ['}']
  else [c]

/-- The text of a record. -/
def Record.text (r : Record) : String :=
  r.level.word ++ " " ++ String.ofList (r.message.toList.flatMap toldChar)

/-- The records that are told: all of them on request, otherwise all but the least. -/
def told (verbose : Bool) (log : List Record) : List Record :=
  log.filter fun r => verbose || r.level ≠ .debug

end ComponentStories
