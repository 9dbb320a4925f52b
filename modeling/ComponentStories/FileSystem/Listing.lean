import ComponentStories.FileSystem.Basic
import ComponentStories.Path

/-
# Listings of directories

A listing tells what is in a directory, one entry a line: a letter for the kind, the time of the
last change in seconds with a fraction, the path, and the target if the entry is a link, with tabs
between them.  A file system is made from the entries of a listing, and two file systems are
compared entry by entry.
-/

namespace ComponentStories.FileSystem

/-! ## Lines -/

/-- What a line says that an entry is. -/
inductive ListedKind
  /-- A file, whose content is not in the listing. -/
  | file
  /-- A directory. -/
  | directory
  /-- A link. -/
  | link (target : String)
  deriving DecidableEq, Repr

/-- An entry of a listing. -/
structure Listed where
  /-- The path. -/
  path : String
  /-- What stands there. -/
  kind : ListedKind
  /-- The time of its last change, in parts of 10⁻⁹ seconds. -/
  time : Int
  deriving DecidableEq, Repr

/-- The number that decimal digits write. -/
def digitsValue (ds : List Char) : Nat := ds.foldl (fun n c => n * 10 + (c.toNat - 48)) 0

/-- The time that seconds with a fraction write. -/
def timeOfSeconds (s : List Char) : Int :=
  let whole := s.takeWhile Char.isDigit
  let part := ((s.drop (whole.length + 1)).takeWhile Char.isDigit).take 9
  (digitsValue whole * Nat.pow 10 9 + digitsValue part * Nat.pow 10 (9 - part.length) : Nat)

/-- The entry that a line of a listing is. -/
def Listed.ofLine? (line : String) : Option Listed :=
  match (Text.splitAt '\t' line.toList).map String.ofList with
  | [kind, time, path, target] =>
    let entry (k : ListedKind) : Listed := ⟨path, k, timeOfSeconds time.toList⟩
    if kind = "f" then some (entry .file)
    else if kind = "d" then some (entry .directory)
    else if kind = "l" then some (entry (.link target))
    else none
  | _ => none

/-! ## From entries and back -/

/-- The location of a path that leads down from a directory. -/
def locationBelow (dir : Location) (path : String) : Location :=
  dir ++ (Path.parts path).filterMap Path.Part.name?

/-- The file system that holds some items. -/
def ofItems (working : Location) (items : List (Location × Item)) : FileSystem :=
  let clock := items.foldl (fun t e => max t e.2.modified) 0
  items.foldl (fun fs e => fs.put e.1 e.2) (fresh working clock)

/-- The entries of a file system that another one does not have like this, directories in
front of what is in them. -/
def changesSince (fs old : FileSystem) : List (Location × Entry) :=
  (fs.items.map fun e => (e.1, e.2.entry)).filter fun e => old.entryAt? e.1 ≠ some e.2

/-- A path to a location from a directory that stands right below the root. -/
def pathTo (dir l : Location) : String :=
  if l.take dir.length = dir then (l.drop dir.length).foldl Path.join "."
  else l.foldl Path.join ".."

end ComponentStories.FileSystem
