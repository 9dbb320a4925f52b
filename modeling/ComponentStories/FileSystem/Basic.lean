import ComponentStories.Sorted
import ComponentStories.Text.Utf8

/-
# File systems

A file system holds files, directories and links at locations.  A location is the list of names from
the root down, so a location has no `..` in it and does not depend on links.  Every change is
stamped with a time that is later than all stamps before it.
-/

namespace ComponentStories

/-! ## Errors -/

/-- Why an access to a file fails. -/
inductive IoError
  /-- Nothing is there. -/
  | notFound
  /-- Something is there already. -/
  | alreadyExists
  /-- Something on the way is no directory. -/
  | notDirectory
  /-- A directory stands where a file is asked for. -/
  | isDirectory
  /-- A name or a path is too long. -/
  | nameTooLong
  /-- Too many links lead to one another. -/
  | tooManyLinks
  /-- The path holds a character that ends paths. -/
  | nulInPath
  /-- The bytes of the file are no text. -/
  | notText
  /-- There is no room to write to. -/
  | diskFull
  deriving DecidableEq, Repr

/-- The text of an error. -/
def IoError.message : IoError → String
  | notFound => "No such file or directory (os error 2)"
  | alreadyExists => "File exists (os error 17)"
  | notDirectory => "Not a directory (os error 20)"
  | isDirectory => "Is a directory (os error 21)"
  | nameTooLong => "File name too long (os error 36)"
  | tooManyLinks => "Too many levels of symbolic links (os error 40)"
  | nulInPath => "file name contained an unexpected NUL byte"
  | notText => "stream did not contain valid UTF-8"
  | diskFull => "disk full"

/-! ## Entries -/

/-- What a file holds. -/
inductive Content
  /-- A text. -/
  | text (s : String)
  /-- Bytes that are no text. -/
  | binary (bytes : List UInt8)
  deriving DecidableEq

/-- The content that some bytes are. -/
def Content.ofBytes (bytes : List UInt8) : Content :=
  match Utf8.decode? bytes with
  | some s => text s
  | none => binary bytes

/-- The content for people to read. -/
def Content.shown : Content → String
  | text s => s
  | binary bytes => Utf8.decodeLossy bytes

/-- What stands at a location. -/
inductive Entry
  /-- A file. -/
  | file (content : Content)
  /-- A directory. -/
  | directory
  /-- A link to a path. -/
  | link (target : String)
  deriving DecidableEq

/-- An entry and the time of its last change. -/
structure Item where
  /-- The entry. -/
  entry : Entry
  /-- The time of its last change. -/
  modified : Int
  deriving DecidableEq

/-- The names from the root of a file system down. -/
abbrev Location := List String

/-! ## File systems -/

/-- Entries at locations, in ascending order of these, with the location that relative paths start
from and the time of the last change. -/
structure FileSystem where
  /-- The items at their locations. -/
  items : List (Location × Item)
  /-- The working directory. -/
  working : Location
  /-- The time of the last change. -/
  clock : Int
  /-- The locations are in ascending order. -/
  ascending : (items.map Prod.fst).Pairwise (· < ·) := by decide +kernel

namespace FileSystem

/-- The item at a location. -/
def itemAt? (fs : FileSystem) (l : Location) : Option Item := getSorted? l fs.items

/-- The entry at a location. -/
def entryAt? (fs : FileSystem) (l : Location) : Option Entry := (fs.itemAt? l).map Item.entry

/-- The names in a directory, in ascending order. -/
def children (fs : FileSystem) (l : Location) : List String :=
  fs.items.filterMap fun e =>
    if e.1.length = l.length + 1 ∧ e.1.take l.length = l then e.1.getLast? else none

/-- The items below a location, every directory in front of what is in it, with the names
that lead to them from there. -/
def below (fs : FileSystem) (l : Location) : List (List String × Item) :=
  fs.items.filterMap fun e =>
    if l.length < e.1.length ∧ e.1.take l.length = l then some (e.1.drop l.length, e.2) else none

/-- The file system with an item at a location. -/
def put (fs : FileSystem) (l : Location) (item : Item) : FileSystem :=
  { fs with
    items := putSorted l item fs.items
    ascending := pairwise_putSorted l item fs.ascending }

/-- The file system in which the item at a location, if any, carries a time. -/
def stamp (fs : FileSystem) (l : Location) (time : Int) : FileSystem :=
  match fs.itemAt? l with
  | some item => fs.put l { item with modified := time }
  | none => fs

/-- The file system after one more moment. -/
def tick (fs : FileSystem) : FileSystem := { fs with clock := fs.clock + 1 }

/-- The file system with another entry at a location.  The directory is stamped as well
when nothing stood there. -/
def change (fs : FileSystem) (l : Location) (entry : Entry) : FileSystem :=
  let now := fs.tick
  let dir := if (fs.entryAt? l).isNone then now.stamp l.dropLast now.clock else now
  dir.put l ⟨entry, now.clock⟩

/-- The file system without the item at a location. -/
def erase (fs : FileSystem) (l : Location) : FileSystem :=
  let now := fs.tick
  let dir := now.stamp l.dropLast now.clock
  { dir with
    items := eraseSorted l dir.items
    ascending := pairwise_eraseSorted l dir.ascending }

/-- The file system that holds the directories down to a working directory and nothing else. -/
def fresh (working : Location) (clock : Int) : FileSystem :=
  let dirs := (List.range (working.length + 1)).map fun n => working.take n
  dirs.foldl (fun fs l => fs.put l ⟨.directory, clock⟩) ⟨[], working, clock, .nil⟩

/-! ## What a change does to the view -/

/-- An item is seen at its own location and at no other. -/
theorem itemAt?_put (fs : FileSystem) (l other : Location) (item : Item) :
    (fs.put l item).itemAt? other = if l = other then some item else fs.itemAt? other :=
  getSorted?_putSorted l other item fs.items

/-- A time changes no entry. -/
theorem entryAt?_stamp (fs : FileSystem) (l other : Location) (time : Int) :
    (fs.stamp l time).entryAt? other = fs.entryAt? other := by
  simp only [stamp]
  split
  · rename_i item h
    simp only [entryAt?, itemAt?_put]
    split
    · rename_i e; subst e; simp [h]
    · rfl
  · rfl

/-- A change is seen at its own location and at no other. -/
theorem entryAt?_change (fs : FileSystem) (l other : Location) (entry : Entry) :
    (fs.change l entry).entryAt? other = if l = other then some entry else fs.entryAt? other := by
  have hd : (if (fs.entryAt? l).isNone then fs.tick.stamp l.dropLast fs.tick.clock
      else fs.tick).entryAt? other = fs.entryAt? other := by
    split
    · rw [entryAt?_stamp]; rfl
    · rfl
  simp only [change]
  rw [entryAt?, itemAt?_put]
  split
  · rfl
  · exact hd

/-- An erased item is seen no more, every other entry as before. -/
theorem entryAt?_erase (fs : FileSystem) (l other : Location) :
    (fs.erase l).entryAt? other = if l = other then none else fs.entryAt? other := by
  have h := entryAt?_stamp fs.tick l.dropLast other fs.tick.clock
  simp only [erase, entryAt?, itemAt?] at h ⊢
  rw [getSorted?_eraseSorted]
  split
  · rfl
  · exact h

end FileSystem

end ComponentStories
