import ComponentStories.FileSystem.Basic
import ComponentStories.Path

/-
# Where paths lead

A path is followed piece by piece from the working directory or, if it begins with a slash, from the
root.  Every piece is looked up in a directory; `..` leads to the directory above; a link is
replaced by the pieces of its target, at most `linkLimit` times.
-/

namespace ComponentStories

/-- What is asked for at the end of a path. -/
inductive Purpose
  /-- What the path stands for; a link at its end is followed. -/
  | reach
  /-- A file that may be created; a link at its end is followed. -/
  | create
  /-- The entry itself; a link at its end is not followed. -/
  | entry
  deriving DecidableEq, Repr

/-- Where a path leads. -/
inductive Place
  /-- To an entry. -/
  | taken (l : Location)
  /-- To a name that is free in a directory. -/
  | free (l : Location)
  deriving DecidableEq, Repr

namespace FileSystem

/-- How many links may be followed on the way. -/
def linkLimit : Nat := 40

/-- How many bytes a name may have. -/
def nameLimit : Nat := 255

/-- How many bytes a path may have. -/
def pathLimit : Nat := 4095

/-- The pieces of a path, empty ones included. -/
def pieces (path : String) : List String :=
  (Text.splitAt '/' path.toList).map String.ofList

/-- Where pieces lead from a location; `jump` says it for the target of a link
and the pieces behind it. -/
def followWith (fs : FileSystem) (purpose : Purpose)
    (jump : Location → String → List String → Except IoError Place) :
    Location → List String → Except IoError Place
  | l, [] => .ok (.taken l)
  | l, piece :: rest =>
    if fs.entryAt? l ≠ some .directory then .error .notDirectory
    else if piece = "" ∨ piece = "." then followWith fs purpose jump l rest
    else if piece = ".." then followWith fs purpose jump l.dropLast rest
    else if purpose = .create ∧ rest ≠ [] ∧ rest.all (· = "") then .error .isDirectory
    else if nameLimit < piece.utf8ByteSize then .error .nameTooLong
    else
      match fs.entryAt? (l ++ [piece]) with
      | none => if rest.isEmpty then .ok (.free (l ++ [piece])) else .error .notFound
      | some (.link target) =>
        if rest.isEmpty ∧ purpose = .entry then .ok (.taken (l ++ [piece]))
        else jump l target rest
      | some _ => followWith fs purpose jump (l ++ [piece]) rest

/-- Where a path leads that is followed from a location. -/
def start (path : String) (l : Location) : Location := if Path.isAbsolute path then [] else l

/-- Where pieces lead from a location when a number of links may be followed. -/
def follow (fs : FileSystem) (purpose : Purpose) :
    Nat → Location → List String → Except IoError Place
  | 0 => followWith fs purpose fun _ _ _ => .error .tooManyLinks
  | n + 1 => followWith fs purpose fun l target rest =>
      follow fs purpose n (start target l) (pieces target ++ rest)

/-- Why a text is no path, if it is none. -/
@[irreducible] def pathFault? (path : String) : Option IoError :=
  if path.toList.contains '\x00' then some .nulInPath
  else if path.isEmpty then some .notFound
  else if pathLimit < path.utf8ByteSize then some .nameTooLong
  else none

/-- Where a path leads. -/
def resolve (fs : FileSystem) (purpose : Purpose) (path : String) : Except IoError Place :=
  match pathFault? path with
  | some e => .error e
  | none => fs.follow purpose linkLimit (start path fs.working) (pieces path)

/-- The location that a path stands for. -/
def locate (fs : FileSystem) (path : String) : Except IoError Location :=
  match fs.resolve .reach path with
  | .ok (.taken l) => .ok l
  | .ok (.free _) => .error .notFound
  | .error e => .error e

/-- The item that a path stands for. -/
def item (fs : FileSystem) (path : String) : Except IoError Item :=
  match fs.locate path with
  | .ok l =>
    match fs.itemAt? l with
    | some i => .ok i
    | none => .error .notFound
  | .error e => .error e

end FileSystem

end ComponentStories
