import ComponentStories.FileSystem.Access

/-
# The files below a directory

The walk goes into every directory below a path, siblings in ascending order of their names.  Links
are followed: one that leads nowhere, or back into a directory that the walk is in, is passed over.
-/

namespace ComponentStories.FileSystem

/-- The paths of the files below a directory.  `inside` are the directories
that the walk is in above it. -/
def filesFrom (fs : FileSystem) : Nat → List Location → Location → String → List String
  | 0, _, _, _ => []
  | fuel + 1, inside, dir, path =>
    (fs.children dir).flatMap fun name =>
      let path := Path.join path name
      match fs.entryAt? (dir ++ [name]) with
      | some (.file _) => [path]
      | some .directory => filesFrom fs fuel (dir :: inside) (dir ++ [name]) path
      | some (.link _) =>
        match fs.locate path with
        | .error _ => []
        | .ok l =>
          match fs.entryAt? l with
          | some (.file _) => [path]
          | some .directory =>
            if (dir :: inside).contains l then [] else filesFrom fs fuel (dir :: inside) l path
          | _ => []
      | none => []

/-- A bound on the length of a walk.  Between two links a walk goes down, and no two links on it
lead to the same directory. -/
def walkFuel (fs : FileSystem) : Nat := (fs.items.length + 2) * (fs.items.length + 2)

/-- The paths of the files below a directory, in the order of the walk; none below anything else.  A
path that is too long to stand for a file is passed over. -/
def filesBelow (fs : FileSystem) (path : String) : List String :=
  match fs.locate path with
  | .ok l =>
    if fs.isDirectory path then (fs.filesFrom fs.walkFuel [] l path).filter fs.isFile else []
  | .error _ => []

end ComponentStories.FileSystem
