import ComponentStories.FileSystem.Resolve

/-
# Reading and writing by path

Questions about what a path stands for, reading, and the changes that a path can name.  A change
that fails leaves the file system as it was, except that directories made on the way to it stay.
-/

namespace ComponentStories.FileSystem

/-! ## Questions -/

/-- Whether a path stands for an entry. -/
def holds (fs : FileSystem) (path : String) : Bool := (fs.item path).isOk

/-- Whether a path stands for a file. -/
def isFile (fs : FileSystem) (path : String) : Bool :=
  match fs.item path with
  | .ok ⟨.file _, _⟩ => true
  | _ => false

/-- Whether a path stands for a directory. -/
def isDirectory (fs : FileSystem) (path : String) : Bool :=
  match fs.item path with
  | .ok ⟨.directory, _⟩ => true
  | _ => false

/-- The time of the last change to what a path stands for; none if nothing is there. -/
def modified (fs : FileSystem) (path : String) : Except IoError (Option Int) :=
  match fs.item path with
  | .ok i => .ok (some i.modified)
  | .error .notFound => .ok none
  | .error e => .error e

/-- The text of the file that a path stands for. -/
def readText (fs : FileSystem) (path : String) : Except IoError String :=
  match fs.item path with
  | .ok ⟨.file (.text s), _⟩ => .ok s
  | .ok ⟨.file (.binary _), _⟩ => .error .notText
  | .ok _ => .error .isDirectory
  | .error e => .error e

/-! ## Changes -/

/-- Writes a file, which may be new. -/
def writeFile (fs : FileSystem) (path : String) (content : Content) : Except IoError FileSystem :=
  match fs.resolve .create path with
  | .error e => .error e
  | .ok (.free l) => .ok (fs.change l (.file content))
  | .ok (.taken l) =>
    match fs.entryAt? l with
    | some .directory => .error .isDirectory
    | _ => .ok (fs.change l (.file content))

/-- The path without slashes at its end; a path of slashes is the root. -/
def withoutEndSlashes (path : String) : String :=
  match Text.dropEndWhile (· == '/') path.toList with
  | [] => if path.isEmpty then "" else "/"
  | s => String.ofList s

/-- Makes a directory in one that exists. -/
def makeDirectory (fs : FileSystem) (path : String) : Except IoError FileSystem :=
  match fs.resolve .entry (withoutEndSlashes path) with
  | .error e => .error e
  | .ok (.taken _) => .error .alreadyExists
  | .ok (.free l) => .ok (fs.change l .directory)

/-- Makes a directory and those above it that are missing; `paths` are the directory and the paths
above it, the nearest first. -/
def makeDirectoriesOf (fs : FileSystem) : List String → Except IoError Unit × FileSystem
  | [] => (.error .notFound, fs)
  | path :: above =>
    if path.isEmpty then (.ok (), fs)
    else
      let settle (fs : FileSystem) (e : IoError) : Except IoError Unit × FileSystem :=
        (if fs.isDirectory path then .ok () else .error e, fs)
      match fs.makeDirectory path with
      | .ok made => (.ok (), made)
      | .error .notFound =>
        match fs.makeDirectoriesOf above with
        | (.error e, fs) => (.error e, fs)
        | (.ok (), fs) =>
          match fs.makeDirectory path with
          | .ok made => (.ok (), made)
          | .error e => settle fs e
      | .error e => settle fs e

/-- Makes a directory and those above it that are missing. -/
def makeDirectories (fs : FileSystem) (path : String) : Except IoError Unit × FileSystem :=
  fs.makeDirectoriesOf (Path.ancestors path)

/-- Makes the directories above a path that are missing. -/
def makeParents (fs : FileSystem) (path : String) : Except IoError Unit × FileSystem :=
  match Path.parent? path with
  | some parent => fs.makeDirectories parent
  | none => (.ok (), fs)

/-- What a change gives for a file system, and the file system itself if it fails. -/
def attempt (change : FileSystem → Except IoError FileSystem) (fs : FileSystem) :
    Except IoError Unit × FileSystem :=
  match change fs with
  | .ok changed => (.ok (), changed)
  | .error e => (.error e, fs)

/-- A change that comes after making the directories above a path. -/
def withParents (path : String) (change : FileSystem → Except IoError FileSystem)
    (fs : FileSystem) : Except IoError Unit × FileSystem :=
  match fs.makeParents path with
  | (.error e, fs) => (.error e, fs)
  | (.ok (), fs) => attempt change fs

/-- Writes a file and makes the directories above it that are missing. -/
def write (fs : FileSystem) (path : String) (content : Content) :
    Except IoError Unit × FileSystem :=
  withParents path (fun fs => fs.writeFile path content) fs

/-- Puts a link to a target at a free place. -/
def makeLink (fs : FileSystem) (path target : String) : Except IoError FileSystem :=
  match pathFault? target with
  | some e => .error e
  | none =>
    match fs.resolve .entry path with
    | .error e => .error e
    | .ok (.taken _) => .error .alreadyExists
    | .ok (.free l) => .ok (fs.change l (.link target))

/-- Removes a file or a link. -/
def remove (fs : FileSystem) (path : String) : Except IoError FileSystem :=
  match fs.resolve .entry path with
  | .error e => .error e
  | .ok (.free _) => .error .notFound
  | .ok (.taken l) =>
    match fs.entryAt? l with
    | some .directory => .error .isDirectory
    | _ => .ok (fs.erase l)

/-- Sets the time of what a path stands for. -/
def setModified (fs : FileSystem) (path : String) (time : Int) : Except IoError FileSystem :=
  match fs.locate path with
  | .ok l => .ok (fs.stamp l time)
  | .error e => .error e

end ComponentStories.FileSystem
