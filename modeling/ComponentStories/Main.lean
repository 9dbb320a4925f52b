import ComponentStories.Command.Run
import ComponentStories.FileSystem.Listing

/-
# The program

The program is run in the directory of a site.  Its standard input is a listing of that directory,
its arguments are a command:

    find . -printf '%y\t%T@\t%p\t%l\n' | program generate-all-stories

It reads the files of the listing, runs the command, tells what was done, and writes what was
changed.
-/

namespace ComponentStories

/-- The location that stands for the directory of the site. -/
def siteLocation : Location := ["site"]

/-- The lines of a stream, without their ends. -/
partial def readLines (input : IO.FS.Stream) : IO (List String) := do
  let line ← input.getLine
  if line.isEmpty then return []
  let rest ← readLines input
  return String.ofList (Text.dropEndWhile (· == '\n') line.toList) :: rest

/-- The item of an entry of a listing, with the content of a file. -/
def readItem (e : FileSystem.Listed) : IO (Location × Item) := do
  let entry ← match e.kind with
    | .directory => pure Entry.directory
    | .link target => pure (Entry.link target)
    | .file => do
      let bytes ← IO.FS.readBinFile e.path
      pure (Entry.file (Content.ofBytes bytes.toList))
  return (FileSystem.locationBelow siteLocation e.path, ⟨entry, e.time⟩)

/-- Writes an entry that was changed. -/
def writeEntry (path : String) : Entry → IO Unit
  | .directory => IO.FS.createDirAll path
  | .file (.text s) => IO.FS.writeFile path s
  | .file (.binary bytes) => IO.FS.writeBinFile path (ByteArray.mk bytes.toArray)
  | .link _ => pure ()

/-- Runs the program with some arguments. -/
def runProgram (args : List String) : IO UInt32 := do
  let lines ← readLines (← IO.getStdin)
  let items ← (lines.filterMap FileSystem.Listed.ofLine?).mapM readItem
  let before := FileSystem.ofItems siteLocation items
  let s := session args before
  for line in s.said do
    IO.println line
  for (l, entry) in s.files.changesSince before do
    writeEntry (FileSystem.pathTo siteLocation l) entry
  IO.eprint s.report
  return UInt32.ofNat s.status

end ComponentStories

def main (args : List String) : IO UInt32 := ComponentStories.runProgram args
