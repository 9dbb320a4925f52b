import ComponentStories.FileName
import ComponentStories.Text.Utf8

/-
# File names as bytes

A path is a row of bytes of which not every one has to belong to a character.  The name at its end
is cut out between the slashes, and only then read as a text.  The name of the component is what
stands in front of the last bytes of the name, as many as the suffix has, if the name can be divided
there.
-/

namespace ComponentStories

/-! ## The name at the end -/

namespace Path

/-- The byte of a slash. -/
def slashByte : UInt8 := '/'.toNat.toUInt8

/-- The byte of a dot. -/
def dotByte : UInt8 := '.'.toNat.toUInt8

/-- Whether the bytes of a piece lead nowhere. -/
def isStayBytes (piece : List UInt8) : Bool := piece == [] || piece == [dotByte]

/-- The bytes of the name at the end of a path: the last piece that leads
somewhere; none if it leads up. -/
def fileNameBytes? (path : List UInt8) : Option (List UInt8) :=
  (((path.splitOn slashByte).filter fun p => !isStayBytes p).getLast?).filter
    (· ≠ [dotByte, dotByte])

end Path

/-! ## The name of the component -/

namespace FileName

/-- How many bytes the suffix of definitions has. -/
def suffixSize : Nat := (String.ofList componentSuffix).utf8ByteSize

/-- The machine name that stands in a name.  A name has none if it is no text, if it is not longer
than the suffix, or if it cannot be divided in front of the last bytes. -/
def stemOf (name : List UInt8) : Except Utf8.DivideError (Option String) :=
  if (Utf8.decode? name).isNone || decide (name.length ≤ suffixSize) ||
      !Utf8.isBoundary name (name.length - suffixSize) then .ok none
  else (Utf8.divide name (name.length - suffixSize)).map fun (stem, suffix) =>
    if suffix.toList.map Char.toLower = componentSuffix then some stem else none

/-- The name of the component that a path in bytes defines. -/
def machineNameOf (path : List UInt8) : Except Utf8.DivideError (Option String) :=
  match Path.fileNameBytes? path with
  | none => .ok none
  | some name => stemOf name

end FileName

end ComponentStories
