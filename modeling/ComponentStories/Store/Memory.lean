import ComponentStories.Store

/-
# Stores in memory

A store in memory keeps texts by the parts of their paths, in ascending order, so two spellings of
one path name the same text.  Some paths may be out of order: writing there fails and leaves what
was there.
-/

namespace ComponentStories

/-- A text and the path that it was first written to. -/
structure StoredText where
  /-- The path as it was first spelled. -/
  path : String
  /-- The text. -/
  text : String
  deriving DecidableEq, Repr

/-- Texts by the parts of their paths. -/
@[ext]
structure MemoryStore where
  /-- The texts. -/
  files : List (List Path.Part × StoredText)
  /-- The paths where writing fails. -/
  failing : List (List Path.Part)
  /-- The paths of the texts are in ascending order. -/
  ascending : (files.map Prod.fst).Pairwise (· < ·)

namespace MemoryStore

/-- The store without texts. -/
def empty : MemoryStore := ⟨[], [], .nil⟩

/-- The text at a path with its first spelling. -/
def file? (m : MemoryStore) (path : String) : Option StoredText :=
  getSorted? (Path.parts path) m.files

/-- The text at a path. -/
def text? (m : MemoryStore) (path : String) : Option String := (m.file? path).map StoredText.text

/-- Whether a text is at a path. -/
def holds (m : MemoryStore) (path : String) : Bool := (m.file? path).isSome

/-- The store with a text at a path. -/
def put (m : MemoryStore) (path text : String) : MemoryStore :=
  let spelled := ((m.file? path).map StoredText.path).getD path
  { m with
    files := putSorted (Path.parts path) ⟨spelled, text⟩ m.files
    ascending := pairwise_putSorted (Path.parts path) ⟨spelled, text⟩ m.ascending }

/-- The store without the text at a path. -/
def erase (m : MemoryStore) (path : String) : MemoryStore :=
  { m with
    files := eraseSorted (Path.parts path) m.files
    ascending := pairwise_eraseSorted (Path.parts path) m.ascending }

/-- The store where writing fails at some paths and nowhere else. -/
def failAt (m : MemoryStore) (paths : List String) : MemoryStore :=
  { m with failing := paths.map Path.parts }

/-- Whether writing fails at a path. -/
def failsAt (m : MemoryStore) (path : String) : Bool := m.failing.contains (Path.parts path)

/-- Writes a text unless writing fails at its path. -/
def write (m : MemoryStore) (path text : String) : Except IoError Unit × MemoryStore :=
  if m.failsAt path then (.error .diskFull, m) else (.ok (), m.put path text)

instance : Store MemoryStore where
  holds := holds
  write := write

theorem text?_put (m : MemoryStore) (path other text : String) :
    (m.put path text).text? other =
      if Path.parts path = Path.parts other then some text else m.text? other := by
  simp only [text?, file?, put, getSorted?_putSorted]
  split <;> rfl

end MemoryStore

end ComponentStories
