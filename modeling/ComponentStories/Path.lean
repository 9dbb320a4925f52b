import ComponentStories.Text.Blank

/-
# Paths as texts

A path is a text whose pieces are divided by slashes.  Empty pieces and `.` lead nowhere and do not
count, except for a `.` at the very front.  The parts of a path are what is left; the ancestors of a
path are its own leading texts.  Nothing here looks at a file system.
-/

namespace ComponentStories.Path

/-! ## How a path begins -/

/-- How a path begins. -/
inductive Lead
  /-- With a slash: at the root of the file system. -/
  | root
  /-- With a piece `.`: at the working directory, said aloud. -/
  | here
  /-- With any other piece. -/
  | plain
  deriving DecidableEq, Repr

/-- The beginning of a path and its pieces behind it. -/
def layout (path : String) : Lead × List (List Char) :=
  match Text.splitAt '/' path.toList with
  | [] :: piece :: pieces => (.root, piece :: pieces)
  | ['.'] :: pieces => (.here, pieces)
  | pieces => (.plain, pieces)

/-- The path with a beginning and pieces. -/
def ofLayout (lead : Lead) (pieces : List (List Char)) : String :=
  match lead with
  | .root => String.ofList ('/' :: Text.join ['/'] pieces)
  | .here => String.ofList (Text.join ['/'] (['.'] :: pieces))
  | .plain => String.ofList (Text.join ['/'] pieces)

/-- Whether a piece leads nowhere. -/
def isStay (piece : List Char) : Bool := piece == [] || piece == ['.']

/-- Whether a path begins at the root of the file system. -/
def isAbsolute (path : String) : Bool := path.toList.head? == some '/'

/-! ## Parts -/

/-- A part of a path. -/
inductive Part
  /-- The root of the file system. -/
  | root
  /-- The working directory, said aloud. -/
  | here
  /-- The directory above. -/
  | up
  /-- A name. -/
  | name (s : String)
  deriving DecidableEq, Repr

namespace Part

/-- The part that a piece is. -/
def ofPiece (piece : List Char) : Part :=
  if piece = ['.', '.'] then up else name (String.ofList piece)

/-- The name, if the part is one. -/
def name? : Part → Option String
  | name s => some s
  | _ => none

/-- The place of a kind of parts among the others. -/
def rank : Part → Nat
  | root => 0
  | here => 1
  | up => 2
  | name _ => 3

/-- Whether one part comes before another: the kinds in order, names by their characters. -/
def isBefore : Part → Part → Bool
  | name a, name b => a < b
  | a, b => a.rank < b.rank

instance : LT Part := ⟨fun a b => a.isBefore b = true⟩

instance : DecidableLT Part := fun a b => inferInstanceAs (Decidable (a.isBefore b = true))

/-- The text of a name. -/
def text : Part → String
  | name s => s
  | _ => ""

/-- A part comes before another one if its kind does, or its name among those of one kind. -/
theorem lt_iff (a b : Part) : a < b ↔ a.rank < b.rank ∨ a.rank = b.rank ∧ a.text < b.text := by
  have hempty : ¬ "" < "" := String.lt_irrefl ""
  show a.isBefore b = true ↔ _
  cases a <;> cases b <;> simp [isBefore, rank, text, hempty]

theorem eq_of_rank_of_text {a b : Part} (hrank : a.rank = b.rank) (htext : a.text = b.text) :
    a = b := by
  cases a <;> cases b <;> simp_all [rank, text]

instance : Std.Asymm (α := Part) (· < ·) where
  asymm a b h h' := by
    rw [lt_iff] at h h'
    rcases h with h | ⟨hrank, h⟩
    · omega
    · rcases h' with h' | ⟨-, h'⟩
      · omega
      · exact String.lt_irrefl _ (String.lt_trans h h')

instance : Std.Trichotomous (α := Part) (· < ·) where
  trichotomous a b hab hba := by
    rw [lt_iff, not_or, not_and] at hab hba
    have hrank : a.rank = b.rank := by omega
    exact eq_of_rank_of_text hrank
      (String.le_antisymm (String.not_lt.mp (hba.2 hrank.symm)) (String.not_lt.mp (hab.2 hrank)))

instance : Trans (α := Part) (β := Part) (γ := Part) (· < ·) (· < ·) (· < ·) where
  trans {a b c} hab hbc := by
    rw [lt_iff] at hab hbc ⊢
    rcases hab with hab | ⟨hrank, hab⟩
    · exact Or.inl (by omega)
    · rcases hbc with hbc | ⟨hrank', hbc⟩
      · exact Or.inl (by omega)
      · exact Or.inr ⟨hrank.trans hrank', String.lt_trans hab hbc⟩

end Part

/-- The part of a beginning. -/
def leadParts : Lead → List Part
  | .root => [.root]
  | .here => [.here]
  | .plain => []

/-- The parts of a path, in order. -/
def parts (path : String) : List Part :=
  let (lead, pieces) := layout path
  leadParts lead ++ (pieces.filter fun p => !isStay p).map Part.ofPiece

/-- The name at the end of a path; none if it ends in another part. -/
def fileName? (path : String) : Option String := (parts path).getLast?.bind Part.name?

/-- Whether a path begins with all parts of another one. -/
def startsWith (path start : String) : Bool := (parts start).isPrefixOf (parts path)

/-! ## Ancestors -/

/-- The paths above one whose pieces are given from the last to the first. -/
def above (lead : Lead) : List (List Char) → List String
  | [] => if lead = .here then [""] else []
  | piece :: rest =>
    if isStay piece then above lead rest
    else ofLayout lead (rest.dropWhile isStay).reverse :: above lead rest

/-- The path itself and all paths above it, the nearest first. -/
def ancestors (path : String) : List String :=
  let (lead, pieces) := layout path
  path :: above lead pieces.reverse

/-- The path above. -/
def parent? (path : String) : Option String := (ancestors path).tail.head?

/-- The ancestors of a path, itself included, up to the last one that begins with `start`. -/
def ancestorsWithin (path start : String) : List String :=
  (ancestors path).takeWhile fun p => startsWith p start

/-! ## Joining -/

/-- One path behind another; an absolute one stands for itself. -/
def join (base path : String) : String :=
  if isAbsolute path then path
  else if base.isEmpty || base.toList.getLast? == some '/' then base ++ path
  else base ++ "/" ++ path

end ComponentStories.Path
