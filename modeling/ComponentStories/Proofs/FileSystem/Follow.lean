import ComponentStories.FileSystem.Resolve
import Mathlib.Logic.Basic

/-
# Following a path piece by piece

A piece of a path stays in the directory, leads to the one above, or is a name that is looked up
there (`followWith_cons_eq_ok_iff`, `followName_eq_ok_iff`).  A path that leads to a place in one
file system leads to a place in another one if directories stay directories and every name leads on
(`CarriesOver.resolve`).  So what a change of a file system does to a path is told by what it does
to one name.
-/

namespace ComponentStories.FileSystem

variable {fs fs' : FileSystem} {purpose purpose' : Purpose} {place place' : Place} {l : Location}
  {piece n : String} {rest ps : List String} {entry : Entry} {target : String}
  {jump : Location → String → List String → Except IoError Place}

/-! ## One piece -/

/-- A piece is a name that is looked up in the directory. -/
structure LeadsDown (purpose : Purpose) (piece : String) (rest : List String) : Prop where
  /-- It does not stay in the directory. -/
  stay : ¬ (piece = "" ∨ piece = ".")
  /-- It does not lead to the directory above. -/
  up : piece ≠ ".."
  /-- No slashes are behind it if a file is to be created. -/
  slash : ¬ (purpose = .create ∧ rest ≠ [] ∧ rest.all (· = "") = true)
  /-- It is not too long. -/
  size : piece.utf8ByteSize ≤ nameLimit

theorem LeadsDown.of_ne_create (h : LeadsDown purpose piece rest) (hpurpose : purpose' ≠ .create)
    (rest' : List String) : LeadsDown purpose' piece rest' :=
  ⟨h.stay, h.up, fun hcreate => hpurpose hcreate.1, h.size⟩

/-- Where a name in a directory leads, with the pieces behind it. -/
def followName (fs : FileSystem) (purpose : Purpose)
    (jump : Location → String → List String → Except IoError Place) (l : Location) (n : String)
    (rest : List String) : Except IoError Place :=
  match fs.entryAt? (l ++ [n]) with
  | none => if rest.isEmpty then .ok (.free (l ++ [n])) else .error .notFound
  | some (.link target) =>
    if rest.isEmpty ∧ purpose = .entry then .ok (.taken (l ++ [n])) else jump l target rest
  | some _ => followWith fs purpose jump (l ++ [n]) rest

theorem followWith_stay (hl : fs.entryAt? l = some .directory) (hpiece : piece = "" ∨ piece = ".") :
    followWith fs purpose jump l (piece :: rest) = followWith fs purpose jump l rest := by
  rw [followWith, if_neg (not_not_intro hl), if_pos hpiece]

theorem followWith_up (hl : fs.entryAt? l = some .directory) :
    followWith fs purpose jump l (".." :: rest) = followWith fs purpose jump l.dropLast rest := by
  rw [followWith, if_neg (not_not_intro hl), if_neg (by decide), if_pos rfl]

/-- A piece that is a name. -/
theorem followWith_down (hl : fs.entryAt? l = some .directory) (h : LeadsDown purpose piece rest) :
    followWith fs purpose jump l (piece :: rest) = followName fs purpose jump l piece rest := by
  rw [followWith, if_neg (not_not_intro hl), if_neg h.stay, if_neg h.up, if_neg h.slash,
    if_neg (Nat.not_lt.mpr h.size)]
  rfl

/-- **How a piece leads to a place**: it is followed in a directory, and stays there, leads to
the one above or is a name. -/
theorem followWith_cons_eq_ok_iff :
    followWith fs purpose jump l (piece :: rest) = .ok place ↔
      fs.entryAt? l = some .directory ∧
        ((piece = "" ∨ piece = ".") ∧ followWith fs purpose jump l rest = .ok place ∨
          piece = ".." ∧ followWith fs purpose jump l.dropLast rest = .ok place ∨
          LeadsDown purpose piece rest ∧ followName fs purpose jump l piece rest = .ok place) := by
  constructor
  · intro h
    rw [followWith] at h
    split at h
    · exact absurd h (by simp)
    refine ⟨not_not.mp ‹_›, ?_⟩
    split at h
    · exact Or.inl ⟨‹_›, h⟩
    split at h
    · exact Or.inr (Or.inl ⟨‹_›, h⟩)
    split at h
    · exact absurd h (by simp)
    split at h
    · exact absurd h (by simp)
    exact Or.inr (Or.inr ⟨⟨‹_›, ‹_›, ‹_›, Nat.not_lt.mp ‹_›⟩, h⟩)
  · rintro ⟨hl, ⟨hstay, h⟩ | ⟨rfl, h⟩ | ⟨hdown, h⟩⟩
    · rwa [followWith_stay hl hstay]
    · rwa [followWith_up hl]
    · rwa [followWith_down hl hdown]

/-- A link is followed, unless it is at the end and asked for. -/
theorem followName_link (h : fs.entryAt? (l ++ [n]) = some (.link target))
    (hend : ¬ (rest = [] ∧ purpose = .entry)) :
    followName fs purpose jump l n rest = jump l target rest := by
  rw [followName, h]
  exact if_neg fun hend' => hend ⟨List.isEmpty_iff.mp hend'.1, hend'.2⟩

/-- Another entry is where the pieces behind it are followed. -/
theorem followName_entry (h : fs.entryAt? (l ++ [n]) = some entry)
    (hlink : ∀ target, entry ≠ .link target) :
    followName fs purpose jump l n rest = followWith fs purpose jump (l ++ [n]) rest := by
  rw [followName, h]
  cases entry with
  | file content => rfl
  | directory => rfl
  | link target => exact absurd rfl (hlink target)

/-- **How a name leads to a place**: it is free and the last one, or a link
has it, or another entry. -/
theorem followName_eq_ok_iff :
    followName fs purpose jump l n rest = .ok place ↔
      (fs.entryAt? (l ++ [n]) = none ∧ rest = [] ∧ place = .free (l ++ [n])) ∨
      (∃ target, fs.entryAt? (l ++ [n]) = some (.link target) ∧
        if rest = [] ∧ purpose = .entry then place = .taken (l ++ [n])
        else jump l target rest = .ok place) ∨
      ∃ entry, fs.entryAt? (l ++ [n]) = some entry ∧ (∀ target, entry ≠ .link target) ∧
        followWith fs purpose jump (l ++ [n]) rest = .ok place := by
  rw [followName]
  cases h : fs.entryAt? (l ++ [n]) with
  | none => cases rest <;> simp [eq_comm]
  | some entry =>
    cases entry with
    | file content => simp
    | directory => simp
    | link target =>
      simp only [List.isEmpty_iff]
      by_cases hend : rest = [] ∧ purpose = .entry
      · simp [hend, eq_comm]
      · simp [hend]

/-! ## Paths in two file systems -/

/-- Names that lead to a place in one file system lead to a place in another one. -/
structure CarriesOver (fs fs' : FileSystem) (purpose purpose' : Purpose) (place place' : Place) :
    Prop where
  /-- A directory is one there, too. -/
  directory : ∀ l, fs.entryAt? l = some .directory → fs'.entryAt? l = some .directory
  /-- A file is created there only if one is here. -/
  create : purpose' = .create → purpose = .create
  /-- The place at the end is the place there. -/
  done : ∀ l, place = .taken l → place' = .taken l
  /-- A name leads on there if links and the pieces behind it do. -/
  name : ∀ {jump jump' : Location → String → List String → Except IoError Place}
    (l : Location) (n : String) (rest : List String),
    (∀ l target rest, jump l target rest = .ok place → jump' l target rest = .ok place') →
    (fs.followWith purpose jump (l ++ [n]) rest = .ok place →
      fs'.followWith purpose' jump' (l ++ [n]) rest = .ok place') →
    fs.followName purpose jump l n rest = .ok place →
      fs'.followName purpose' jump' l n rest = .ok place'

/-- Pieces lead on if names do. -/
theorem CarriesOver.followWith (h : CarriesOver fs fs' purpose purpose' place place')
    {jump' : Location → String → List String → Except IoError Place}
    (hjump : ∀ l target rest, jump l target rest = .ok place → jump' l target rest = .ok place')
    (hfollow : fs.followWith purpose jump l ps = .ok place) :
    fs'.followWith purpose' jump' l ps = .ok place' := by
  induction ps generalizing l with
  | nil =>
    rw [FileSystem.followWith] at hfollow ⊢
    rw [h.done l (Except.ok.inj hfollow).symm]
  | cons piece rest ih =>
    rw [followWith_cons_eq_ok_iff] at hfollow ⊢
    obtain ⟨hl, ⟨hstay, hrest⟩ | ⟨hup, hrest⟩ | ⟨hdown, hname⟩⟩ := hfollow
    · exact ⟨h.directory l hl, Or.inl ⟨hstay, ih hrest⟩⟩
    · exact ⟨h.directory l hl, Or.inr (Or.inl ⟨hup, ih hrest⟩)⟩
    · have hdown' : LeadsDown purpose' piece rest :=
        ⟨hdown.stay, hdown.up, fun hend => hdown.slash ⟨h.create hend.1, hend.2⟩, hdown.size⟩
      exact ⟨h.directory l hl, Or.inr (Or.inr ⟨hdown', h.name l piece rest hjump ih hname⟩)⟩

/-- So do pieces with links on the way. -/
theorem CarriesOver.follow (h : CarriesOver fs fs' purpose purpose' place place') {n : Nat}
    (hfollow : fs.follow purpose n l ps = .ok place) : fs'.follow purpose' n l ps = .ok place' := by
  induction n generalizing l ps with
  | zero => exact h.followWith (fun _ _ _ hlink => absurd hlink (by simp)) hfollow
  | succ n ih => exact h.followWith (fun _ _ _ => ih) hfollow

/-- **A path leads to a place in another file system if names lead on there.** -/
theorem CarriesOver.resolve (h : CarriesOver fs fs' purpose purpose' place place')
    (hworking : fs'.working = fs.working) {path : String}
    (hresolve : fs.resolve purpose path = .ok place) : fs'.resolve purpose' path = .ok place' := by
  rw [FileSystem.resolve] at hresolve ⊢
  split at hresolve
  · exact absurd hresolve (by simp)
  · rw [hworking]
    exact h.follow hresolve

end ComponentStories.FileSystem
