import ComponentStories.Proofs.FileSystem.Tree

/-
# Paths of the same parts

A path leads to at most one directory (`LeadsTo.unique`), and which one depends only on its parts:
pieces that lead nowhere do not count.  So names that are joined to paths give paths of the same
parts only if they are the same name in the same directory (`LeadsTo.eq_of_parts_join`).
-/

namespace ComponentStories

open ComponentStories.Path

/-! ## Pieces that count -/

namespace Path

/-- The pieces of a path that lead somewhere. -/
def steps (path : String) : List (List Char) :=
  (Text.splitAt '/' path.toList).filter fun p => !isStay p

theorem ofPiece_injective : Function.Injective Part.ofPiece := by
  intro a b h
  rw [Part.ofPiece, Part.ofPiece] at h
  split at h <;> split at h
  · rw [‹a = _›, ‹b = _›]
  · exact absurd h (by simp)
  · exact absurd h (by simp)
  · exact String.ofList_injective (Part.name.inj h)

theorem leadParts_injective : Function.Injective leadParts := by
  intro a b h
  cases a <;> cases b <;> first
    | rfl
    | exact absurd h (by decide)

/-- A path is split into the pieces of its beginning and those behind it. -/
theorem splitAt_eq_layout (path : String) :
    Text.splitAt '/' path.toList = leadPieces (layout path).1 ++ (layout path).2 := by
  rw [layout]
  split
  · assumption
  · assumption
  · rfl

/-- The parts of a path are that of its beginning and those of the pieces that lead somewhere. -/
theorem parts_eq (path : String) :
    parts path = leadParts (layout path).1 ++ (steps path).map Part.ofPiece := by
  have hlead : (leadPieces (layout path).1).filter (fun p => !isStay p) = [] := by
    cases (layout path).1 <;> rfl
  rw [steps, splitAt_eq_layout, List.filter_append, hlead]
  rfl

/-- **The file name of a path is its last piece that leads somewhere**, if that does not lead up. -/
theorem fileName?_eq_some_iff {path name : String} : fileName? path = some name ↔
    (∃ init, steps path = init ++ [name.toList]) ∧ name ≠ ".." := by
  rw [fileName?, parts_eq]
  rcases List.eq_nil_or_concat' (steps path) with hsteps | ⟨init, last, hsteps⟩
  · rw [hsteps]
    constructor
    · intro h
      cases hlead : (layout path).1 <;> rw [hlead] at h <;> simp [leadParts, Part.name?] at h
    · rintro ⟨⟨init, h⟩, -⟩
      exact absurd h.symm (List.concat_ne_nil _ _)
  rw [hsteps, List.map_append, ← List.append_assoc, List.map_singleton, List.getLast?_concat,
    Option.bind_some, Part.ofPiece]
  have hup : name.toList = ['.', '.'] ↔ name = ".." := @String.toList_inj name ".."
  constructor
  · intro h
    split at h
    · cases h
    · rename_i hlast
      obtain rfl : String.ofList last = name := Option.some.inj h
      rw [ne_eq, ← hup, String.toList_ofList]
      exact ⟨⟨init, rfl⟩, hlast⟩
  · rintro ⟨⟨_, h⟩, hname⟩
    obtain ⟨-, rfl⟩ := List.append_singleton_inj.mp h
    rw [if_neg (mt hup.mp hname), String.ofList_toList]
    rfl

/-- A path begins with a slash if its beginning is the root. -/
theorem isAbsolute_eq (path : String) : isAbsolute path = decide ((layout path).1 = .root) := by
  have htext := @Text.join_splitAt '/' path.toList
  rw [isAbsolute, layout]
  split
  · rename_i piece pieces h
    rw [h] at htext
    rw [← htext]
    rfl
  · rename_i pieces h
    rw [h] at htext
    rw [← htext]
    cases pieces <;> rfl
  · rename_i hroot hhere
    cases hsplit : Text.splitAt '/' path.toList with
    | nil => exact absurd hsplit (Text.splitAt_ne_nil _)
    | cons first rest =>
      rw [hsplit] at htext
      have hslash : '/' ∉ first := by
        refine Text.notMem_of_mem_splitAt (s := path.toList) ?_
        rw [hsplit]
        exact List.mem_cons_self
      have hhead : path.toList.head? ≠ some '/' := by
        rw [← htext]
        cases first with
        | nil =>
          cases rest with
          | nil => simp [Text.join]
          | cons piece pieces => exact absurd hsplit (hroot piece pieces)
        | cons c s =>
          have hc : c ≠ '/' := fun heq => hslash (by rw [heq]; exact List.mem_cons_self)
          cases rest <;> simpa [Text.join] using hc
      simpa using hhead

/-- The part of the beginning is told from the parts of a path. -/
theorem filter_parts (path : String) :
    (parts path).filter (fun part => part == .root || part == .here) =
      leadParts (layout path).1 := by
  have hsteps : ((steps path).map Part.ofPiece).filter
      (fun part => part == .root || part == .here) = [] := by
    rw [List.filter_eq_nil_iff]
    intro part hpart
    obtain ⟨piece, -, rfl⟩ := List.mem_map.mp hpart
    rw [Part.ofPiece]
    split <;> simp
  rw [parts_eq, List.filter_append, hsteps, List.append_nil]
  cases (layout path).1 <;> rfl

/-- Paths of the same parts begin alike and have the same pieces that lead somewhere. -/
theorem steps_eq_of_parts_eq {p q : String} (h : parts p = parts q) :
    isAbsolute p = isAbsolute q ∧ steps p = steps q := by
  have hlead : leadParts (layout p).1 = leadParts (layout q).1 := by
    rw [← filter_parts, ← filter_parts, h]
  rw [parts_eq, parts_eq, hlead, List.append_cancel_left_eq,
    List.map_inj_right fun _ _ heq => ofPiece_injective heq] at h
  exact ⟨by rw [isAbsolute_eq, isAbsolute_eq, leadParts_injective hlead], h⟩

variable {path piece : String}

/-- A piece that leads somewhere is one more of them when it is joined to a path. -/
theorem steps_join_of_piece (path : String) (h : IsPiece piece)
    (hstay : isStay piece.toList = false) :
    steps (join path piece) = steps path ++ [piece.toList] := by
  rw [steps, splitAt_join path h, List.filter_append, steps]
  congr 1
  · rcases splitAt_eq_stem path with hsplit | hsplit
    · rw [hsplit, List.filter_append]
      exact (List.append_nil _).symm
    · rw [hsplit]
  · simp [hstay]

theorem steps_join (path : String) {name : String} (h : IsName name) :
    steps (join path name) = steps path ++ [name.toList] :=
  steps_join_of_piece path h.isPiece h.isStay

/-- A text of three characters or more without a slash is a piece that leads down. -/
theorem isPiece_of_length (hlength : 2 < piece.length) (hslash : '/' ∉ piece.toList) :
    IsPiece piece ∧ isStay piece.toList = false ∧ piece ≠ ".." := by
  have hlong : ∀ s : String, s.length ≤ 2 → piece ≠ s := by
    rintro _ hs rfl
    omega
  refine ⟨⟨hlong "" (by decide), hslash⟩, ?_, hlong ".." (by decide)⟩
  rw [isStay, Bool.or_eq_false_iff, beq_eq_false_iff_ne, beq_eq_false_iff_ne]
  exact ⟨fun h => hlong "" (by decide) (String.toList_inj.mp h),
    fun h => hlong "." (by decide) (String.toList_inj.mp h)⟩

/-- A path that begins neither at the root nor with a `.` does so with its pieces only. -/
theorem layout_eq_plain {first : List Char} {rest : List (List Char)}
    (h : Text.splitAt '/' path.toList = first :: rest) (hstay : isStay first = false) :
    (layout path).1 = .plain := by
  rw [isStay, Bool.or_eq_false_iff, beq_eq_false_iff_ne, beq_eq_false_iff_ne] at hstay
  rw [layout, h]
  split
  · rename_i heq
    exact absurd (List.cons.inj heq).1 hstay.1
  · rename_i heq
    exact absurd (List.cons.inj heq).1 hstay.2
  · rfl

/-- A path begins as before when a piece that leads somewhere is joined to it. -/
theorem layout_join_fst (path : String) (h : IsPiece piece) (hstay : isStay piece.toList = false) :
    (layout (join path piece)).1 = (layout path).1 := by
  have hsplit := splitAt_join path h
  cases hstem : stem path with
  | nil =>
    obtain rfl := stem_eq_nil_iff.mp hstem
    rw [hstem] at hsplit
    exact layout_eq_plain hsplit hstay
  | cons first rest =>
    rw [hstem] at hsplit
    obtain ⟨more, hpath⟩ : ∃ more, Text.splitAt '/' path.toList = first :: more := by
      rcases splitAt_eq_stem path with hcase | hcase
      · exact ⟨rest ++ [[]], by rw [hcase, hstem]; rfl⟩
      · exact ⟨rest, by rw [hcase, hstem]⟩
    by_cases hroot : first = []
    · subst hroot
      have hmore : more ≠ [] := by
        rintro rfl
        rw [stem, hpath] at hstem
        exact absurd hstem (by simp)
      obtain ⟨second, more, rfl⟩ := List.exists_cons_of_ne_nil hmore
      rw [layout, layout, hsplit, hpath]
      cases rest <;> rfl
    by_cases hhere : first = ['.']
    · subst hhere
      rw [layout, layout, hsplit, hpath]
      rfl
    · have hplain : isStay first = false := by simp [isStay, hroot, hhere]
      rw [layout_eq_plain hsplit hplain, layout_eq_plain hpath hplain]

/-- A piece that leads down is the last part of a path that it is joined to. -/
theorem parts_join (path : String) (h : IsPiece piece) (hstay : isStay piece.toList = false)
    (hup : piece ≠ "..") : parts (join path piece) = parts path ++ [.name piece] := by
  have hpart : Part.ofPiece piece.toList = .name piece := by
    have hup' : piece.toList ≠ ['.', '.'] := fun heq => hup (String.toList_inj.mp heq)
    rw [Part.ofPiece, if_neg hup', String.ofList_toList]
  rw [parts_eq, parts_eq, layout_join_fst path h hstay, steps_join_of_piece path h hstay,
    List.map_append, List.map_singleton, hpart, List.append_assoc]

end Path

/-! ## Where paths of the same parts lead -/

namespace FileSystem

variable {fs : FileSystem} {l d e : Location} {ps : List String}

/-- Pieces lead to at most one directory. -/
theorem Leads.unique (h : fs.Leads l ps d) (h' : fs.Leads l ps e) : d = e := by
  induction ps generalizing l with
  | nil => exact h.2.symm.trans h'.2
  | cons piece rest ih =>
    obtain ⟨-, h⟩ := h
    obtain ⟨-, h'⟩ := h'
    split at h
    · rw [if_pos ‹_›] at h'
      exact ih h h'
    rw [if_neg ‹_›] at h'
    split at h
    · rw [if_pos ‹_›] at h'
      exact ih h h'
    · rw [if_neg ‹_›] at h'
      exact ih h.2 h'.2

/-- A path leads to at most one directory. -/
theorem LeadsTo.unique {path : String} (h : fs.LeadsTo path d) (h' : fs.LeadsTo path e) : d = e :=
  Leads.unique h h'

/-- Only the pieces that lead somewhere count. -/
theorem leads_filter {pieces : List (List Char)} :
    fs.Leads l (pieces.map String.ofList) d ↔
      fs.Leads l ((pieces.filter fun p => !isStay p).map String.ofList) d := by
  induction pieces generalizing l with
  | nil => exact Iff.rfl
  | cons piece rest ih =>
    by_cases hstay : isStay piece = true
    · rw [List.filter_cons_of_neg (by simp [hstay])]
      have hnowhere : String.ofList piece = "" ∨ String.ofList piece = "." := by
        rw [isStay, Bool.or_eq_true, beq_iff_eq, beq_iff_eq] at hstay
        rcases hstay with rfl | rfl
        · exact Or.inl rfl
        · exact Or.inr rfl
      rw [List.map_cons, leads_cons, if_pos hnowhere, ih, and_iff_right_iff_imp]
      exact Leads.directory_left
    · rw [List.filter_cons_of_pos (by simp [hstay]), List.map_cons, List.map_cons, leads_cons,
        leads_cons]
      simp only [ih]

/-- Where a path leads is where its pieces lead that lead somewhere. -/
theorem leadsTo_iff_leads_steps {path : String} :
    fs.LeadsTo path d ↔ fs.Leads (start path fs.working) ((steps path).map String.ofList) d :=
  leads_filter

/-- **Names that are joined to paths of directories give paths of the same parts only if they are
the same name in the same directory.** -/
theorem LeadsTo.eq_of_parts_join {p q n m : String} (hp : fs.LeadsTo p d) (hq : fs.LeadsTo q e)
    (hn : IsName n) (hm : IsName m) (h : parts (join p n) = parts (join q m)) : d = e ∧ n = m := by
  obtain ⟨habs, hsteps⟩ := steps_eq_of_parts_eq h
  rw [isAbsolute_join p hn.isPiece, isAbsolute_join q hm.isPiece] at habs
  rw [steps_join p hn, steps_join q hm] at hsteps
  obtain ⟨hinit, hlast⟩ := List.append_singleton_inj.mp hsteps
  rw [leadsTo_iff_leads_steps, start, habs, hinit] at hp
  exact ⟨hp.unique (leadsTo_iff_leads_steps.mp hq), String.toList_inj.mp hlast⟩

end FileSystem

end ComponentStories
