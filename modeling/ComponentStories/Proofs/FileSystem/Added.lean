import ComponentStories.Proofs.FileSystem.Change
import ComponentStories.Proofs.FileSystem.Parts

/-
# One more file

Two directory trees that are the same but for one file have the same directories, and every path
that does not stand for this file stands for the same in both (`AddsFile.standsFor_iff`).  A path
that ends in two names stands for a location that ends in them (`IsTree.exists_of_locate_join`).
-/

namespace ComponentStories.FileSystem

open ComponentStories.Path

variable {fs fs' : FileSystem} {l m : Location} {path : String} {entry : Entry}

/-! ## What paths stand for -/

/-- An entry that a path stands for, with the location where it stands. -/
def StandsFor (fs : FileSystem) (path : String) (l : Location) (entry : Entry) : Prop :=
  fs.locate path = .ok l ∧ fs.entryAt? l = some entry

theorem exists_item_eq_ok_iff :
    (∃ time, fs.item path = .ok ⟨entry, time⟩) ↔ ∃ l, fs.StandsFor path l entry := by
  simp only [item_eq_ok_iff, StandsFor, entryAt?_eq_some_iff]
  constructor
  · rintro ⟨time, l, hlocate, hitem⟩
    exact ⟨l, hlocate, time, hitem⟩
  · rintro ⟨l, hlocate, time, hitem⟩
    exact ⟨time, l, hlocate, hitem⟩

/-- A text is read where a path stands for a file that holds it. -/
theorem readText_eq_ok_iff_standsFor {s : String} :
    fs.readText path = .ok s ↔ ∃ l, fs.StandsFor path l (.file (.text s)) :=
  readText_eq_ok_iff.trans exists_item_eq_ok_iff

theorem isFile_iff_standsFor :
    fs.isFile path = true ↔ ∃ content l, fs.StandsFor path l (.file content) :=
  isFile_iff.trans (exists_congr fun _ => exists_item_eq_ok_iff)

/-- A path stands for a directory if one is where it leads. -/
theorem isDirectory_iff_standsFor :
    fs.isDirectory path = true ↔ ∃ l, fs.StandsFor path l .directory := by
  rw [← exists_item_eq_ok_iff, isDirectory]
  split
  · rename_i time h
    exact iff_of_true rfl ⟨time, h⟩
  · rename_i h
    refine iff_of_false Bool.false_ne_true ?_
    rintro ⟨time, hitem⟩
    exact h time hitem

/-! ## Paths that end in names -/

/-- Pieces and a name behind them lead to a place of that name in the
directory that the pieces lead to. -/
theorem IsTree.exists_leads_of_followWith (htree : fs.IsTree) {ps : List String} {n : String}
    {purpose : Purpose} {place : Place}
    {jump : Location → String → List String → Except IoError Place} (hstay : ¬ (n = "" ∨ n = "."))
    (hup : n ≠ "..") (h : followWith fs purpose jump l (ps ++ [n]) = .ok place) :
    ∃ d, fs.Leads l ps d ∧ n.utf8ByteSize ≤ nameLimit ∧
      place = if fs.entryAt? (d ++ [n]) = none then .free (d ++ [n]) else .taken (d ++ [n]) := by
  induction ps generalizing l with
  | nil =>
    obtain ⟨hl, ⟨hstays, -⟩ | ⟨hups, -⟩ | ⟨hdown, hname⟩⟩ := followWith_cons_eq_ok_iff.mp h
    · exact absurd hstays hstay
    · exact absurd hups hup
    refine ⟨l, ⟨hl, rfl⟩, hdown.size, ?_⟩
    rcases htree.followName_eq_ok_iff.mp hname with ⟨hnone, -, hfree⟩ | ⟨hsome, hon⟩
    · rw [if_pos hnone]
      exact hfree
    · rw [if_neg hsome]
      exact (Except.ok.inj hon).symm
  | cons piece rest ih =>
    rw [List.cons_append] at h
    simp only [leads_cons]
    obtain ⟨hl, ⟨hstays, hrest⟩ | ⟨rfl, hrest⟩ | ⟨hdown, hname⟩⟩ := followWith_cons_eq_ok_iff.mp h
    · obtain ⟨d, hd, hplace⟩ := ih hrest
      exact ⟨d, ⟨hl, by rwa [if_pos hstays]⟩, hplace⟩
    · obtain ⟨d, hd, hplace⟩ := ih hrest
      exact ⟨d, ⟨hl, by rwa [if_neg (by decide), if_pos rfl]⟩, hplace⟩
    rcases htree.followName_eq_ok_iff.mp hname with ⟨-, hend, -⟩ | ⟨-, hon⟩
    · exact absurd hend (by simp)
    · obtain ⟨d, hd, hplace⟩ := ih hon
      exact ⟨d, ⟨hl, by rw [if_neg hdown.stay, if_neg hdown.up]; exact ⟨hdown.size, hd⟩⟩, hplace⟩

/-- A file name is not empty, leads somewhere and has no slash. -/
theorem of_fileName? {name : String} (h : fileName? path = some name) :
    isStay name.toList = false ∧ '/' ∉ name.toList := by
  obtain ⟨⟨init, hsteps⟩, -⟩ := fileName?_eq_some_iff.mp h
  have hlast : name.toList ∈ steps path := by rw [hsteps]; simp
  obtain ⟨hpiece, hstay⟩ := List.mem_filter.mp hlast
  exact ⟨by simpa using hstay, Text.notMem_of_mem_splitAt hpiece⟩

/-- A path with a file name leads to a directory of this name. -/
theorem LeadsTo.exists_of_fileName? {name : String} (h : fs.LeadsTo path l)
    (hname : fileName? path = some name) : ∃ d, l = d ++ [name] := by
  obtain ⟨⟨init, hsteps⟩, hup⟩ := fileName?_eq_some_iff.mp hname
  have hnowhere : ¬ (name = "" ∨ name = ".") := by
    rintro (rfl | rfl)
    · exact absurd (of_fileName? hname).1 (by decide)
    · exact absurd (of_fileName? hname).1 (by decide)
  rw [leadsTo_iff_leads_steps, hsteps, List.map_append, leads_append] at h
  obtain ⟨d, -, hd⟩ := h
  rw [List.map_singleton, String.ofList_toList, leads_cons, if_neg hnowhere, if_neg hup] at hd
  exact ⟨d, hd.2.2.2.symm⟩

/-- **A piece that is joined to a path names a place in a directory that the path leads
to**, if that leads anywhere. -/
theorem IsTree.exists_leadsTo_of_resolve_join (htree : fs.IsTree) {purpose : Purpose}
    {place : Place}
    {n : String} (hpiece : IsPiece n) (hstay : isStay n.toList = false) (hup : n ≠ "..")
    (h : fs.resolve purpose (join path n) = .ok place) :
    pathFault? (join path n) = none ∧ ∃ d, fs.LeadsTo path d ∧ IsName n ∧
      place = if fs.entryAt? (d ++ [n]) = none then .free (d ++ [n]) else .taken (d ++ [n]) := by
  rw [resolve] at h
  split at h
  · exact absurd h (by simp)
  obtain ⟨jump, hjump⟩ := fs.exists_follow_eq purpose linkLimit
  have hpieces : pieces (join path n) = (stem path).map String.ofList ++ [n] := by
    rw [pieces, splitAt_join path hpiece, List.map_append, List.map_singleton, String.ofList_toList]
  have hstart : start (join path n) fs.working = start path fs.working := by
    rw [start, start, isAbsolute_join path hpiece]
  have hhere : n ≠ "." := by
    rintro rfl
    exact absurd hstay (by decide)
  rw [hjump, hpieces, hstart] at h
  obtain ⟨d, hleads, hsize, hplace⟩ :=
    htree.exists_leads_of_followWith (not_or.mpr ⟨hpiece.ne_empty, hhere⟩) hup h
  exact ⟨‹_›, d, leadsTo_iff_leads_stem.mpr hleads,
    ⟨hpiece.ne_empty, hhere, hup, hpiece.slash, hsize⟩, hplace⟩

/-- **A path that ends in two names stands for a location that ends in them.** -/
theorem IsTree.exists_of_locate_join (htree : fs.IsTree) {name n : String}
    (hname : fileName? path = some name) (hpiece : IsPiece n) (hstay : isStay n.toList = false)
    (hup : n ≠ "..") (h : fs.locate (join path n) = .ok m) : ∃ d, m = d ++ [name, n] := by
  rw [locate_eq_ok_iff] at h
  obtain ⟨-, d, hleads, -, hplace⟩ := htree.exists_leadsTo_of_resolve_join hpiece hstay hup h
  obtain rfl : m = d ++ [n] := by
    split at hplace
    · exact absurd hplace (by simp)
    · exact Place.taken.inj hplace
  obtain ⟨e, rfl⟩ := hleads.exists_of_fileName? hname
  exact ⟨e, by rw [List.append_assoc]; rfl⟩

/-! ## One more file -/

/-- A file system and the same with one more file. -/
structure AddsFile (fs fs' : FileSystem) (l : Location) : Prop where
  /-- The working directory is the same. -/
  working : fs'.working = fs.working
  /-- The place is free before. -/
  free : fs.entryAt? l = none
  /-- Then a file is there. -/
  file : ∃ content, fs'.entryAt? l = some (.file content)
  /-- Everything else is as before. -/
  other : ∀ m, m ≠ l → fs'.entryAt? m = fs.entryAt? m

theorem addsFile_change (hfree : fs.entryAt? l = none) (content : Content) :
    AddsFile fs (fs.change l (.file content)) l where
  working := working_change _ _ _
  free := hfree
  file := ⟨content, entryAt?_change_self _ _ _⟩
  other _ hm := entryAt?_change_of_ne _ (Ne.symm hm)

theorem AddsFile.directory_iff (h : AddsFile fs fs' l) :
    fs'.entryAt? m = some .directory ↔ fs.entryAt? m = some .directory := by
  by_cases hm : m = l
  · obtain ⟨content, hfile⟩ := h.file
    rw [hm, hfile, h.free]
    simp
  · rw [h.other m hm]

/-- **What is not the one file stands for the same** in both. -/
theorem AddsFile.standsFor_iff (h : AddsFile fs fs' l) (htree : fs.IsTree) (htree' : fs'.IsTree)
    (hm : m ≠ l) : fs'.StandsFor path m entry ↔ fs.StandsFor path m entry := by
  have hentry := h.other m hm
  constructor
  · rintro ⟨hlocate, hsome⟩
    have hthere : fs.entryAt? m = some entry := hentry.symm.trans hsome
    exact ⟨htree'.locate_of_directory htree h.working.symm (fun d hd => h.directory_iff.mp hd)
      (hthere.trans_ne (Option.some_ne_none _)) hlocate, hthere⟩
  · rintro ⟨hlocate, hsome⟩
    have hthere : fs'.entryAt? m = some entry := hentry.trans hsome
    exact ⟨htree.locate_of_directory htree' h.working (fun d hd => h.directory_iff.mpr hd)
      (hthere.trans_ne (Option.some_ne_none _)) hlocate, hthere⟩

/-- A path that does not stand for the one file stands for the same in both. -/
theorem AddsFile.exists_standsFor_iff (h : AddsFile fs fs' l) (htree : fs.IsTree)
    (htree' : fs'.IsTree) (hpath : ¬ fs'.StandsFor path l entry) :
    (∃ m, fs'.StandsFor path m entry) ↔ ∃ m, fs.StandsFor path m entry := by
  apply exists_congr
  intro m
  by_cases hm : m = l
  · subst hm
    refine iff_of_false hpath ?_
    rintro ⟨-, hsome⟩
    rw [h.free] at hsome
    exact absurd hsome (by simp)
  · exact h.standsFor_iff htree htree' hm

theorem AddsFile.isDirectory_eq (h : AddsFile fs fs' l) (htree : fs.IsTree) (htree' : fs'.IsTree)
    (path : String) : fs'.isDirectory path = fs.isDirectory path := by
  rw [Bool.eq_iff_iff, isDirectory_iff_standsFor, isDirectory_iff_standsFor]
  refine h.exists_standsFor_iff htree htree' ?_
  rintro ⟨-, hdirectory⟩
  obtain ⟨content, hfile⟩ := h.file
  rw [hfile] at hdirectory
  exact absurd hdirectory (by simp)

/-- A path that does not stand for the one file is that of a file in both or in neither. -/
theorem AddsFile.isFile_eq (h : AddsFile fs fs' l) (htree : fs.IsTree) (htree' : fs'.IsTree)
    (hpath : fs'.locate path ≠ .ok l) : fs'.isFile path = fs.isFile path := by
  rw [Bool.eq_iff_iff, isFile_iff_standsFor, isFile_iff_standsFor]
  exact exists_congr fun content => h.exists_standsFor_iff htree htree' fun hstands =>
    hpath hstands.1

/-- From a path that does not stand for the one file the same text is read. -/
theorem AddsFile.readText_eq_ok_iff (h : AddsFile fs fs' l) (htree : fs.IsTree)
    (htree' : fs'.IsTree) (hpath : fs'.locate path ≠ .ok l) {s : String} :
    fs'.readText path = .ok s ↔ fs.readText path = .ok s := by
  rw [readText_eq_ok_iff_standsFor, readText_eq_ok_iff_standsFor]
  exact h.exists_standsFor_iff htree htree' fun hstands => hpath hstands.1

end ComponentStories.FileSystem
