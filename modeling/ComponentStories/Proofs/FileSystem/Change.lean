import ComponentStories.Proofs.FileSystem.Tree

/-
# Changes in one place

Writing a file and removing one change a directory tree in one place: the result is a directory tree
again, its directories stay, and every file elsewhere keeps its content and its time (`Keeps`).
-/

namespace ComponentStories.FileSystem

open ComponentStories.Path

variable {fs fs' fs'' : FileSystem} {l other d : Location} {n : String}

/-! ## Items -/

/-- The item at a location with another time is seen there. -/
theorem itemAt?_stamp (fs : FileSystem) (l other : Location) (time : Int) :
    (fs.stamp l time).itemAt? other =
      if l = other then (fs.itemAt? other).map fun i => { i with modified := time }
      else fs.itemAt? other := by
  rw [stamp]
  split
  · rename_i item h
    rw [itemAt?_put]
    split
    · rename_i heq
      rw [← heq, h]
      rfl
    · rfl
  · rename_i h
    split
    · rename_i heq
      rw [← heq, h]
      rfl
    · rfl

theorem itemAt?_change_self (fs : FileSystem) (l : Location) (entry : Entry) :
    (fs.change l entry).itemAt? l = some ⟨entry, fs.clock + 1⟩ := by
  rw [change, itemAt?_put, if_pos rfl]
  rfl

/-- A change is not seen elsewhere, except that the directory is stamped if nothing was there. -/
theorem itemAt?_change_of_ne (entry : Entry) (hother : l ≠ other)
    (hdir : fs.entryAt? l = none → l.dropLast ≠ other) :
    (fs.change l entry).itemAt? other = fs.itemAt? other := by
  rw [change, itemAt?_put, if_neg hother]
  split
  · rename_i hnone
    rw [itemAt?_stamp, if_neg (hdir (Option.isNone_iff_eq_none.mp hnone))]
    rfl
  · rfl

theorem entryAt?_change_self (fs : FileSystem) (l : Location) (entry : Entry) :
    (fs.change l entry).entryAt? l = some entry := by
  rw [entryAt?_change, if_pos rfl]

theorem entryAt?_change_of_ne (entry : Entry) (hother : l ≠ other) :
    (fs.change l entry).entryAt? other = fs.entryAt? other := by
  rw [entryAt?_change, if_neg hother]

/-- What is erased is not seen elsewhere, except that the directory is stamped. -/
theorem itemAt?_erase_of_ne (hother : l ≠ other) (hdir : l.dropLast ≠ other) :
    (fs.erase l).itemAt? other = fs.itemAt? other := by
  have h := itemAt?_stamp fs.tick l.dropLast other fs.tick.clock
  rw [if_neg hdir] at h
  rw [erase, itemAt?]
  dsimp only
  rw [getSorted?_eraseSorted, if_neg hother]
  exact h

@[simp] theorem working_change (fs : FileSystem) (l : Location) (entry : Entry) :
    (fs.change l entry).working = fs.working := by
  rw [change, put]
  split
  · rw [stamp]
    split <;> rfl
  · rfl

@[simp] theorem clock_change (fs : FileSystem) (l : Location) (entry : Entry) :
    (fs.change l entry).clock = fs.clock + 1 := by
  rw [change, put]
  split
  · rw [stamp]
    split <;> rfl
  · rfl

@[simp] theorem working_erase (fs : FileSystem) (l : Location) :
    (fs.erase l).working = fs.working := by
  rw [erase]
  dsimp only
  rw [stamp]
  split <;> rfl

@[simp] theorem working_stamp (fs : FileSystem) (l : Location) (time : Int) :
    (fs.stamp l time).working = fs.working := by
  rw [stamp]
  split <;> rfl

theorem itemAt?_ne_file (h : fs.entryAt? l = some .directory) (content : Content) (time : Int) :
    fs.itemAt? l ≠ some ⟨.file content, time⟩ := by
  intro hfile
  simp [entryAt?, hfile] at h

/-! ## Times -/

/-- Nothing carries a time that is later than the one of the last change. -/
def Timely (fs : FileSystem) : Prop :=
  ∀ l item, fs.itemAt? l = some item → item.modified ≤ fs.clock

theorem timely_of_forall_items (h : ∀ e ∈ fs.items, e.2.modified ≤ fs.clock) : fs.Timely :=
  fun _ _ hitem => h _ (mem_of_getSorted? hitem)

/-- What stands at a location carries a time later than another one. -/
def ChangedAfter (fs : FileSystem) (time : Int) (l : Location) : Prop :=
  ∃ item, fs.itemAt? l = some item ∧ time < item.modified

/-- What is written carries a later time than the last change. -/
theorem changedAfter_change_self {time : Int} (htime : time ≤ fs.clock) (entry : Entry) :
    (fs.change l entry).ChangedAfter time l :=
  ⟨_, itemAt?_change_self fs l entry, Int.lt_add_one_of_le htime⟩

/-- **What is later than a time stays later**, whatever is changed. -/
theorem ChangedAfter.change {time : Int} (h : fs.ChangedAfter time l) (htime : time ≤ fs.clock)
    (entry : Entry) : (fs.change other entry).ChangedAfter time l := by
  by_cases heq : other = l
  · rw [heq]
    exact changedAfter_change_self htime entry
  obtain ⟨item, hitem, hlate⟩ := h
  by_cases hstamp : fs.entryAt? other = none ∧ other.dropLast = l
  · obtain ⟨hnone, rfl⟩ := hstamp
    refine ⟨{ item with modified := fs.clock + 1 }, ?_, Int.lt_add_one_of_le htime⟩
    have htick : fs.tick.itemAt? other.dropLast = some item := hitem
    rw [FileSystem.change, itemAt?_put, if_neg heq, hnone, if_pos Option.isNone_none, itemAt?_stamp,
      if_pos rfl, htick]
    rfl
  · refine ⟨item, ?_, hlate⟩
    rwa [itemAt?_change_of_ne _ heq fun hnone hdir => hstamp ⟨hnone, hdir⟩]

/-! ## Files that stay the same -/

/-- A path stands for the same file in two file systems, or for none in both. -/
def SameFile (fs fs' : FileSystem) (path : String) : Prop :=
  ∀ content time,
    fs'.item path = .ok ⟨.file content, time⟩ ↔ fs.item path = .ok ⟨.file content, time⟩

theorem SameFile.refl (fs : FileSystem) (path : String) : SameFile fs fs path := fun _ _ => Iff.rfl

theorem SameFile.symm {path : String} (h : SameFile fs fs' path) : SameFile fs' fs path :=
  fun content time => (h content time).symm

theorem SameFile.trans {path : String} (h : SameFile fs fs' path) (h' : SameFile fs' fs'' path) :
    SameFile fs fs'' path :=
  fun content time => (h' content time).trans (h content time)

theorem SameFile.isFile {path : String} (h : SameFile fs fs' path) (hfile : fs.isFile path = true) :
    fs'.isFile path = true := by
  obtain ⟨content, time, hitem⟩ := isFile_iff.mp hfile
  exact isFile_iff.mpr ⟨content, time, (h content time).mpr hitem⟩

theorem SameFile.readText_eq_ok_iff {path s : String} (h : SameFile fs fs' path) :
    fs'.readText path = .ok s ↔ fs.readText path = .ok s := by
  rw [FileSystem.readText_eq_ok_iff, FileSystem.readText_eq_ok_iff]
  exact exists_congr fun time => h (.text s) time

/-! ## Changes that keep everything elsewhere -/

/-- A change in one place: a directory tree whose directories stay and whose
files elsewhere are the same. -/
structure Keeps (fs fs' : FileSystem) (l : Location) : Prop where
  /-- The result is a directory tree. -/
  tree : fs'.IsTree
  /-- The working directory is the same. -/
  working : fs'.working = fs.working
  /-- Directories stay. -/
  directory : ∀ d, fs.entryAt? d = some .directory → fs'.entryAt? d = some .directory
  /-- Files elsewhere are the same. -/
  file : ∀ other, other ≠ l → ∀ content time,
    fs'.itemAt? other = some ⟨.file content, time⟩ ↔ fs.itemAt? other = some ⟨.file content, time⟩

theorem IsTree.keeps (htree : fs.IsTree) (l : Location) : Keeps fs fs l :=
  ⟨htree, rfl, fun _ h => h, fun _ _ _ _ => Iff.rfl⟩

/-- Changes in the same place are a change in this place. -/
theorem Keeps.trans (h : Keeps fs fs' l) (h' : Keeps fs' fs'' l) : Keeps fs fs'' l where
  tree := h'.tree
  working := h'.working.trans h.working
  directory d hd := h'.directory d (h.directory d hd)
  file other hother content time :=
    (h'.file other hother content time).trans (h.file other hother content time)

theorem Keeps.leadsTo (h : Keeps fs fs' l) {path : String} (hpath : fs.LeadsTo path d) :
    fs'.LeadsTo path d := by
  rw [LeadsTo, h.working]
  exact Leads.mono hpath h.directory

/-- **Names that are joined to a path stand for the same file after a change elsewhere.** -/
theorem Keeps.sameFile_foldl_join (h : Keeps fs fs' l) (htree : fs.IsTree) {path : String}
    (hpath : fs.LeadsTo path d) {names : List String} (hne : names ≠ [])
    (hnames : ∀ n ∈ names, IsName n) (hother : d ++ names ≠ l) :
    SameFile fs fs' (names.foldl join path) := by
  intro content time
  rw [h.tree.item_foldl_join_eq_ok_iff (h.leadsTo hpath) hne hnames,
    htree.item_foldl_join_eq_ok_iff hpath hne hnames, h.file _ hother]

/-- A directory tree stays one when a file or a directory is put at a name in a directory
that is no directory itself. -/
theorem IsTree.change (htree : fs.IsTree) (hd : fs.entryAt? d = some .directory) (hn : IsName n)
    (hplace : fs.entryAt? (d ++ [n]) ≠ some .directory) {entry : Entry}
    (hentry : ∀ target, entry ≠ .link target) : (fs.change (d ++ [n]) entry).IsTree where
  plain l target := by
    rw [entryAt?_change]
    split
    · exact fun h => hentry target (Option.some.inj h)
    · exact htree.plain l target
  name l m h := by
    rw [entryAt?_change] at h
    split at h
    · rename_i heq
      obtain rfl : n = m := (List.append_singleton_inj.mp heq).2
      exact hn
    · exact htree.name l m h
  parent l m h := by
    rw [entryAt?_change] at h ⊢
    have hne : d ++ [n] ≠ d := by simp
    split at h
    · rename_i heq
      obtain rfl : d = l := (List.append_singleton_inj.mp heq).1
      rw [if_neg hne]
      exact hd
    · have hl := htree.parent l m h
      rw [if_neg (fun heq => hplace (by rw [heq]; exact hl))]
      exact hl

/-- What is put at a name in a directory changes no file elsewhere: the
directory is none, stamped or not. -/
theorem file_change_iff (hd : fs.entryAt? d = some .directory) (entry : Entry)
    (hother : other ≠ d ++ [n]) {content : Content} {time : Int} :
    (fs.change (d ++ [n]) entry).itemAt? other = some ⟨.file content, time⟩ ↔
      fs.itemAt? other = some ⟨.file content, time⟩ := by
  by_cases hdir : d = other
  · subst hdir
    have hkeep : (fs.change (d ++ [n]) entry).entryAt? d = some .directory := by
      rw [entryAt?_change_of_ne _ (Ne.symm hother)]
      exact hd
    exact iff_of_false (itemAt?_ne_file hkeep _ _) (itemAt?_ne_file hd _ _)
  · rw [itemAt?_change_of_ne _ (Ne.symm hother) fun _ => by rwa [List.dropLast_concat]]

/-- Putting a file at a name in a directory changes nothing elsewhere. -/
theorem IsTree.keeps_change (htree : fs.IsTree) (hd : fs.entryAt? d = some .directory)
    (hn : IsName n) (hplace : fs.entryAt? (d ++ [n]) ≠ some .directory) (content : Content) :
    Keeps fs (fs.change (d ++ [n]) (.file content)) (d ++ [n]) where
  tree := htree.change hd hn hplace (by simp)
  working := working_change _ _ _
  directory l hl := by
    rw [entryAt?_change_of_ne _ fun heq => hplace (by rw [heq]; exact hl)]
    exact hl
  file other hother c time := file_change_iff hd _ hother

/-- Erasing a file changes nothing elsewhere. -/
theorem IsTree.keeps_erase (htree : fs.IsTree) {content : Content}
    (hd : fs.entryAt? d = some .directory) (hfile : fs.entryAt? (d ++ [n]) = some (.file content)) :
    Keeps fs (fs.erase (d ++ [n])) (d ++ [n]) where
  tree := by
    constructor
    · intro l target
      rw [entryAt?_erase]
      split
      · simp
      · exact htree.plain l target
    · intro l m h
      rw [entryAt?_erase] at h
      split at h
      · exact absurd rfl h
      · exact htree.name l m h
    · intro l m h
      rw [entryAt?_erase] at h ⊢
      split at h
      · exact absurd rfl h
      · have hl := htree.parent l m h
        rw [if_neg (fun heq => by rw [← heq, hfile] at hl; simp at hl)]
        exact hl
  working := working_erase _ _
  directory l hl := by
    rw [entryAt?_erase, if_neg (fun heq => by rw [← heq, hfile] at hl; simp at hl)]
    exact hl
  file other hother c time := by
    by_cases hdir : d = other
    · subst hdir
      have hkeep : (fs.erase (d ++ [n])).entryAt? d = some .directory := by
        rw [entryAt?_erase, if_neg (Ne.symm hother)]
        exact hd
      exact iff_of_false (itemAt?_ne_file hkeep _ _) (itemAt?_ne_file hd _ _)
    · rw [itemAt?_erase_of_ne (Ne.symm hother) (by rwa [List.dropLast_concat])]

/-- Setting a time changes nothing elsewhere. -/
theorem IsTree.keeps_stamp (htree : fs.IsTree) (l : Location) (time : Int) :
    Keeps fs (fs.stamp l time) l where
  tree := by
    constructor
    · intro m target
      rw [entryAt?_stamp]
      exact htree.plain m target
    · intro m n h
      rw [entryAt?_stamp] at h
      exact htree.name m n h
    · intro m n h
      rw [entryAt?_stamp] at h ⊢
      exact htree.parent m n h
  working := working_stamp _ _ _
  directory m hm := by
    rw [entryAt?_stamp]
    exact hm
  file other hother c t := by rw [itemAt?_stamp, if_neg (Ne.symm hother)]

/-! ## Making directories -/

/-- Making a directory changes no file. -/
theorem IsTree.keeps_makeDirectory (htree : fs.IsTree) {path : String}
    (h : fs.makeDirectory path = .ok fs') (l : Location) : Keeps fs fs' l := by
  rw [makeDirectory] at h
  split at h
  · exact absurd h (by simp)
  · exact absurd h (by simp)
  rename_i m hresolve
  obtain rfl : fs.change m .directory = fs' := Except.ok.inj h
  have hfree : ∃ d n, m = d ++ [n] ∧ fs.entryAt? d = some .directory ∧ IsName n ∧
      fs.entryAt? m = none := by
    rw [resolve] at hresolve
    split at hresolve
    · exact absurd hresolve (by simp)
    obtain ⟨jump, hjump⟩ := fs.exists_follow_eq .entry linkLimit
    rw [hjump] at hresolve
    refine htree.exists_of_followWith_free ?_ hresolve
    intro p hp
    obtain ⟨piece, hpiece, rfl⟩ := List.mem_map.mp hp
    rw [String.toList_ofList]
    exact Text.notMem_of_mem_splitAt hpiece
  obtain ⟨d, n, rfl, hd, hn, hnone⟩ := hfree
  have hplace : fs.entryAt? (d ++ [n]) ≠ some .directory :=
    hnone.trans_ne (Option.some_ne_none _).symm
  refine ⟨htree.change hd hn hplace (by simp), working_change _ _ _, ?_, ?_⟩
  · intro e he
    rw [entryAt?_change]
    split
    · rfl
    · exact he
  · intro other _ content time
    by_cases hother : other = d ++ [n]
    · rw [hother, itemAt?_change_self]
      rw [entryAt?, Option.map_eq_none_iff] at hnone
      simp [hnone]
    · exact file_change_iff hd _ hother

/-- Making directories changes no file. -/
theorem IsTree.keeps_makeDirectoriesOf (htree : fs.IsTree) (paths : List String) (l : Location) :
    Keeps fs (fs.makeDirectoriesOf paths).2 l := by
  induction paths generalizing fs with
  | nil => exact htree.keeps l
  | cons path above ih =>
    rw [makeDirectoriesOf]
    split
    · exact htree.keeps l
    split
    · exact htree.keeps_makeDirectory ‹_› l
    · have habove := ih htree
      split
      · rename_i e fs₁ heq
        rwa [heq] at habove
      · rename_i fs₁ heq
        rw [heq] at habove
        split
        · exact habove.trans (habove.tree.keeps_makeDirectory ‹_› l)
        · exact habove
    · exact htree.keeps l

/-- Making a directory and those above it changes no file. -/
theorem IsTree.keeps_makeDirectories (htree : fs.IsTree) {path : String}
    {made : Except IoError Unit}
    (h : fs.makeDirectories path = (made, fs')) (l : Location) : Keeps fs fs' l := by
  have hkeeps := htree.keeps_makeDirectoriesOf (ancestors path) l
  rwa [← FileSystem.makeDirectories, h] at hkeeps

/-- Making the directories above a path changes no file. -/
theorem IsTree.keeps_makeParents (htree : fs.IsTree) (path : String) (l : Location) :
    Keeps fs (fs.makeParents path).2 l := by
  rw [makeParents]
  split
  · exact htree.keeps_makeDirectoriesOf _ l
  · exact htree.keeps l

/-! ## Writing at names -/

/-- The path above names that are joined to a path leads where this path does.  A name that is not
longer can be joined to it. -/
theorem LeadsTo.exists_parent {path : String} (h : fs.LeadsTo path d) :
    ∃ parent, (∀ n, IsName n → parent? (join path n) = some parent) ∧ fs.LeadsTo parent d ∧
      withoutEndSlashes parent = parent ∧
      (∀ n, IsName n → pathFault? (join path n) = none → parent ≠ "" → pathFault? parent = none) ∧
      ∀ n n', IsName n → IsName n' → '\x00' ∉ n'.toList → n'.utf8ByteSize ≤ n.utf8ByteSize →
        pathFault? (join path n) = none → pathFault? (join parent n') = none := by
  obtain ⟨parent, stays, hparent, hstem, hstays, hempty, hslashes⟩ := parent?_join path
  refine ⟨parent, fun n hn => (hparent n hn).1, ?_, hslashes, ?_, ?_⟩
  · have hstart : start parent fs.working = start path fs.working := by
      by_cases hne : parent = ""
      · rw [hne, hempty hne]
      · have hdot : IsName "a" := by decide
        rw [start, start, isAbsolute_of_front hne (hparent "a" hdot).2,
          isAbsolute_join path hdot.isPiece]
    rw [leadsTo_iff_leads_stem, hstem, List.map_append, leads_append] at h
    obtain ⟨m, hm, hrest⟩ := h
    have hnowhere : ∀ p ∈ stays.map String.ofList, p = "" ∨ p = "." := by
      intro p hp
      obtain ⟨piece, hpiece, rfl⟩ := List.mem_map.mp hp
      have hstay := hstays piece hpiece
      rw [isStay, Bool.or_eq_true, beq_iff_eq, beq_iff_eq] at hstay
      rcases hstay with rfl | rfl
      · exact Or.inl rfl
      · exact Or.inr rfl
    obtain ⟨-, rfl⟩ := (leads_of_isStay hnowhere).mp hrest
    rw [leadsTo_iff_leads_stem, hstart]
    exact hm
  · intro n hn hfault hne
    exact pathFault?_eq_none_of_front hne (hparent n hn).2 hfault
  · intro n n' hn hn' hnul hsize hfault
    exact pathFault?_join_of_stem hstem hn hn' hnul hsize hfault

/-- A directory that a path leads to is not made again. -/
theorem LeadsTo.makeDirectories {path : String} (h : fs.LeadsTo path d)
    (hfault : pathFault? path = none) (hslashes : withoutEndSlashes path = path) :
    fs.makeDirectories path = (.ok (), fs) := by
  have hexists : fs.makeDirectory path = .error .alreadyExists := by
    rw [makeDirectory, hslashes, h.resolve hfault (by decide)]
  have hne : path.isEmpty = false := by
    rw [Bool.eq_false_iff, ne_eq, String.isEmpty_iff]
    exact (pathFault?_eq_none_iff.mp hfault).2.1
  rw [FileSystem.makeDirectories, ancestors, makeDirectoriesOf, hne, if_neg Bool.false_ne_true,
    hexists]
  show (if fs.isDirectory path = true then _ else _, fs) = _
  rw [if_pos (h.isDirectory hfault)]

/-- The directories above a name that is joined to a path to a directory are there. -/
theorem LeadsTo.makeParents {path : String} (h : fs.LeadsTo path d) (hn : IsName n)
    (hfault : pathFault? (join path n) = none) : fs.makeParents (join path n) = (.ok (), fs) := by
  obtain ⟨parent, hparent, hleads, hslashes, hpath, -⟩ := h.exists_parent
  rw [FileSystem.makeParents, hparent n hn]
  dsimp only
  by_cases hne : parent = ""
  · rw [hne]
    rfl
  · exact hleads.makeDirectories (hpath n hn hfault hne) hslashes

/-- **Writing at a name in a directory puts the file there**, unless a directory has this name. -/
theorem IsTree.write_join (htree : fs.IsTree) {path : String} (h : fs.LeadsTo path d)
    (hn : IsName n) (hfault : pathFault? (join path n) = none)
    (hplace : fs.entryAt? (d ++ [n]) ≠ some .directory) (content : Content) :
    fs.write (join path n) content = (.ok (), fs.change (d ++ [n]) (.file content)) := by
  have hfile : fs.writeFile (join path n) content = .ok (fs.change (d ++ [n]) (.file content)) := by
    rw [writeFile, htree.resolve_join h hn hfault]
    by_cases hnone : fs.entryAt? (d ++ [n]) = none
    · rw [if_pos hnone]
    · rw [if_neg hnone]
      dsimp only
      split
      · exact absurd ‹_› hplace
      · rfl
  rw [write, withParents, h.makeParents hn hfault]
  dsimp only
  rw [attempt, hfile]

/-- Writing at the name of a directory changes nothing. -/
theorem IsTree.write_join_of_directory (htree : fs.IsTree) {path : String} (h : fs.LeadsTo path d)
    (hn : IsName n) (hfault : pathFault? (join path n) = none)
    (hplace : fs.entryAt? (d ++ [n]) = some .directory) (content : Content) :
    fs.write (join path n) content = (.error .isDirectory, fs) := by
  have hfile : fs.writeFile (join path n) content = .error .isDirectory := by
    rw [writeFile, htree.resolve_join h hn hfault,
      if_neg (hplace.trans_ne (Option.some_ne_none _))]
    dsimp only
    rw [hplace]
  rw [write, withParents, h.makeParents hn hfault]
  dsimp only
  rw [attempt, hfile]

/-- A file that is written at names below a directory is put at the location that they name. -/
theorem IsTree.writeFile_foldl_join (htree : fs.IsTree) {path : String} (h : fs.LeadsTo path d)
    {names : List String} (hne : names ≠ []) (hnames : ∀ n ∈ names, IsName n) {content : Content}
    (hwrite : fs.writeFile (names.foldl join path) content = .ok fs') :
    ∃ e n, d ++ names = e ++ [n] ∧ fs.entryAt? e = some .directory ∧ IsName n ∧
      fs.entryAt? (d ++ names) ≠ some .directory ∧
      fs' = fs.change (d ++ names) (.file content) := by
  have hfault : pathFault? (names.foldl join path) = none := by
    cases hfault : pathFault? (names.foldl join path) with
    | none => rfl
    | some e => simp [writeFile, resolve, hfault] at hwrite
  obtain ⟨jump, hresolve⟩ := h.exists_resolve_foldl_join hne hnames hfault
  have hd := h.directory_right
  rw [writeFile, hresolve] at hwrite
  split at hwrite
  · exact absurd hwrite (by simp)
  · rename_i m hfollow
    obtain rfl := htree.eq_of_followWith_names hd hnames hfollow
    have hslash : ∀ p ∈ names, '/' ∉ p.toList := fun p hp => (hnames p hp).slash
    obtain ⟨e, n, hplace, he, hn, hnone⟩ := htree.exists_of_followWith_free hslash hfollow
    exact ⟨e, n, hplace, he, hn, hnone.trans_ne (Option.some_ne_none _).symm,
      (Except.ok.inj hwrite).symm⟩
  · rename_i m hfollow
    obtain ⟨rfl, hsome⟩ := ((htree.below d).followWith_names hd hnames).mp hfollow
    obtain ⟨init, n, rfl⟩ := (List.eq_nil_or_concat' names).resolve_left hne
    split at hwrite
    · exact absurd hwrite (by simp)
    rename_i hplace
    rw [← List.append_assoc] at hsome hplace ⊢
    exact ⟨d ++ init, n, rfl, htree.parent _ _ hsome, htree.name _ _ hsome, hplace,
      (Except.ok.inj hwrite).symm.trans (by rw [List.append_assoc])⟩

/-- **Writing at names below a directory changes nothing elsewhere**, also when
directories are made on the way. -/
theorem IsTree.keeps_write (htree : fs.IsTree) {path : String} (h : fs.LeadsTo path d)
    {names : List String} (hne : names ≠ []) (hnames : ∀ n ∈ names, IsName n) {content : Content}
    (hwrite : fs.write (names.foldl join path) content = (.ok (), fs')) :
    Keeps fs fs' (d ++ names) ∧ ∃ time, fs'.itemAt? (d ++ names) = some ⟨.file content, time⟩ := by
  have hparents := htree.keeps_makeParents (names.foldl join path) (d ++ names)
  rw [write, withParents] at hwrite
  split at hwrite
  · exact absurd (congrArg Prod.fst hwrite) (by simp)
  rename_i g hg
  rw [hg] at hparents
  rw [attempt] at hwrite
  split at hwrite
  · rename_i fs₁ hfile
    obtain rfl : fs₁ = fs' := congrArg Prod.snd hwrite
    obtain ⟨e, n, hplace, he, hn, hdir, rfl⟩ :=
      hparents.tree.writeFile_foldl_join (hparents.leadsTo h) hne hnames hfile
    rw [hplace] at hparents hdir ⊢
    exact ⟨hparents.trans (hparents.tree.keeps_change he hn hdir content), _,
      itemAt?_change_self _ _ _⟩
  · exact absurd (congrArg Prod.fst hwrite) (by simp)

/-- The time of what names below a directory stand for is set at the location that they name. -/
theorem IsTree.setModified_foldl_join (htree : fs.IsTree) {path : String} (h : fs.LeadsTo path d)
    {names : List String} (hne : names ≠ []) (hnames : ∀ n ∈ names, IsName n) {time : Int}
    (hset : fs.setModified (names.foldl join path) time = .ok fs') :
    fs' = fs.stamp (d ++ names) time := by
  rw [setModified] at hset
  split at hset
  · rename_i l hlocate
    obtain ⟨-, rfl, -⟩ := (htree.locate_foldl_join_eq_ok_iff h hne hnames).mp hlocate
    exact (Except.ok.inj hset).symm
  · exact absurd hset (by simp)

/-- Removing a name from a directory erases the file of this name. -/
theorem IsTree.remove_join_eq_ok (htree : fs.IsTree) {path : String} (h : fs.LeadsTo path d)
    (hn : IsName n) (hremove : fs.remove (join path n) = .ok fs') :
    (∃ content, fs.entryAt? (d ++ [n]) = some (.file content)) ∧ fs' = fs.erase (d ++ [n]) := by
  have hfault : pathFault? (join path n) = none := by
    cases hfault : pathFault? (join path n) with
    | none => rfl
    | some e => simp [remove, resolve, hfault] at hremove
  rw [remove, htree.resolve_join h hn hfault] at hremove
  cases hentry : fs.entryAt? (d ++ [n]) with
  | none => simp [hentry] at hremove
  | some entry =>
    cases entry with
    | file content => exact ⟨⟨content, rfl⟩, by simpa [hentry] using hremove.symm⟩
    | directory => simp [hentry] at hremove
    | link target => exact absurd hentry (htree.plain _ _)

end ComponentStories.FileSystem
