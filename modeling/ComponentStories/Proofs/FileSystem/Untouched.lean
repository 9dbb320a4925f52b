import ComponentStories.Proofs.FileSystem.Added
import ComponentStories.Proofs.FileSystem.Ancestors
import ComponentStories.Proofs.FileSystem.Below
import ComponentStories.Proofs.FileSystem.Grows
import ComponentStories.Proofs.FileSystem.Make

/-
# What writing leaves alone

Links may be anywhere.  Where a file is written, every other file keeps its content and its time
(`KeepsFile`, `Nested.keepsFile_writeFile`).  A path that stands for something else after a file is
written stood for it before (`locate_of_change`).  Directories that are made leave all files alone,
and the last of them is empty (`Nested.isEmptyDir_of_makeDirectories`).
-/

namespace ComponentStories.FileSystem

open ComponentStories.Path

variable {fs fs' fs'' : FileSystem} {l m d : Location} {path n : String} {purpose : Purpose}
  {content : Content} {place : Place}

/-! ## Files that keep what they are -/

/-- A file at a location, if there is one, keeps its content and its time. -/
def KeepsFile (fs fs' : FileSystem) (l : Location) : Prop :=
  ∀ content time, fs.itemAt? l = some ⟨.file content, time⟩ →
    fs'.itemAt? l = some ⟨.file content, time⟩

theorem KeepsFile.refl (fs : FileSystem) (l : Location) : fs.KeepsFile fs l := fun _ _ h => h

theorem KeepsFile.trans (h : fs.KeepsFile fs' l) (h' : fs'.KeepsFile fs'' l) :
    fs.KeepsFile fs'' l :=
  fun content time hl => h' content time (h content time hl)

theorem keepsFile_of_forall_ne (h : ∀ content, fs.entryAt? l ≠ some (.file content)) :
    fs.KeepsFile fs' l := by
  intro content time hl
  exact absurd (entryAt?_eq_some_iff.mpr ⟨time, hl⟩) (h content)

/-- A change at a place where nothing is leaves all files alone. -/
theorem keepsFile_change_of_free (hfair : fs.Fair purpose (.free m)) (entry : Entry)
    (l : Location) : fs.KeepsFile (fs.change m entry) l := by
  obtain ⟨hnone, d, n, rfl, hd⟩ := hfair
  intro content time hl
  have hsome : fs.entryAt? l = some (.file content) := entryAt?_eq_some_iff.mpr ⟨time, hl⟩
  rw [itemAt?_change_of_ne entry ?_ fun _ => ?_]
  · exact hl
  · rintro rfl
    exact absurd (hnone.symm.trans hsome) (by simp)
  · -- the directory that is stamped is no file
    rw [List.dropLast_concat]
    rintro rfl
    exact itemAt?_ne_file hd content time hl

/-- A change in the place of something leaves the files elsewhere alone. -/
theorem keepsFile_change_of_ne (hsome : fs.entryAt? m ≠ none) (entry : Entry) (hne : m ≠ l) :
    fs.KeepsFile (fs.change m entry) l := by
  intro content time hl
  rwa [itemAt?_change_of_ne entry hne fun hnone => absurd hnone hsome]

/-! ## Writing -/

/-- A file changes when another one is written only if the path stands for it. -/
theorem Nested.keepsFile_writeFile (h : fs.Nested) (hwrite : fs.writeFile path content = .ok fs')
    (l : Location) : fs.KeepsFile fs' l ∨ fs.locate path = .ok l ∧ fs.holds path = true := by
  obtain ⟨m, rfl, -, hfree | ⟨hlocate, hsome⟩⟩ := h.exists_of_writeFile hwrite
  · exact Or.inl (keepsFile_change_of_free hfree _ l)
  · by_cases hml : m = l
    · subst hml
      exact Or.inr ⟨hlocate, holds_iff.mpr ⟨m, hlocate, hsome⟩⟩
    · exact Or.inl (keepsFile_change_of_ne hsome _ hml)

/-- Directories that are made leave all files alone. -/
theorem Nested.keepsFile_makeDirectory (h : fs.Nested) (hmake : fs.makeDirectory path = .ok fs')
    (l : Location) : fs.KeepsFile fs' l := by
  rw [makeDirectory] at hmake
  split at hmake
  · exact absurd hmake (by simp)
  · exact absurd hmake (by simp)
  · rename_i m hresolve
    obtain rfl := Except.ok.inj hmake
    exact keepsFile_change_of_free (h.fair_resolve hresolve) _ l

/-- So do all that are missing on the way, also when one cannot be made. -/
theorem Nested.keepsFile_makeDirectoriesOf (h : fs.Nested) (paths : List String) (l : Location) :
    fs.KeepsFile (fs.makeDirectoriesOf paths).2 l := by
  induction paths generalizing fs with
  | nil => exact .refl fs l
  | cons path above ih =>
    rw [makeDirectoriesOf]
    split
    · exact .refl fs l
    split
    · exact h.keepsFile_makeDirectory ‹_› l
    · have habove := ih h
      have hgrows : Grows (fun _ => False) fs (fs.makeDirectoriesOf above).2 :=
        h.grows_makeDirectoriesOf above
      split
      · rename_i e g heq
        rwa [heq] at habove
      · rename_i g heq
        rw [heq] at habove hgrows
        split
        · exact habove.trans (hgrows.nested.keepsFile_makeDirectory ‹_› l)
        · exact habove
    · exact .refl fs l

/-! ## Paths that do not meet what was written -/

/-- What leads to another place after a file was written led there before. -/
theorem carriesOver_of_file (hplace : place ≠ .taken m) :
    CarriesOver (fs.change m (.file content)) fs purpose purpose place place where
  directory l hl := by
    have hlm : m ≠ l := by
      rintro rfl
      rw [entryAt?_change_self] at hl
      exact absurd hl (by simp)
    rwa [entryAt?_change_of_ne _ hlm] at hl
  create := id
  done _ := id
  name l n rest hjump hrest hname := by
    by_cases hn : m = l ++ [n]
    · -- at the file the way ends, and it is not the place
      subst hn
      rw [followName_entry (entryAt?_change_self _ _ _) (by simp)] at hname
      cases rest with
      | nil => exact absurd (Except.ok.inj hname).symm hplace
      | cons q rest =>
        have hdir := (followWith_cons_eq_ok_iff.mp hname).1
        rw [entryAt?_change_self] at hdir
        exact absurd hdir (by simp)
    rw [followName_eq_ok_iff] at hname ⊢
    rw [entryAt?_change_of_ne _ hn] at hname
    rcases hname with hfree | ⟨target, hlink, hjumps⟩ | ⟨entry, hentry, hother, hon⟩
    · exact Or.inl hfree
    · refine Or.inr (Or.inl ⟨target, hlink, ?_⟩)
      split at hjumps
      · rwa [if_pos ‹_›]
      · rw [if_neg ‹_›]
        exact hjump _ _ _ hjumps
    · exact Or.inr (Or.inr ⟨entry, hentry, hother, hrest hon⟩)

/-- **A path that stands for something else after a file was written stood for it before.** -/
theorem locate_of_change (hne : l ≠ m) (h : (fs.change m (.file content)).locate path = .ok l) :
    fs.locate path = .ok l := by
  have hplace : Place.taken l ≠ .taken m := fun heq => hne (Place.taken.inj heq)
  rw [locate_eq_ok_iff] at h ⊢
  exact (carriesOver_of_file hplace).resolve (working_change _ _ _).symm h

/-! ## Directories that are made -/

/-- What leads to a free place leads there when a directory is made at it. -/
theorem carriesOver_of_directory (hnone : fs.entryAt? m = none) :
    CarriesOver fs (fs.change m .directory) purpose .reach (.free m) (.taken m) := by
  have hsome : ∀ l entry, fs.entryAt? l = some entry →
      (fs.change m .directory).entryAt? l = some entry := by
    intro l entry hl
    have hlm : m ≠ l := by
      rintro rfl
      exact absurd (hnone.symm.trans hl) (by simp)
    rwa [entryAt?_change_of_ne _ hlm]
  refine ⟨fun l => hsome l _, fun hcreate => absurd hcreate (by decide),
    fun l hl => absurd hl (by simp), fun l n rest hjump hrest hname => ?_⟩
  rcases followName_eq_ok_iff.mp hname with
    ⟨-, rfl, hm⟩ | ⟨target, hlink, hjumps⟩ | ⟨entry, hentry, hother, hon⟩
  · obtain rfl := Place.free.inj hm
    rw [followName_entry (entryAt?_change_self _ _ _) (by simp)]
    rfl
  · split at hjumps
    · exact absurd hjumps (by simp)
    · rw [followName_link (hsome _ _ hlink) fun hend => absurd hend.2 (by decide)]
      exact hjump _ _ _ hjumps
  · rw [followName_entry (hsome _ _ hentry) hother]
    exact hrest hon

/-- A path stands for a directory that nothing stands in. -/
def IsEmptyDir (fs : FileSystem) (path : String) : Prop :=
  ∃ d, fs.locate path = .ok d ∧ fs.entryAt? d = some .directory ∧
    ∀ n, fs.entryAt? (d ++ [n]) = none

/-- No name that is joined to the path of an empty directory stands for anything. -/
theorem IsEmptyDir.locate_join_ne (h : fs.IsEmptyDir path) (hn : IsName n) :
    fs.locate (join path n) ≠ .ok l := by
  obtain ⟨d, hd, hdir, hempty⟩ := h
  intro hlocate
  have hfault : pathFault? (join path n) = none := by
    rw [locate_eq_ok_iff, resolve] at hlocate
    split at hlocate
    · exact absurd hlocate (by simp)
    · assumption
  have hlink : ∀ target, fs.entryAt? (d ++ [n]) ≠ some (.link target) := by
    intro target hlink
    exact absurd ((hempty n).symm.trans hlink) (by simp)
  obtain ⟨rfl, hsome⟩ := (locate_join_eq_ok_iff hd hdir hn hfault hlink).mp hlocate
  exact hsome (hempty n)

/-- A directory that is made is empty. -/
theorem Nested.isEmptyDir_of_makeDirectory (h : fs.Nested) (hn : IsName n)
    (hmake : fs.makeDirectory (join path n) = .ok fs') : fs'.IsEmptyDir (join path n) := by
  rw [makeDirectory, withoutEndSlashes_join path hn] at hmake
  split at hmake
  · exact absurd hmake (by simp)
  · exact absurd hmake (by simp)
  rename_i m hresolve
  obtain rfl := Except.ok.inj hmake
  obtain ⟨hnone, -⟩ := h.fair_resolve hresolve
  refine ⟨m, ?_, entryAt?_change_self fs m _, fun k => ?_⟩
  · rw [locate_eq_ok_iff]
    exact (carriesOver_of_directory hnone).resolve (working_change _ _ _) hresolve
  · rw [entryAt?_change_of_ne _ (by simp)]
    by_contra hsome
    exact absurd (hnone.symm.trans (h m k hsome)) (by simp)

/-- **The last directory that is made on a way down is empty**, if nothing is made above the way. -/
theorem Nested.isEmptyDir_of_makeDirectories (h : fs.Nested) {names : List String}
    (hne : names ≠ []) (hnames : ∀ n ∈ names, IsName n)
    (habove : ∀ g, fs.makeDirectoriesOf (ancestors (bare path)) = (.ok (), g) → g = fs)
    (hmake : fs.makeDirectories (names.foldl join path) = (.ok (), fs')) :
    fs' = fs ∧ fs.isDirectory (names.foldl join path) = true ∨
      fs'.IsEmptyDir (names.foldl join path) := by
  induction names using List.reverseRecOn generalizing fs' with
  | nil => exact absurd rfl hne
  | append_singleton names n ih =>
    rw [List.forall_mem_append, List.forall_mem_singleton] at hnames
    obtain ⟨hnames, hn⟩ := hnames
    rw [List.foldl_concat] at hmake ⊢
    rw [makeDirectories, ancestors_join _ hn] at hmake
    rcases made_of_makeDirectoriesOf (join_ne_empty _ hn) hmake with
      (hmade | hmade) | ⟨-, g, hg, hmade⟩
    · exact Or.inr (h.isEmptyDir_of_makeDirectory hn hmade)
    · exact Or.inl hmade
    have hgrows : Grows (fun _ => False) fs (fs.makeDirectoriesOf
        (ancestors (bare (names.foldl join path)))).2 := h.grows_makeDirectoriesOf _
    rw [hg] at hgrows
    -- nothing was made in front, or the directory in front is empty
    have hfront : g = fs ∨ g.IsEmptyDir (names.foldl join path) := by
      by_cases hnil : names = []
      · rw [hnil] at hg
        exact Or.inl (habove g hg)
      · rw [bare_foldl_join _ hnil hnames, ← makeDirectories] at hg
        exact (ih hnil hnames hg).imp And.left id
    rcases hmade with hmade | ⟨rfl, hmade⟩
    · exact Or.inr (hgrows.nested.isEmptyDir_of_makeDirectory hn hmade)
    · rcases hfront with rfl | hempty
      · exact Or.inl ⟨rfl, hmade⟩
      · obtain ⟨l, hl, -⟩ := isDirectory_iff_standsFor.mp hmade
        exact absurd hl (hempty.locate_join_ne hn)

end ComponentStories.FileSystem
