import ComponentStories.Proofs.FileSystem.Change

/-
# File systems that grow

Writing files and making directories lets a file system grow: directories and links stay what they
are, and files stay files.  Links may be anywhere, it is enough that everything stands in a
directory (`Nested`).  So a path that stands for something goes on standing for the same location
(`Grows.locate`), a path that is written at stands afterwards for what is written
(`Nested.exists_of_writeFile`, `Nested.holds_write`), and every file that is new or changed holds
what was written (`Grows.old`).
-/

namespace ComponentStories.FileSystem

open ComponentStories.Path

/-- Everything stands in a directory. -/
def Nested (fs : FileSystem) : Prop :=
  ∀ l n, fs.entryAt? (l ++ [n]) ≠ none → fs.entryAt? l = some .directory

/-- A file system is nested if all its items stand in a directory. -/
theorem nested_of_forall_items {fs : FileSystem}
    (h : ∀ e ∈ fs.items, e.1 ≠ [] → fs.entryAt? e.1.dropLast = some .directory) : fs.Nested := by
  intro l n hsome
  obtain ⟨entry, hentry⟩ := Option.ne_none_iff_exists'.mp hsome
  obtain ⟨item, hitem, -⟩ := Option.map_eq_some_iff.mp hentry
  have hdir := h _ (mem_of_getSorted? hitem) (List.concat_ne_nil _ _)
  rwa [List.dropLast_concat] at hdir

/-- A nested file system that another one has grown to by writing contents of some kind. -/
structure Grows (written : Content → Prop) (fs fs' : FileSystem) : Prop where
  /-- Everything stands in a directory. -/
  nested : fs'.Nested
  /-- The working directory is the same. -/
  working : fs'.working = fs.working
  /-- Directories stay. -/
  directory : ∀ l, fs.entryAt? l = some .directory → fs'.entryAt? l = some .directory
  /-- Links stay. -/
  link : ∀ l target, fs.entryAt? l = some (.link target) → fs'.entryAt? l = some (.link target)
  /-- Files stay files. -/
  file : ∀ l content, fs.entryAt? l = some (.file content) →
    ∃ content', fs'.entryAt? l = some (.file content')
  /-- A file holds what it held before or what was written. -/
  old : ∀ l content, fs'.entryAt? l = some (.file content) →
    fs.entryAt? l = some (.file content) ∨ written content

variable {fs fs' fs'' : FileSystem} {l m d : Location} {n : String} {ps : List String}
  {purpose : Purpose} {written written' : Content → Prop} {content : Content}

theorem Grows.refl (h : fs.Nested) : Grows written fs fs :=
  ⟨h, rfl, fun _ h => h, fun _ _ h => h, fun _ content h => ⟨content, h⟩, fun _ _ h => Or.inl h⟩

/-- What has grown goes on growing. -/
theorem Grows.trans (h : Grows written fs fs') (h' : Grows written fs' fs'') :
    Grows written fs fs'' where
  nested := h'.nested
  working := h'.working.trans h.working
  directory l hl := h'.directory l (h.directory l hl)
  link l target hl := h'.link l target (h.link l target hl)
  file l content hl := by
    obtain ⟨content', hl'⟩ := h.file l content hl
    exact h'.file l content' hl'
  old l content hl := (h'.old l content hl).elim (h.old l content) Or.inr

theorem Grows.mono (h : Grows written fs fs')
    (hle : ∀ content, written content → written' content) :
    Grows written' fs fs' :=
  ⟨h.nested, h.working, h.directory, h.link, h.file,
    fun l content hl => (h.old l content hl).imp id (hle content)⟩

/-! ## Paths that stand for something -/

/-- Where something is when the file system has grown: at a taken place, or at a free one
where there is a file now. -/
def FilledBy (fs' : FileSystem) (m : Location) : Place → Prop
  | .taken l => l = m
  | .free l => l = m ∧ ∃ content, fs'.entryAt? m = some (.file content)

/-- What leads to a place leads to what is there after the file system has grown, also if
a file was to be created. -/
theorem Grows.carriesOver (h : Grows written fs fs') {place : Place} (hplace : fs'.FilledBy m place)
    (hentry : purpose ≠ .entry) : CarriesOver fs fs' purpose .reach place (.taken m) where
  directory := h.directory
  create hcreate := absurd hcreate (by decide)
  done l hl := by
    subst hl
    exact congrArg Place.taken (Eq.symm hplace)
  name l n rest hjump hrest hname := by
    rcases followName_eq_ok_iff.mp hname with
      ⟨-, rfl, rfl⟩ | ⟨target, hlink, hjumps⟩ | ⟨entry, hold, hother, hon⟩
    · -- the place was free, and now there is a file
      obtain ⟨rfl, content, hnew⟩ := hplace
      rw [followName_entry hnew (by simp)]
      rfl
    · rw [if_neg fun hend => hentry hend.2] at hjumps
      rw [followName_link (h.link _ target hlink) fun hend => absurd hend.2 (by decide)]
      exact hjump _ _ _ hjumps
    · cases entry with
      | file old =>
        obtain ⟨new, hnew⟩ := h.file _ old hold
        rw [followName_entry hnew (by simp)]
        exact hrest hon
      | directory =>
        rw [followName_entry (h.directory _ hold) (by simp)]
        exact hrest hon
      | link target => exact absurd rfl (hother target)

/-- What a path stood for, or was to be created for, is there when the file system has grown. -/
theorem Grows.locate_of_resolve (h : Grows written fs fs') {place : Place}
    (hplace : fs'.FilledBy m place) (hentry : purpose ≠ .entry) {path : String}
    (hresolve : fs.resolve purpose path = .ok place) : fs'.locate path = .ok m :=
  locate_eq_ok_iff.mpr ((h.carriesOver hplace hentry).resolve h.working hresolve)

/-- **A path goes on standing for the same location** when the file system grows. -/
theorem Grows.locate (h : Grows written fs fs') {path : String} (hlocate : fs.locate path = .ok l) :
    fs'.locate path = .ok l := by
  have hplace : fs'.FilledBy l (.taken l) := rfl
  exact h.locate_of_resolve hplace (by decide) (locate_eq_ok_iff.mp hlocate)

/-- **A path goes on standing for something** when the file system grows. -/
theorem Grows.holds (h : Grows written fs fs') {path : String} (hholds : fs.holds path = true) :
    fs'.holds path = true := by
  obtain ⟨l, hlocate, hsome⟩ := holds_iff.mp hholds
  refine holds_iff.mpr ⟨l, h.locate hlocate, ?_⟩
  obtain ⟨entry, hentry⟩ := Option.ne_none_iff_exists'.mp hsome
  cases entry with
  | file old =>
    obtain ⟨new, hnew⟩ := h.file l old hentry
    exact hnew.trans_ne (Option.some_ne_none _)
  | directory => exact (h.directory l hentry).trans_ne (Option.some_ne_none _)
  | link target => exact (h.link l target hentry).trans_ne (Option.some_ne_none _)

/-! ## Places -/

/-- What is known of a place in a nested file system: a free one is a name in a directory, and there
is something at a taken one, a link only if links at the end are not followed. -/
def Fair (fs : FileSystem) (purpose : Purpose) : Place → Prop
  | .free m => fs.entryAt? m = none ∧ ∃ d n, m = d ++ [n] ∧ fs.entryAt? d = some .directory
  | .taken m => fs.entryAt? m ≠ none ∧
      (purpose ≠ .entry → ∀ target, fs.entryAt? m ≠ some (.link target))

theorem fair_of_directory (h : fs.entryAt? l = some .directory) : fs.Fair purpose (.taken l) :=
  ⟨h.trans_ne (Option.some_ne_none _), fun _ target => h.trans_ne (by simp)⟩

/-- Pieces lead to a fair place, if links do, and if there is a piece or the place
at the beginning is fair. -/
theorem Nested.fair_followWith (h : fs.Nested) {place : Place}
    {jump : Location → String → List String → Except IoError Place}
    (hjump : ∀ l target rest, jump l target rest = .ok place → fs.Fair purpose place)
    (hbegin : ps = [] → fs.Fair purpose (.taken l))
    (hfollow : FileSystem.followWith fs purpose jump l ps = .ok place) :
    fs.Fair purpose place := by
  induction ps generalizing l with
  | nil =>
    obtain rfl : .taken l = place := Except.ok.inj hfollow
    exact hbegin rfl
  | cons piece rest ih =>
    obtain ⟨hl, ⟨-, hrest⟩ | ⟨-, hrest⟩ | ⟨-, hname⟩⟩ := followWith_cons_eq_ok_iff.mp hfollow
    · exact ih (fun _ => fair_of_directory hl) hrest
    · -- the directory above is one as well
      have habove : fs.entryAt? l.dropLast = some .directory := by
        rcases List.eq_nil_or_concat' l with rfl | ⟨above, name, rfl⟩
        · exact hl
        · rw [List.dropLast_concat]
          exact h above name (hl.trans_ne (Option.some_ne_none _))
      exact ih (fun _ => fair_of_directory habove) hrest
    rcases followName_eq_ok_iff.mp hname with
      ⟨hnone, -, rfl⟩ | ⟨target, hlink, hjumps⟩ | ⟨entry, hentry, hother, hon⟩
    · exact ⟨hnone, l, piece, rfl, hl⟩
    · split at hjumps
      · rename_i hend
        rw [hjumps]
        exact ⟨hlink.trans_ne (Option.some_ne_none _), fun hne => absurd hend.2 hne⟩
      · exact hjump _ _ _ hjumps
    · refine ih (fun _ => ⟨hentry.trans_ne (Option.some_ne_none _), fun _ target hlink => ?_⟩) hon
      exact hother target (Option.some.inj (hentry.symm.trans hlink))

theorem pieces_ne_nil (path : String) : pieces path ≠ [] := by
  rw [pieces, ne_eq, List.map_eq_nil_iff]
  exact Text.splitAt_ne_nil _

/-- **A path leads to a fair place.** -/
theorem Nested.fair_resolve (h : fs.Nested) {path : String} {place : Place}
    (hresolve : fs.resolve purpose path = .ok place) : fs.Fair purpose place := by
  have hfollow : ∀ k l ps, ps ≠ [] → fs.follow purpose k l ps = .ok place →
      fs.Fair purpose place := by
    intro k
    induction k with
    | zero =>
      intro l ps hne
      exact h.fair_followWith (fun _ _ _ h => absurd h (by simp)) fun hnil => absurd hnil hne
    | succ k ih =>
      intro l ps hne
      refine h.fair_followWith (fun l target rest => ih _ _ ?_) fun hnil => absurd hnil hne
      exact List.append_ne_nil_of_left_ne_nil (pieces_ne_nil target) _
  rw [resolve] at hresolve
  split at hresolve
  · exact absurd hresolve (by simp)
  · exact hfollow _ _ _ (pieces_ne_nil path) hresolve

/-! ## Changes -/

/-- **A file system grows** by a directory at a free place and by a file at a free place
or in the place of a file. -/
theorem Nested.grows_change (h : fs.Nested) {entry : Entry}
    (hnew : fs.entryAt? l = none ∧ (∃ d n, l = d ++ [n] ∧ fs.entryAt? d = some .directory) ∨
      ∃ content, fs.entryAt? l = some (.file content))
    (hentry : entry = .directory ∧ fs.entryAt? l = none ∨
      ∃ content, entry = .file content ∧ written content) :
    Grows written fs (fs.change l entry) := by
  -- what is no file is somewhere else
  have hne : ∀ m entry', fs.entryAt? m = some entry' → (∀ content, entry' ≠ .file content) →
      l ≠ m := by
    rintro m entry' hm hfile rfl
    rcases hnew with ⟨hnone, -⟩ | ⟨content, hcontent⟩
    · exact absurd (hnone.symm.trans hm) (by simp)
    · exact hfile content (Option.some.inj (hm.symm.trans hcontent))
  have hdirectory : ∀ m, fs.entryAt? m = some .directory →
      (fs.change l entry).entryAt? m = some .directory := by
    intro m hm
    rwa [entryAt?_change_of_ne _ (hne m .directory hm (by simp))]
  refine ⟨?_, working_change _ _ _, hdirectory, ?_, ?_, ?_⟩
  · intro m n hsome
    apply hdirectory
    rw [entryAt?_change] at hsome
    split at hsome
    · rename_i heq
      rcases hnew with ⟨-, d, n', hl, hd⟩ | ⟨content, hfile⟩
      · obtain rfl : d = m := (List.append_singleton_inj.mp (hl.symm.trans heq)).1
        exact hd
      · rw [heq] at hfile
        exact h m n (hfile.trans_ne (Option.some_ne_none _))
    · exact h m n hsome
  · intro m target hm
    rwa [entryAt?_change_of_ne _ (hne m (.link target) hm (by simp))]
  · intro m content hm
    rw [entryAt?_change]
    split
    · rename_i heq
      rcases hentry with ⟨-, hnone⟩ | ⟨content', rfl, -⟩
      · rw [← heq, hnone] at hm
        exact absurd hm (by simp)
      · exact ⟨content', rfl⟩
    · exact ⟨content, hm⟩
  · intro m content hm
    rw [entryAt?_change] at hm
    split at hm
    · right
      rcases hentry with ⟨rfl, -⟩ | ⟨content', rfl, hwritten⟩
      · exact absurd hm (by simp)
      · obtain rfl : content' = content := Entry.file.inj (Option.some.inj hm)
        exact hwritten
    · exact Or.inl hm

/-- A file system grows by a file that is written. -/
theorem Nested.grows_writeFile (h : fs.Nested) {path : String}
    (hwrite : fs.writeFile path content = .ok fs') : Grows (· = content) fs fs' := by
  rw [writeFile] at hwrite
  split at hwrite
  · exact absurd hwrite (by simp)
  · rename_i m hresolve
    obtain rfl := Except.ok.inj hwrite
    exact h.grows_change (Or.inl (h.fair_resolve hresolve)) (Or.inr ⟨content, rfl, rfl⟩)
  · rename_i m hresolve
    obtain ⟨hsome, hlink⟩ := h.fair_resolve hresolve
    split at hwrite
    · exact absurd hwrite (by simp)
    · rename_i hdirectory
      obtain rfl := Except.ok.inj hwrite
      refine h.grows_change (Or.inr ?_) (Or.inr ⟨content, rfl, rfl⟩)
      cases hentry : fs.entryAt? m with
      | none => exact absurd hentry hsome
      | some entry =>
        cases entry with
        | file old => exact ⟨old, rfl⟩
        | directory => exact absurd hentry hdirectory
        | link target => exact absurd hentry (hlink (by decide) target)

/-- **What writing a file does**: it stands afterwards where the path leads.  Before, nothing was
there, or a file that the path stood for. -/
theorem Nested.exists_of_writeFile (h : fs.Nested) {path : String}
    (hwrite : fs.writeFile path content = .ok fs') :
    ∃ m, fs' = fs.change m (.file content) ∧ fs'.locate path = .ok m ∧
      (fs.Fair .create (.free m) ∨ fs.locate path = .ok m ∧ fs.entryAt? m ≠ none) := by
  have hgrows : Grows (· = content) fs fs' := h.grows_writeFile hwrite
  rw [writeFile] at hwrite
  split at hwrite
  · exact absurd hwrite (by simp)
  · rename_i m hresolve
    obtain rfl := Except.ok.inj hwrite
    have hplace : (fs.change m (.file content)).FilledBy m (.free m) :=
      ⟨rfl, content, entryAt?_change_self _ _ _⟩
    exact ⟨m, rfl, hgrows.locate_of_resolve hplace (by decide) hresolve,
      Or.inl (h.fair_resolve hresolve)⟩
  · rename_i m hresolve
    have hplace : ∀ g : FileSystem, g.FilledBy m (.taken m) := fun _ => rfl
    split at hwrite
    · exact absurd hwrite (by simp)
    · obtain rfl := Except.ok.inj hwrite
      refine ⟨m, rfl, hgrows.locate_of_resolve (hplace _) (by decide) hresolve, Or.inr ⟨?_, ?_⟩⟩
      · have hrefl : Grows (· = content) fs fs := .refl h
        exact hrefl.locate_of_resolve (hplace _) (by decide) hresolve
      · exact (h.fair_resolve hresolve).1

/-- A path that a file is written at stands for something afterwards. -/
theorem Nested.holds_of_writeFile (h : fs.Nested) {path : String}
    (hwrite : fs.writeFile path content = .ok fs') : fs'.holds path = true := by
  obtain ⟨m, rfl, hlocate, -⟩ := h.exists_of_writeFile hwrite
  exact holds_iff.mpr ⟨m, hlocate, (entryAt?_change_self fs m _).trans_ne (Option.some_ne_none _)⟩

/-- A file system grows by a directory that is made. -/
theorem Nested.grows_makeDirectory (h : fs.Nested) {path : String}
    (hmake : fs.makeDirectory path = .ok fs') : Grows written fs fs' := by
  rw [makeDirectory] at hmake
  split at hmake
  · exact absurd hmake (by simp)
  · exact absurd hmake (by simp)
  · rename_i m hresolve
    obtain rfl := Except.ok.inj hmake
    have hfair := h.fair_resolve hresolve
    exact h.grows_change (Or.inl hfair) (Or.inl ⟨rfl, hfair.1⟩)

/-- A file system grows by directories that are made. -/
theorem Nested.grows_makeDirectoriesOf (h : fs.Nested) (paths : List String) :
    Grows written fs (fs.makeDirectoriesOf paths).2 := by
  induction paths generalizing fs with
  | nil => exact .refl h
  | cons path above ih =>
    rw [makeDirectoriesOf]
    split
    · exact .refl h
    split
    · exact h.grows_makeDirectory ‹_›
    · have habove := ih h
      split
      · rename_i e fs₁ heq
        rwa [heq] at habove
      · rename_i fs₁ heq
        rw [heq] at habove
        split
        · exact habove.trans (habove.nested.grows_makeDirectory ‹_›)
        · exact habove
    · exact .refl h

/-- A file system grows by the directories above a path that are made. -/
theorem Nested.grows_makeParents (h : fs.Nested) (path : String) :
    Grows written fs (fs.makeParents path).2 := by
  rw [makeParents]
  split
  · exact h.grows_makeDirectoriesOf _
  · exact .refl h

/-- **A file system grows by what is written**, and by nothing but directories if writing fails. -/
theorem Nested.grows_write (h : fs.Nested) (path : String) (content : Content) :
    Grows (fun c => (fs.write path content).1 = .ok () ∧ c = content) fs
      (fs.write path content).2 := by
  rw [write, withParents]
  have hparents : Grows (fun _ => False) fs (fs.makeParents path).2 := h.grows_makeParents path
  split
  · rename_i e fs₁ heq
    rw [heq] at hparents
    exact hparents.mono fun _ hfalse => hfalse.elim
  · rename_i fs₁ heq
    rw [heq] at hparents
    rw [attempt]
    split
    · rename_i fs₂ hfile
      refine Grows.trans (hparents.mono fun _ hfalse => hfalse.elim) ?_
      exact (hparents.nested.grows_writeFile hfile).mono fun _ hc => ⟨rfl, hc⟩
    · exact hparents.mono fun _ hfalse => hfalse.elim

/-- **A path that is written at stands for something afterwards.** -/
theorem Nested.holds_write (h : fs.Nested) {path : String}
    (hwrite : fs.write path content = (.ok (), fs')) : fs'.holds path = true := by
  rw [write, withParents] at hwrite
  have hparents : Grows (fun _ => False) fs (fs.makeParents path).2 := h.grows_makeParents path
  split at hwrite
  · exact absurd hwrite (by simp)
  · rename_i fs₁ heq
    rw [heq] at hparents
    rw [attempt] at hwrite
    split at hwrite
    · rename_i fs₂ hfile
      obtain rfl := (Prod.mk.inj hwrite).2
      exact hparents.nested.holds_of_writeFile hfile
    · exact absurd hwrite (by simp)

end ComponentStories.FileSystem
