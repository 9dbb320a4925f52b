import ComponentStories.FileSystem.Listing
import ComponentStories.Proofs.Command.Run
import ComponentStories.Proofs.FileSystem.Untouched

/-
# Scaffolding keeps what is there

Scaffolding writes two files and makes the directories above the second.  Each step leaves alone
what it does not write (`Writes`), so no file that is there changes unless files are to be
overwritten, and then none but those that the two paths stand for.  When it succeeds both paths
stand for something, and then it does nothing more (`session_scaffold`).
-/

namespace ComponentStories.Scaffold

open ComponentStories.Path FileSystem

variable {fs : FileSystem} {overwrite : Bool} {path name text : String} {l : Location}

/-! ## Steps -/

theorem files_thenDo (a : Step) (next : FileSystem → Step) :
    (a.thenDo next).files = if a.failure = none then (next a.files).files else a.files := by
  rw [Step.thenDo]
  cases a.failure <;> simp

theorem failure_thenDo_eq_none_iff (a : Step) (next : FileSystem → Step) :
    (a.thenDo next).failure = none ↔ a.failure = none ∧ (next a.files).failure = none := by
  rw [Step.thenDo]
  cases h : a.failure <;> simp [h]

/-- A step that writes a text at a path, unless something is there that is to be kept. -/
structure Writes (path text : String) (overwrite : Bool) (fs : FileSystem) (s : Step) : Prop where
  /-- Nothing but the text is written. -/
  grows : Grows (· = .text text) fs s.files
  /-- A file changes only if the path stands for it and files are to be overwritten. -/
  keeps : ∀ l, fs.KeepsFile s.files l ∨ overwrite = true ∧ fs.locate path = .ok l
  /-- At most one file is different, and the path stands for it afterwards.  If something was there
  before, the path stood for it. -/
  one : s.files = fs ∨ ∃ m, s.files = fs.change m (.file (.text text)) ∧
    s.files.locate path = .ok m ∧ (fs.entryAt? m = none ∨ fs.locate path = .ok m)
  /-- If it succeeds the path stands for something. -/
  holds : s.failure = none → s.files.holds path = true

/-- **A file is written unless something is there that is to be kept.** -/
theorem writes_of_nested (h : fs.Nested) (path name text : String) (overwrite : Bool)
    (log : List Record) : Writes path text overwrite fs
      (if !fs.holds path || overwrite then writeStep path name text fs else ⟨log, none, fs⟩) := by
  by_cases hdo : (!fs.holds path || overwrite) = true
  · rw [if_pos hdo, writeStep]
    cases hwrite : fs.writeFile path (.text text) with
    | error e =>
      exact ⟨.refl h, fun l => Or.inl (.refl fs l), Or.inl rfl, fun hnone => absurd hnone (by simp)⟩
    | ok fs' =>
      refine ⟨h.grows_writeFile hwrite, fun l => ?_, Or.inr ?_, fun _ =>
        h.holds_of_writeFile hwrite⟩
      · refine (h.keepsFile_writeFile hwrite l).imp id fun ⟨hlocate, hholds⟩ => ⟨?_, hlocate⟩
        rwa [hholds, Bool.not_true, Bool.false_or] at hdo
      · obtain ⟨m, rfl, hlocate, hbefore⟩ := h.exists_of_writeFile hwrite
        exact ⟨m, rfl, hlocate, hbefore.imp And.left And.left⟩
  · rw [if_neg hdo]
    rw [Bool.or_eq_true, not_or, Bool.not_eq_true', Bool.not_eq_false] at hdo
    exact ⟨.refl h, fun l => Or.inl (.refl fs l), Or.inl rfl, fun _ => hdo.1⟩

theorem writes_configStep (h : fs.Nested) (overwrite : Bool) :
    Writes configPath configText overwrite fs (configStep overwrite fs) :=
  writes_of_nested h configPath _ configText overwrite _

theorem writes_previewStep (h : fs.Nested) (overwrite : Bool) :
    Writes previewPath previewText overwrite fs (previewStep overwrite fs) :=
  writes_of_nested h previewPath _ previewText overwrite []

/-- A file that is new or changed is one that the path stands for. -/
theorem Writes.located {s : Step} (h : Writes path text overwrite fs s) {content : Content}
    (hl : s.files.entryAt? l = some (.file content)) :
    fs.entryAt? l = some (.file content) ∨ s.files.locate path = .ok l := by
  rcases h.one with heq | ⟨m, heq, hlocate, -⟩
  · rw [heq] at hl
    exact Or.inl hl
  · by_cases hml : m = l
    · rw [hml] at hlocate
      exact Or.inr hlocate
    · rw [heq, entryAt?_change_of_ne _ hml] at hl
      exact Or.inl hl

/-- What a path stands for behind the step it stood for before, unless the step wrote a new file
there or a file that its own path stood for. -/
theorem Writes.locate_before {s : Step} (h : Writes path text overwrite fs s) {other : String}
    (hother : s.files.locate other = .ok l) :
    fs.locate other = .ok l ∨ fs.entryAt? l = none ∨ fs.locate path = .ok l := by
  rcases h.one with heq | ⟨m, heq, -, hbefore⟩
  · rw [heq] at hother
    exact Or.inl hother
  · by_cases hlm : l = m
    · rw [hlm]
      exact Or.inr hbefore
    · rw [heq] at hother
      exact Or.inl (locate_of_change hlm hother)

/-! ## The directories -/

/-- No directories are made above the working directory. -/
theorem makeDirectoriesOf_above {made : Except IoError Unit} {g : FileSystem}
    (h : fs.makeDirectoriesOf (ancestors (bare ".")) = (made, g)) : g = fs := by
  have hancestors : ancestors (bare ".") = [".", ""] := by decide
  have hpieces : pieces "." = ["."] := by decide
  have hfault : pathFault? "." = none := by
    rw [pathFault?_eq_none_iff]
    decide
  have hslashes : withoutEndSlashes "." = "." := by decide
  -- the working directory is there, or cannot be reached
  obtain ⟨e, hmake, hne⟩ : ∃ e, fs.makeDirectory "." = .error e ∧ e ≠ .notFound := by
    obtain ⟨jump, hjump⟩ := fs.exists_follow_eq .entry linkLimit
    rw [makeDirectory, hslashes, resolve, hfault, hjump, hpieces]
    by_cases hdir : fs.entryAt? (start "." fs.working) = some .directory
    · rw [followWith_stay hdir (Or.inr rfl), followWith]
      exact ⟨_, rfl, by simp⟩
    · rw [followWith, if_pos hdir]
      exact ⟨_, rfl, by simp⟩
  rw [hancestors, makeDirectoriesOf, hmake, if_neg (by decide)] at h
  cases e <;> first
    | exact absurd rfl hne
    | exact (Prod.mk.inj h).2.symm

theorem previewDir_eq : previewDir = ["storybook", ".storybook"].foldl join "." := by decide

theorem previewPath_eq : previewPath = join previewDir "main.js" := by decide

/-- Making the directories leaves files and what is there alone; if it succeeds nothing was to be
made, or the directory is empty. -/
theorem directoryStep_spec (h : fs.Nested) : Grows (fun _ => False) fs (directoryStep fs).files ∧
    (∀ l, fs.KeepsFile (directoryStep fs).files l) ∧
    ((directoryStep fs).failure = none →
      (directoryStep fs).files = fs ∨ (directoryStep fs).files.IsEmptyDir previewDir) := by
  have hgrows : Grows (fun _ => False) fs (fs.makeDirectories previewDir).2 :=
    h.grows_makeDirectoriesOf _
  have hkeeps := h.keepsFile_makeDirectoriesOf (ancestors previewDir)
  rw [← makeDirectories] at hkeeps
  rw [directoryStep]
  split
  · exact ⟨.refl h, .refl fs, fun _ => Or.inl rfl⟩
  · split
    · rename_i g hmake
      rw [hmake] at hgrows hkeeps
      refine ⟨hgrows, hkeeps, fun _ => ?_⟩
      rw [previewDir_eq] at hmake ⊢
      exact (h.isEmptyDir_of_makeDirectories (List.cons_ne_nil _ _) (by decide)
        (fun _ => makeDirectoriesOf_above) hmake).imp And.left id
    · rename_i e g hmake
      rw [hmake] at hgrows hkeeps
      exact ⟨hgrows, hkeeps, fun hnone => absurd hnone (by simp)⟩

/-! ## All steps -/

/-- What scaffolding writes. -/
def IsWritten (content : Content) : Prop :=
  content = .text configText ∨ content = .text previewText

/-- What is left of a file system while it is scaffolded. -/
structure Leaves (overwrite : Bool) (fs g : FileSystem) : Prop where
  /-- Directories and links stay, and no file is new or changed but by the two texts. -/
  grows : Grows IsWritten fs g
  /-- A file keeps its content and its time, unless files are to be overwritten and one of
  the two paths stands for it. -/
  keeps : ∀ l, fs.KeepsFile g l ∨
    overwrite = true ∧ (fs.locate configPath = .ok l ∨ fs.locate previewPath = .ok l)
  /-- A file that is new or changed is one that one of the two paths stands for. -/
  located : ∀ l content, g.entryAt? l = some (.file content) →
    fs.entryAt? l = some (.file content) ∨ g.locate configPath = .ok l ∨
      g.locate previewPath = .ok l

variable {g : FileSystem}

/-- The first step leaves what it should. -/
theorem leaves_configStep (h : fs.Nested) (overwrite : Bool) :
    Leaves overwrite fs (configStep overwrite fs).files := by
  have hwrites := writes_configStep h overwrite
  refine ⟨hwrites.grows.mono fun _ => Or.inl, fun l => ?_, fun l content hl => ?_⟩
  · exact (hwrites.keeps l).imp id (And.imp_right Or.inl)
  · exact (hwrites.located hl).imp id Or.inl

/-- The second step leaves what it should. -/
theorem Leaves.directoryStep (h : Leaves overwrite fs g) :
    Leaves overwrite fs (directoryStep g).files := by
  obtain ⟨hgrows, hkeeps, -⟩ := directoryStep_spec h.grows.nested
  refine ⟨h.grows.trans (hgrows.mono fun _ => False.elim), fun l => ?_, fun l content hl => ?_⟩
  · exact (h.keeps l).imp (fun hl => hl.trans (hkeeps l)) id
  · refine (h.located l content ((hgrows.old l content hl).resolve_right id)).imp id ?_
    exact Or.imp hgrows.locate hgrows.locate

/-- The third step leaves what it should, if the second path stands for nothing that it did not
stand for at first, but for what the first step wrote. -/
theorem Leaves.previewStep (h : Leaves overwrite fs g)
    (hbefore : ∀ l, g.locate previewPath = .ok l →
      fs.locate previewPath = .ok l ∨ fs.entryAt? l = none ∨ fs.locate configPath = .ok l) :
    Leaves overwrite fs (previewStep overwrite g).files := by
  have hwrites := writes_previewStep h.grows.nested overwrite
  refine ⟨h.grows.trans (hwrites.grows.mono fun _ => Or.inr), fun l => ?_, fun l content hl => ?_⟩
  · rcases h.keeps l with hkeeps | hkeeps
    · rcases hwrites.keeps l with hkeeps' | ⟨hoverwrite, hlocate⟩
      · exact Or.inl (hkeeps.trans hkeeps')
      · rcases hbefore l hlocate with hsame | hnone | hconfig
        · exact Or.inr ⟨hoverwrite, Or.inr hsame⟩
        · refine Or.inl (keepsFile_of_forall_ne fun content hfile => ?_)
          exact absurd (hnone.symm.trans hfile) (by simp)
        · exact Or.inr ⟨hoverwrite, Or.inl hconfig⟩
    · exact Or.inr hkeeps
  · rcases hwrites.located hl with hl | hl
    · exact (h.located l content hl).imp id (Or.imp hwrites.grows.locate hwrites.grows.locate)
    · exact Or.inr (Or.inr hl)

/-- **Scaffolding leaves what it should**, whether it succeeds or fails. -/
theorem leaves_run (h : fs.Nested) (overwrite : Bool) :
    Leaves overwrite fs (run overwrite fs).files := by
  have hconfig := leaves_configStep h overwrite
  have hdirectory := hconfig.directoryStep
  rw [run, files_thenDo, files_thenDo]
  by_cases hfailed : ((configStep overwrite fs).thenDo Scaffold.directoryStep).failure = none
  · obtain ⟨hfirst, hsecond⟩ := (failure_thenDo_eq_none_iff _ _).mp hfailed
    rw [if_pos hfailed, if_pos hfirst]
    refine hdirectory.previewStep fun l hl => ?_
    obtain ⟨-, -, hmade⟩ := directoryStep_spec hconfig.grows.nested
    rcases hmade hsecond with hsame | hempty
    · rw [hsame] at hl
      exact (writes_configStep h overwrite).locate_before hl
    · -- in a directory that has just been made the second path stands for nothing
      rw [previewPath_eq] at hl
      exact absurd hl (hempty.locate_join_ne (by decide))
  · rw [if_neg hfailed]
    split
    · exact hdirectory
    · exact hconfig

/-- **If scaffolding succeeds both paths stand for something.** -/
theorem holds_of_run (h : fs.Nested) (hrun : (run overwrite fs).failure = none) :
    (run overwrite fs).files.holds configPath = true ∧
      (run overwrite fs).files.holds previewPath = true := by
  rw [run, failure_thenDo_eq_none_iff, failure_thenDo_eq_none_iff, files_thenDo] at hrun
  obtain ⟨⟨hfirst, hsecond⟩, hthird⟩ := hrun
  rw [if_pos hfirst] at hthird
  have hboth : ((configStep overwrite fs).thenDo directoryStep).failure = none :=
    (failure_thenDo_eq_none_iff _ _).mpr ⟨hfirst, hsecond⟩
  rw [run, files_thenDo, files_thenDo, if_pos hboth, if_pos hfirst]
  have hconfig := writes_configStep h overwrite
  obtain ⟨hgrows, -, -⟩ := directoryStep_spec hconfig.grows.nested
  have hpreview := writes_previewStep hgrows.nested overwrite
  exact ⟨hpreview.grows.holds (hgrows.holds (hconfig.holds hfirst)), hpreview.holds hthird⟩

/-- The directory of the second path stands for something if the path does. -/
theorem holds_previewDir (h : fs.holds previewPath = true) : fs.holds previewDir = true := by
  obtain ⟨l, hlocate, -⟩ := holds_iff.mp h
  have hname : IsName "main.js" := by decide
  obtain ⟨d, hd, hdir⟩ := exists_locate_of_front previewDir (by decide) (by decide)
    (by rw [previewPath_eq, splitAt_join previewDir hname.isPiece]) (List.cons_ne_nil _ _)
    (locate_eq_ok_iff.mp hlocate)
  exact holds_iff.mpr ⟨d, hd, hdir.trans_ne (Option.some_ne_none _)⟩

/-- **Where both paths stand for something scaffolding does nothing**, unless
files are to be overwritten. -/
theorem run_of_holds (hconfig : fs.holds configPath = true)
    (hpreview : fs.holds previewPath = true) :
    (run false fs).files = fs ∧ (run false fs).failure = none := by
  have hdir := holds_previewDir hpreview
  simp [run, configStep, directoryStep, previewStep, Step.thenDo, Step.idle, hconfig, hpreview,
    hdir]

/-! ## The command -/

/-- **Scaffolding keeps what is there and comes to an end.**  Whatever files, directories and links
there are, links that lead nowhere among them: directories and links stay, and whether the command
succeeds or fails, every file keeps its content and its time; if files are to be overwritten, all do
but those that the two paths stood for.  What is new or changed is one of two texts, at a location
that one of the two paths stands for.  If the command succeeds both paths stand for something, and
the command, asked for again without overwriting, succeeds and leaves everything as it is. -/
theorem session_scaffold (h : fs.Nested) {args : List String} {config : String} {verbose : Bool}
    (hargs : Command.ofArguments args = .run ⟨config, verbose, .scaffold overwrite⟩) :
    Leaves overwrite fs (session args fs).files ∧
      (overwrite = false → ∀ l, fs.KeepsFile (session args fs).files l) ∧
      ((session args fs).status = 0 →
        (session args fs).files.holds configPath = true ∧
        (session args fs).files.holds previewPath = true ∧
        ∀ args' config' verbose',
          Command.ofArguments args' = .run ⟨config', verbose', .scaffold false⟩ →
          (session args' (session args fs).files).status = 0 ∧
            (session args' (session args fs).files).files = (session args fs).files) := by
  have hfiles : ∀ {args config verbose overwrite} (g : FileSystem),
      Command.ofArguments args = .run ⟨config, verbose, .scaffold overwrite⟩ →
      (session args g).files = (run overwrite g).files := by
    intro args config verbose overwrite g hargs
    rw [files_session, hargs]
    rfl
  have hstatus : ∀ {args config verbose overwrite} (g : FileSystem),
      Command.ofArguments args = .run ⟨config, verbose, .scaffold overwrite⟩ →
      ((session args g).status = 0 ↔ (run overwrite g).failure = none) :=
    fun g hargs => status_session_eq_zero_iff hargs
  have hleaves := leaves_run h overwrite
  rw [hstatus fs hargs, hfiles fs hargs]
  refine ⟨hleaves, fun hkeep l => ?_, fun hrun => ?_⟩
  · refine (hleaves.keeps l).resolve_right fun hoverwrite => ?_
    rw [hkeep] at hoverwrite
    exact absurd hoverwrite.1 (by decide)
  · obtain ⟨hconfig, hpreview⟩ := holds_of_run h hrun
    refine ⟨hconfig, hpreview, fun args' config' verbose' hargs' => ?_⟩
    rw [hstatus _ hargs', hfiles _ hargs']
    exact (run_of_holds hconfig hpreview).symm

/-- A link that leads nowhere at the first path, and a file behind a link at the second. -/
def linked : FileSystem := FileSystem.ofItems ["box"] [
  (["box", "stories.toml"], ⟨.link "conf/real.toml", 0⟩), (["box", "conf"], ⟨.directory, 0⟩),
  (["box", "storybook"], ⟨.link "../srv", 0⟩), (["srv"], ⟨.directory, 0⟩),
  (["srv", ".storybook"], ⟨.directory, 0⟩),
  (["srv", ".storybook", "main.js"], ⟨.file (.text "mine"), 0⟩)]

/-- The file behind the link is kept, and no other may be overwritten; the link that leads nowhere
comes to lead to a file. -/
theorem session_scaffold_linked :
    linked.Nested ∧ (session ["init"] linked).status = 0 ∧
    linked.KeepsFile (session ["init"] linked).files ["srv", ".storybook", "main.js"] ∧
    linked.holds configPath = false ∧ (session ["init"] linked).files.holds configPath = true ∧
    (session ["init"] (session ["init"] linked).files).files = (session ["init"] linked).files ∧
    ∀ l, l ≠ ["srv", ".storybook", "main.js"] →
      linked.KeepsFile (session ["init", "--yes"] linked).files l := by
  have hnested : linked.Nested := nested_of_forall_items (by decide +kernel)
  have hinit : Command.ofArguments ["init"] = .run ⟨"stories.toml", false, .scaffold false⟩ := by
    decide +kernel
  have hyes : Command.ofArguments ["init", "--yes"] =
      .run ⟨"stories.toml", false, .scaffold true⟩ := by decide +kernel
  have hstatus : (session ["init"] linked).status = 0 := by decide +kernel
  obtain ⟨-, hkeeps, hdone⟩ := session_scaffold hnested hinit
  obtain ⟨hholds, -, hagain⟩ := hdone hstatus
  obtain ⟨hleaves, -, -⟩ := session_scaffold hnested hyes
  refine ⟨hnested, hstatus, hkeeps rfl _, by decide +kernel, hholds, (hagain _ _ _ hinit).2,
    fun l hl => (hleaves.keeps l).resolve_right ?_⟩
  rintro ⟨-, hconfig | hpreview⟩
  · have hnowhere : linked.locate configPath = .error .notFound := by decide +kernel
    exact absurd (hnowhere.symm.trans hconfig) (by simp)
  · have hmain : linked.locate previewPath = .ok ["srv", ".storybook", "main.js"] := by
      decide +kernel
    exact hl (Except.ok.inj (hpreview.symm.trans hmain))

end ComponentStories.Scaffold
