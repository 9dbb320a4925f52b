import ComponentStories.Proofs.Command.Run
import ComponentStories.Proofs.Component.Outcomes
import ComponentStories.Proofs.Component.Schedule
import ComponentStories.Proofs.FileSystem.Grows

/-
# Templates that are there at the end

Work on a component that does not fail leaves something at the path of its template, unless the
component has no inputs: there was something before, or the document was written there.  Since a
file system only grows while templates are written, it stays there whatever else is done
(`Batch.Fulfilled`).  So a batch without failures leaves something at every such path
(`Batch.holds_of_reaches`), and so does the command for all components if the program ends with the
status of success (`holds_of_status_session`).
-/

namespace ComponentStories

open Component FileSystem

variable {settings : Settings} {force : Bool} {fs fs' : FileSystem} {c : Component}

/-! ## One component -/

/-- Something is at the path of a template that is up to date. -/
theorem Component.holds_of_planIn {σ : Type} [Store σ] {s : σ}
    (h : c.planIn settings force s = .upToDate) : Store.holds s c.templatePath = true := by
  rw [planIn, plan] at h
  split at h
  · split at h <;> cases h
  · rename_i hno
    simp only [Policy.shouldGenerate, Bool.or_eq_true, Bool.not_eq_true', not_or] at hno
    exact Bool.eq_true_of_not_eq_false hno.2

/-- A component for which nothing can be written has no inputs. -/
theorem Component.hasNoInputs_of_planIn {σ : Type} [Store σ] {s : σ}
    (h : c.planIn settings force s = .noInputs) : c.hasNoInputs = true := by
  rw [planIn, plan] at h
  split at h
  · split at h
    · cases h
    · exact document?_eq_none_iff.mp ‹_›
  · cases h

/-- What the work on a component has come to leaves something at the path of its template, if it has
inputs and does not fail. -/
def Phase.Fulfilled (fs : FileSystem) (c : Component) : Phase → Prop
  | waiting => True
  | planned .upToDate => fs.holds c.templatePath = true
  | planned .noInputs => c.hasNoInputs = true
  | planned (.write _) => True
  | finished a => (∃ outcome, a.result = .ok outcome) → c.hasNoInputs = false →
      fs.holds c.templatePath = true

/-- A file system that grows keeps what is there. -/
theorem Phase.Fulfilled.grows {written : Content → Prop} {phase : Phase}
    (h : phase.Fulfilled fs c) (hgrows : Grows written fs fs') : phase.Fulfilled fs' c := by
  cases phase with
  | waiting => trivial
  | planned plan =>
    cases plan with
    | upToDate => exact hgrows.holds h
    | noInputs => exact h
    | write text => trivial
  | finished a => exact fun hok hinputs => hgrows.holds (h hok hinputs)

/-- **One step of the work on a component** lets the file system grow and leaves something at
the path of the template. -/
theorem Phase.Fulfilled.next {phase : Phase} (h : phase.Fulfilled fs c) (hnested : fs.Nested)
    (settings : Settings) (force : Bool) :
    Grows (fun _ => True) fs (phase.next settings force c fs).2 ∧
      (phase.next settings force c fs).1.Fulfilled (phase.next settings force c fs).2 c := by
  cases phase with
  | waiting =>
    refine ⟨.refl hnested, ?_⟩
    rw [Phase.next]
    cases hplan : c.planIn settings force fs with
    | upToDate => exact holds_of_planIn hplan
    | noInputs => exact hasNoInputs_of_planIn hplan
    | write text => trivial
  | planned plan =>
    cases plan with
    | upToDate => exact ⟨.refl hnested, fun _ _ => h⟩
    | noInputs => exact ⟨.refl hnested, fun _ hinputs => absurd (hinputs.symm.trans h) (by simp)⟩
    | write text =>
      have hgrows : Grows (fun _ => True) fs (c.perform (.write text) fs).2 := by
        rw [snd_perform]
        exact (hnested.grows_write c.templatePath (.text text)).mono fun _ _ => trivial
      rw [Phase.next]
      dsimp only
      refine ⟨hgrows, ?_⟩
      rw [perform]
      split
      · rename_i hwrite
        exact fun _ _ => hnested.holds_write hwrite
      · rintro ⟨outcome, hok⟩ -
        cases hok
  | finished a => exact ⟨.refl hnested, h⟩

/-! ## Batches -/

namespace Batch

/-- A batch whose work leaves something at the path of every component with
inputs that does not fail. -/
structure Fulfilled (b : Batch FileSystem) : Prop where
  /-- Everything stands in a directory. -/
  nested : b.store.Nested
  /-- The work on each component leaves something at the path of its template. -/
  tasks : ∀ t ∈ b.tasks, t.2.Fulfilled b.store t.1

theorem fulfilled_start (hnested : fs.Nested) (r : Registry) : (start r fs).Fulfilled where
  nested := hnested
  tasks t ht := by
    obtain ⟨c, -, rfl⟩ := List.mem_map.mp ht
    trivial

/-- One step of a schedule leaves what is there, and something at the path of one component more. -/
theorem Fulfilled.advance {b : Batch FileSystem} (h : b.Fulfilled) (settings : Settings)
    (force : Bool) (i : Nat) : (b.advance settings force i).Fulfilled := by
  rw [Batch.advance]
  split
  · rename_i c phase htask
    obtain ⟨hgrows, hnext⟩ :=
      (h.tasks _ (List.mem_of_getElem? htask)).next h.nested settings force
    refine ⟨hgrows.nested, fun t ht => ?_⟩
    rcases List.mem_or_eq_of_mem_set ht with ht | rfl
    · exact (h.tasks t ht).grows hgrows
    · exact hnext
  · exact h

/-- **Whatever the schedule is**, the work leaves something at the path of every component with
inputs that does not fail. -/
theorem Fulfilled.run {b : Batch FileSystem} (h : b.Fulfilled) (settings : Settings) (force : Bool)
    (schedule : List Nat) : (b.run settings force schedule).Fulfilled := by
  induction schedule generalizing b with
  | nil => exact h
  | cons i schedule ih => exact ih (h.advance settings force i)

/-- **A batch that is finished without failures leaves something at the path of the template of
every component with inputs**, in whatever order its steps were made. -/
theorem holds_of_reaches (hnested : fs.Nested) {r : Registry} {b : Batch FileSystem}
    (hreach : Reaches settings force (start r fs) b) (hdone : b.IsDone)
    (hok : ∀ a ∈ b.attempts, ∃ outcome, a.result = .ok outcome) :
    ∀ c ∈ r.components, c.hasNoInputs = false → b.store.holds c.templatePath = true := by
  obtain ⟨schedule, rfl⟩ := reaches_iff.mp hreach
  intro c hc hinputs
  have hcomponents : ((start r fs).run settings force schedule).tasks.map Prod.fst =
      r.components := by
    rw [map_fst_run, start, List.map_map]
    exact List.map_id _
  rw [← hcomponents] at hc
  obtain ⟨⟨c', phase⟩, ht, rfl⟩ := List.mem_map.mp hc
  obtain ⟨a, ha⟩ := Option.isSome_iff_exists.mp (hdone _ ht)
  have hfinished : phase = .finished a := by
    cases phase <;> simp_all [Phase.attempt?]
  obtain rfl := hfinished
  exact ((fulfilled_start hnested r).run settings force schedule).tasks _ ht
    (hok a (List.mem_filterMap.mpr ⟨_, ht, rfl⟩)) hinputs

end Batch

/-- Generating the templates one after the other without failures leaves something at the path of
every component with inputs. -/
theorem Registry.holds_generateAll (hnested : fs.Nested) {r : Registry}
    (hok : ∀ a ∈ (r.generateAll settings force fs).1, ∃ outcome, a.result = .ok outcome) :
    ∀ c ∈ r.components, c.hasNoInputs = false →
      (r.generateAll settings force fs).2.holds c.templatePath = true := by
  have hrun := Batch.run_consecutive settings force r fs
  obtain ⟨hdone, hattempts⟩ := Batch.isDone_run_consecutive settings force r fs
  have hholds := Batch.holds_of_reaches hnested (Batch.reaches_iff.mpr ⟨_, rfl⟩) hdone
    (hattempts.symm ▸ hok)
  rwa [hrun] at hholds

/-! ## Commands -/

/-- The command for all components ends as the batch of the registered ones does. -/
theorem failure_runAllComponents {config : Config} {r : Registry}
    (hr : (config.registry fs).1 = .ok r) : (runAllComponents config force fs).failure =
      (batchEnd (r.generateAll config.settings force fs).1
        (r.generateAll config.settings force fs).2).failure := by
  have hregistry : config.registry fs = (.ok r, (config.registry fs).2) := by rw [← hr]
  rw [runAllComponents, hregistry]
  rfl

/-- If the command for all components ends well, the components were found. -/
theorem exists_registry_of_failure {config : Config}
    (h : (runAllComponents config force fs).failure = none) :
    ∃ r, (config.registry fs).1 = .ok r := by
  rw [runAllComponents] at h
  split at h
  · cases h
  · rename_i r log heq
    exact ⟨r, congrArg Prod.fst heq⟩

/-- **If the program ends with the status of success when it is asked for the
templates of all components**, then something is at the path of the template of every
registered component with inputs. -/
theorem holds_of_status_session (hnested : fs.Nested) {args : List String} {path : String}
    {verbose : Bool}
    (hargs : Command.ofArguments args = .run ⟨path, verbose, .allComponentTemplates force⟩)
    (hstatus : (session args fs).status = 0) :
    ∃ config r, Config.load fs path = .ok config ∧ (config.registry fs).1 = .ok r ∧
      ∀ c ∈ r.components, c.hasNoInputs = false →
        (session args fs).files.holds c.templatePath = true := by
  rw [status_session_eq_zero_iff hargs, Command.run] at hstatus
  obtain ⟨config, hload⟩ := exists_load_of_failure hstatus
  rw [failure_withConfig hload] at hstatus
  obtain ⟨r, hr⟩ := exists_registry_of_failure hstatus
  rw [failure_runAllComponents hr, failure_batchEnd_eq_none_iff] at hstatus
  have hregistry : config.registry fs = (.ok r, (config.registry fs).2) := by rw [← hr]
  refine ⟨config, r, hload, hr, ?_⟩
  rw [files_session_of_allComponentTemplates hargs hload hregistry]
  exact Registry.holds_generateAll hnested hstatus

end ComponentStories
