import ComponentStories.Proofs.Command.Report
import ComponentStories.Proofs.Component.Frame
import ComponentStories.Proofs.Component.Isolation
import ComponentStories.Proofs.Component.Present

/-
# Failures in batches

A failure stays where it is: every other component of the batch gets what it would get without it
(`Isolated`).  It is counted and told once (`Reported`), and the program ends with the status of
success only if there is none; then something is at the path of every template that could be
written.
-/

namespace ComponentStories

open Component

variable {fs : FileSystem} {config : Config} {r : Registry} {args : List String} {path : String}
  {verbose force : Bool}

/-! ## The end of the program -/

/-- **The program ends with the status of success exactly if no attempt failed**, and otherwise it
reports how many of them did. -/
theorem session_of_allComponentTemplates
    (hargs : Command.ofArguments args = .run ⟨path, verbose, .allComponentTemplates force⟩)
    (hload : Config.load fs path = .ok config) (hr : (config.registry fs).1 = .ok r) :
    let attempts := (r.generateAll config.settings force fs).1
    ((session args fs).status = 0 ↔ ∀ a ∈ attempts, ∃ outcome, a.result = .ok outcome) ∧
      ((session args fs).status ≠ 0 → (session args fs).report =
        Failure.report ⟨toString (failures (Attempt.results attempts)).length ++ " of " ++
          toString attempts.length ++ " stories failed to generate", []⟩) := by
  intro attempts
  have hreported := reported_batchEnd attempts (r.generateAll config.settings force fs).2
  have hfailure : ((Command.allComponentTemplates force).run path fs).failure =
      (batchEnd attempts (r.generateAll config.settings force fs).2).failure := by
    rw [Command.run, failure_withConfig hload, failure_runAllComponents hr]
  rw [ne_eq, status_session_eq_zero_iff hargs, hfailure]
  refine ⟨hreported.failure_eq_none_iff, fun hne => ?_⟩
  obtain ⟨f, hf⟩ := Option.ne_none_iff_exists'.mp hne
  rw [session, hargs]
  dsimp only
  rw [hfailure, hf]
  exact congrArg Failure.report (hreported.failure_eq f hf)

/-! ## Everything about failures -/

/-- **Failures in a batch are isolated and reported.**  Take any registry and any texts in a store,
and compare generating all templates in a store where writing fails at some paths with generating
them where it never fails: in both runs there is an attempt for every component, and the failures
stay where they are.  The same holds of work on all components at once by any schedule.  Every list
of attempts is reported, and where the templates are generated nothing but their failures is told as
an error.  So the program that is asked for the templates of all components ends with the status of
success exactly if no attempt failed and says how many did otherwise; and if it ends with the status
of success, something is at the path of the template of every registered component with inputs, as
it is behind work on all components at once that is finished without failures. -/
theorem failures_isolated_and_reported (settings : Settings) (force : Bool) (r : Registry)
    (m : MemoryStore) (failing : List String) (attempts : List Attempt) {fs : FileSystem}
    (hnested : fs.Nested) {args : List String} {path : String} {verbose forced : Bool}
    (hargs : Command.ofArguments args = .run ⟨path, verbose, .allComponentTemplates forced⟩) :
    (let good := r.generateAll settings force (m.failAt [])
      let bad := r.generateAll settings force (m.failAt failing)
      good.1.length = r.components.length ∧ bad.1.length = r.components.length ∧
      ∀ (i : Nat) (c : Component), r.components[i]? = some c →
        ∃ a a', good.1[i]? = some a ∧ bad.1[i]? = some a' ∧
          Isolated settings force m failing c a a' good.2 bad.2) ∧
    (∀ (schedule : List Nat) (i : Nat) (c : Component) (a : Attempt),
      let good := (Batch.start r (m.failAt [])).run settings force schedule
      let bad := (Batch.start r (m.failAt failing)).run settings force schedule
      good.tasks[i]? = some (c, .finished a) →
        ∃ a', bad.tasks[i]? = some (c, .finished a') ∧
          Isolated settings force m failing c a a' good.store bad.store) ∧
    Reported attempts (batchEnd attempts fs) ∧
    (batchEnd (r.generateAll settings force m).1 fs).log.filter (·.level = .error) =
      (failures (Attempt.results (r.generateAll settings force m).1)).map
        (fun e => ⟨.error, e.message⟩) ∧
    (∀ config found, Config.load fs path = .ok config → (config.registry fs).1 = .ok found →
      let results := (found.generateAll config.settings forced fs).1
      ((session args fs).status = 0 ↔ ∀ a ∈ results, ∃ outcome, a.result = .ok outcome) ∧
        ((session args fs).status ≠ 0 → (session args fs).report =
          Failure.report ⟨toString (failures (Attempt.results results)).length ++ " of " ++
            toString results.length ++ " stories failed to generate", []⟩)) ∧
    ((session args fs).status = 0 → ∃ config found, Config.load fs path = .ok config ∧
      (config.registry fs).1 = .ok found ∧
      ∀ c ∈ found.components, c.hasNoInputs = false →
        (session args fs).files.holds c.templatePath = true) ∧
    (∀ b, Batch.Reaches settings force (Batch.start r fs) b → b.IsDone →
      (∀ a ∈ b.attempts, ∃ outcome, a.result = .ok outcome) →
        ∀ c ∈ r.components, c.hasNoInputs = false → b.store.holds c.templatePath = true) := by
  have hlength : ∀ s : MemoryStore, (r.generateAll settings force s).1.length =
      r.components.length := fun s => length_inTurn _ _ _
  refine ⟨⟨hlength _, hlength _, fun i c hc => ?_⟩, fun schedule i c a ha => ?_,
    reported_batchEnd attempts fs, errors_batchEnd_generateAll settings force r m fs,
    fun config found hload hfound => session_of_allComponentTemplates hargs hload hfound,
    fun hstatus => holds_of_status_session hnested hargs hstatus,
    fun b hreach hdone hok => Batch.holds_of_reaches hnested hreach hdone hok⟩
  · have hi : i < (r.generateAll settings force (m.failAt [])).1.length := by
      rw [hlength]
      exact (List.getElem?_eq_some_iff.mp hc).1
    obtain ⟨a', ha', hisolated⟩ := Registry.isolated_generateAll settings force r m failing hc
      (List.getElem?_eq_getElem hi)
    exact ⟨_, a', List.getElem?_eq_getElem hi, ha', hisolated⟩
  · exact Batch.isolated_run settings force r m failing schedule ha

/-- Among three components the template of the link cannot be written, and nothing is at its path
behind the batch; one failure among two attempts is reported; and the program leaves something at
the path of the card of a site. -/
theorem failures_isolated_and_reported_trio :
    let r := Registry.ofComponents Batch.trio
    let bad := r.generateAll Settings.standard false
      (Batch.trioStore.failAt ["ui//link/link.stories.twig"])
    let attempts : List Attempt :=
      [⟨.ok (.generated "a"), []⟩, .failed (.write "b" .diskFull)]
    workshop.Nested ∧
    Command.ofArguments ["generate-all-component-stories"] =
      .run ⟨"stories.toml", false, .allComponentTemplates false⟩ ∧
    (∃ a, bad.1[1]? = some a ∧
      a.result = .error (.write "ui/link/link.stories.twig" .diskFull)) ∧
    bad.2.holds "ui/link/link.stories.twig" = false ∧
    (batchEnd attempts workshop).failure = some ⟨"1 of 2 stories failed to generate", []⟩ ∧
    (session ["generate-all-component-stories"] workshop).status = 0 ∧
    (session ["generate-all-component-stories"] workshop).files.holds
      "web/themes/card.stories.twig" = true := by
  intro r bad attempts
  have hnested : workshop.Nested := FileSystem.nested_of_forall_items (by decide +kernel)
  have hargs : Command.ofArguments ["generate-all-component-stories"] =
      .run ⟨"stories.toml", false, .allComponentTemplates false⟩ := by
    decide +kernel
  have hstatus : (session ["generate-all-component-stories"] workshop).status = 0 := by
    decide +kernel
  -- the link is the second component, and without failures its template is written
  have hlink : r.components[1]?.map Component.templatePath = some "ui/link/link.stories.twig" ∧
      (r.generateAll Settings.standard false (Batch.trioStore.failAt [])).1[1]?.map Attempt.result =
        some (.ok (.generated "ui/link/link.stories.twig")) := by
    decide +kernel
  -- the card is one of the components of the site
  have hcard : (((Config.load workshop "stories.toml").toOption.bind fun config =>
      (config.registry workshop).1.toOption).map fun found => found.components.any fun c =>
        c.templatePath == "web/themes/card.stories.twig" && !c.hasNoInputs) = some true := by
    decide +kernel
  obtain ⟨⟨-, -, hisolated⟩, -, hreported, -, -, hpresent, -⟩ :=
    failures_isolated_and_reported Settings.standard false r Batch.trioStore
      ["ui//link/link.stories.twig"] attempts hnested hargs
  obtain ⟨c, hc, hpath⟩ := Option.map_eq_some_iff.mp hlink.1
  obtain ⟨good, bad', hgood, hbad, halone⟩ := hisolated 1 c hc
  rw [hgood, Option.map_some] at hlink
  have hmem : Path.parts c.templatePath ∈ ["ui//link/link.stories.twig"].map Path.parts := by
    rw [hpath]
    decide +kernel
  have hrefused := halone.refused hmem _ (Option.some.inj hlink.2)
  rw [hpath] at hrefused
  refine ⟨hnested, hargs, ⟨bad', hbad, hrefused⟩, ?_, ?_, hstatus, ?_⟩
  · have hfile := (halone.alone hmem).2
    rw [hpath] at hfile
    rw [MemoryStore.holds, hfile]
    decide +kernel
  · cases hfailure : (batchEnd attempts workshop).failure with
    | none =>
      obtain ⟨outcome, houtcome⟩ := hreported.failure_eq_none_iff.mp hfailure _
        (List.mem_cons_of_mem _ (List.mem_singleton_self _))
      cases houtcome
    | some f =>
      rw [hreported.failure_eq f hfailure]
      decide +kernel
  · obtain ⟨config, found, hload, hfound, hholds⟩ := hpresent hstatus
    have hsite : ((Config.load workshop "stories.toml").toOption.bind fun config =>
        (config.registry workshop).1.toOption) = some found := by
      rw [hload, Except.toOption, Option.bind_some, hfound, Except.toOption]
    rw [hsite, Option.map_some] at hcard
    obtain ⟨x, hx, hinputs⟩ := List.any_eq_true.mp (Option.some.inj hcard)
    rw [Bool.and_eq_true, beq_iff_eq, Bool.not_eq_true'] at hinputs
    rw [← hinputs.1]
    exact hholds x hx hinputs.2

end ComponentStories
