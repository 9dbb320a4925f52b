import ComponentStories.Command.Run

/-
# What commands leave behind

A command reads its configuration and does its work; whether it ends well or fails, the file system
behind it is the one that the work left.
-/

namespace ComponentStories

variable {fs : FileSystem} {c : Config} {r : Registry} {log : List Record}

/-- The program leaves what the command leaves that it is asked for. -/
theorem files_session (args : List String) (fs : FileSystem) : (session args fs).files =
    match Command.ofArguments args with
    | .run i => (i.command.run i.config fs).files
    | _ => fs := by
  rw [session]
  cases Command.ofArguments args with
  | run i =>
    dsimp only
    cases (i.command.run i.config fs).failure <;> rfl
  | version => rfl
  | help => rfl
  | refused => rfl

/-- Without a configuration nothing is done. -/
theorem files_withConfig (path : String) (fs : FileSystem) (act : Config → FileSystem → End) :
    (withConfig path fs act).files =
      match Config.load fs path with
      | .ok c => (act c fs).files
      | .error _ => fs := by
  rw [withConfig]
  cases Config.load fs path <;> rfl

/-- The template of one component is generated, if the component is registered. -/
theorem files_runComponent (h : c.registry fs = (.ok r, log)) (id : String) (force : Bool) :
    (runComponent c id force fs).files =
      match r.find? id with
      | some x => (x.generate c.settings force fs).2
      | none => fs := by
  rw [runComponent, h]
  dsimp only
  cases r.find? id with
  | none => rfl
  | some x =>
    dsimp only
    split
    · rename_i heq
      rw [heq]
    · rename_i heq
      rw [heq]
      rfl

theorem files_runAllComponents (h : c.registry fs = (.ok r, log)) (force : Bool) :
    (runAllComponents c force fs).files = (r.generateAll c.settings force fs).2 := by
  rw [runAllComponents, h]
  rfl

/-- The site of a configuration. -/
def Config.site (c : Config) : Site := ⟨c.root, Path.join c.root c.storiesDir⟩

/-- The stories file of one template is generated, if the directory of
the stories files is there. -/
theorem files_runTemplate (c : Config) (template : String) (force leaveUrlOut : Bool)
    (fs : FileSystem) : (runTemplate c template force leaveUrlOut fs).files =
      match fs.makeDirectories c.site.storiesDir with
      | (.ok (), fs) => (c.site.generate ⟨force, (c.chosenUrl leaveUrlOut).1⟩
          (Path.join c.root template) fs).2
      | (.error _, fs) => fs := by
  rw [runTemplate]
  dsimp only [End.behind, withSite, Site.prepare, Config.site]
  cases fs.makeDirectories (Path.join c.root c.storiesDir) with
  | mk made fs =>
    cases made with
    | error e => rfl
    | ok =>
      dsimp only
      split
      · rename_i heq
        rw [heq]
      · rename_i heq
        rw [heq]
        rfl

/-- The stories files of all templates are generated, if the directory of
the stories files is there. -/
theorem files_runAllTemplates (c : Config) (force putUrlIn leaveUrlOut : Bool) (fs : FileSystem) :
    (runAllTemplates c force putUrlIn leaveUrlOut fs).files =
      match fs.makeDirectories c.site.storiesDir with
      | (.ok (), fs) => (c.site.generateAll
          ⟨force, (c.chosenUrl (leavesUrlOut leaveUrlOut putUrlIn)).1⟩ fs).2
      | (.error _, fs) => fs := by
  rw [runAllTemplates]
  dsimp only [End.behind, withSite, Site.prepare, Config.site]
  cases fs.makeDirectories (Path.join c.root c.storiesDir) with
  | mk made fs =>
    cases made with
    | error e => rfl
    | ok =>
      dsimp only
      split
      · rename_i heq
        rw [heq]
        rfl
      · rename_i heq
        rw [heq]
        rfl

/-! ## Batches that end well -/

/-- Nothing failed if nothing has failed before and none of the results is a failure. -/
theorem Tally.failed_foldl_add_eq_zero_iff (t : Tally)
    (results : List (Except GenerateError Outcome)) : (results.foldl add t).failed = 0 ↔
      t.failed = 0 ∧ ∀ result ∈ results, ∃ outcome, result = .ok outcome := by
  induction results generalizing t with
  | nil => simp
  | cons result results ih =>
    rw [List.foldl_cons, ih, List.forall_mem_cons]
    cases result with
    | error e => simp [add]
    | ok outcome =>
      have hfailed : (t.add (.ok outcome)).failed = t.failed := by
        rw [add]
        split <;> rfl
      simp [hfailed]

/-- A batch ends well if no attempt failed. -/
theorem failure_batchEnd_eq_none_iff (attempts : List Attempt) (fs : FileSystem) :
    (batchEnd attempts fs).failure = none ↔ ∀ a ∈ attempts, ∃ outcome, a.result = .ok outcome := by
  have htally := Tally.failed_foldl_add_eq_zero_iff ⟨0, 0, 0⟩ (Attempt.results attempts)
  rw [batchEnd]
  simp only [Attempt.results, List.forall_mem_map, true_and] at htally
  dsimp only
  rw [Tally.ofResults, Attempt.results, ite_eq_left_iff, ← htally]
  simp

/-! ## Commands that end well -/

/-- The program ends with the status of success if the command ends well. -/
theorem status_session_eq_zero_iff {args : List String} {i : Invocation}
    (hargs : Command.ofArguments args = .run i) :
    (session args fs).status = 0 ↔ (i.command.run i.config fs).failure = none := by
  rw [session, hargs]
  dsimp only
  cases (i.command.run i.config fs).failure <;> simp

/-- With a configuration a command ends as its work does. -/
theorem failure_withConfig {path : String} (hload : Config.load fs path = .ok c)
    (act : Config → FileSystem → End) : (withConfig path fs act).failure = (act c fs).failure := by
  rw [withConfig, hload]
  rfl

/-- A command that ends well had a configuration. -/
theorem exists_load_of_failure {path : String} {act : Config → FileSystem → End}
    (h : (withConfig path fs act).failure = none) : ∃ c, Config.load fs path = .ok c := by
  rw [withConfig] at h
  cases hload : Config.load fs path with
  | ok c => exact ⟨c, rfl⟩
  | error e =>
    rw [hload] at h
    exact absurd h (by simp [End.failed])

/-- The command for all templates ends well if the directory of the stories files is there, no
template is at fault, and none of the attempts fails. -/
theorem failure_runAllTemplates_eq_none_iff {force putUrlIn leaveUrlOut : Bool} :
    (runAllTemplates c force putUrlIn leaveUrlOut fs).failure = none ↔
      ∃ g paths, fs.makeDirectories c.site.storiesDir = (.ok (), g) ∧
        c.site.templates g = .ok paths ∧
        ∀ a ∈ (inTurn (c.site.generate
            ⟨force, (c.chosenUrl (leavesUrlOut leaveUrlOut putUrlIn)).1⟩) paths g).1,
          ∃ outcome, a.result = .ok outcome := by
  rw [runAllTemplates]
  dsimp only [End.behind, withSite, Site.prepare, Config.site]
  cases hmake : fs.makeDirectories (Path.join c.root c.storiesDir) with
  | mk made g =>
    cases made with
    | error e => simp [End.failed]
    | ok =>
      dsimp only [Site.generateAll]
      cases htemplates : Site.templates ⟨c.root, Path.join c.root c.storiesDir⟩ g with
      | error e => simp [End.failed, htemplates]
      | ok paths =>
        dsimp only
        rw [failure_batchEnd_eq_none_iff]
        constructor
        · exact fun hok => ⟨g, paths, rfl, htemplates, hok⟩
        · rintro ⟨g', paths', hmake', htemplates', hok⟩
          obtain rfl : g = g' := congrArg Prod.snd hmake'
          obtain rfl := Except.ok.inj (htemplates.symm.trans htemplates')
          exact hok

/-- What the command for all templates leaves when it finds templates. -/
theorem files_runAllTemplates_of_templates {g : FileSystem} {paths : List String}
    (hmake : fs.makeDirectories c.site.storiesDir = (.ok (), g))
    (htemplates : c.site.templates g = .ok paths) (force putUrlIn leaveUrlOut : Bool) :
    (runAllTemplates c force putUrlIn leaveUrlOut fs).files = (inTurn (c.site.generate
      ⟨force, (c.chosenUrl (leavesUrlOut leaveUrlOut putUrlIn)).1⟩) paths g).2 := by
  rw [files_runAllTemplates, hmake]
  dsimp only
  rw [Site.generateAll, htemplates]

/-- **If the program ends with the status of success when it is asked for the stories
files of all templates**, then it had a configuration, every template was found, and each
of the attempts succeeded. -/
theorem exists_of_status_session {args : List String} {path : String}
    {verbose force putUrlIn leaveUrlOut : Bool}
    (hargs : Command.ofArguments args =
      .run ⟨path, verbose, .allStoriesFiles force putUrlIn leaveUrlOut⟩)
    (hstatus : (session args fs).status = 0) :
    ∃ (c : Config) (request : Request) (g : FileSystem) (paths : List String),
      Config.load fs path = .ok c ∧
      fs.makeDirectories c.site.storiesDir = (.ok (), g) ∧ c.site.templates g = .ok paths ∧
      (∀ a ∈ (inTurn (c.site.generate request) paths g).1, ∃ outcome, a.result = .ok outcome) ∧
      (session args fs).files = (inTurn (c.site.generate request) paths g).2 := by
  rw [status_session_eq_zero_iff hargs, Command.run] at hstatus
  obtain ⟨c, hload⟩ := exists_load_of_failure hstatus
  rw [failure_withConfig hload, failure_runAllTemplates_eq_none_iff] at hstatus
  obtain ⟨g, paths, hmake, htemplates, hok⟩ := hstatus
  refine ⟨c, _, g, paths, hload, hmake, htemplates, hok, ?_⟩
  rw [files_session, hargs]
  dsimp only
  rw [Command.run, files_withConfig, hload]
  exact files_runAllTemplates_of_templates hmake htemplates force putUrlIn leaveUrlOut

/-- The templates of the registry are generated when the program is asked
for those of all components. -/
theorem files_session_of_allComponentTemplates {args : List String} {path : String}
    {verbose force : Bool}
    (hargs : Command.ofArguments args = .run ⟨path, verbose, .allComponentTemplates force⟩)
    (hload : Config.load fs path = .ok c) (hregistry : c.registry fs = (.ok r, log)) :
    (session args fs).files = (r.generateAll c.settings force fs).2 := by
  rw [files_session, hargs]
  dsimp only
  rw [Command.run, files_withConfig, hload]
  exact files_runAllComponents hregistry force

end ComponentStories
