import ComponentStories.Proofs.Command.Run
import ComponentStories.Proofs.Component.Found
import ComponentStories.Proofs.Component.Interleaving
import ComponentStories.Proofs.Document.Layout

/-
# What the commands for components change

Generating the templates of registered components changes nothing in a directory tree but these
templates, and the times of the directories in which a template is new (`OnlyTemplates`).  This is
an invariant: what is planned is allowed from the file system at the beginning (`Allowed`), so it
does not matter in which order the components are worked on, nor when the work is broken off.
-/

namespace ComponentStories

open ComponentStories.Path FileSystem

/-! ## The frame -/

/-- The story template that may be written for a component in a directory: the component is
registered, has inputs and is found there, the text is that of its document, and no directory has
the name of the template, nor a file unless generating is forced. -/
structure MayWrite (fs : FileSystem) (settings : Settings) (force : Bool) (r : Registry)
    (x : Component) (dir : Location) (text : String) : Prop where
  /-- The component is registered. -/
  registered : x ∈ r.components
  /-- Its definition stands in the directory. -/
  found : ∃ root, fs.Finds root x dir
  /-- It has inputs. -/
  inputs : x.hasNoInputs = false
  /-- The text is that of its document. -/
  document : ∃ d, x.document? settings = some d ∧ text = d.render
  /-- The template is new, or it is forced. -/
  old : fs.entryAt? (dir ++ [FileName.template x.machineName]) = none ∨ force = true ∧
    ∃ content, fs.entryAt? (dir ++ [FileName.template x.machineName]) = some (.file content)

/-- A file system that differs from the one before in nothing but templates that may be
written: at every location is the same item as before, or such a template, or the
directory in which one is new. -/
structure OnlyTemplates (fs : FileSystem) (settings : Settings) (force : Bool) (r : Registry)
    (fs' : FileSystem) : Prop where
  /-- There are no links. -/
  tree : fs'.IsTree
  /-- The working directory is the same. -/
  working : fs'.working = fs.working
  /-- Whatever is different is a template or the directory of one. -/
  item : ∀ l, fs'.itemAt? l = fs.itemAt? l ∨
    ∃ x dir text, MayWrite fs settings force r x dir text ∧
      fs'.entryAt? (dir ++ [FileName.template x.machineName]) = some (.file (.text text)) ∧
      (l = dir ++ [FileName.template x.machineName] ∨
        l = dir ∧ fs'.entryAt? l = some .directory ∧
          fs.entryAt? (dir ++ [FileName.template x.machineName]) = none)

/-- What is planned for a component is allowed: a text that is to be written is that of its
document, and there was no template before unless generating is forced. -/
def Allowed (fs : FileSystem) (settings : Settings) (force : Bool) (x : Component)
    (plan : Component.Plan) : Prop :=
  ∀ text, plan = .write text → (∃ d, x.document? settings = some d ∧ text = d.render) ∧
    ∀ root dir, fs.Finds root x dir → force = false →
      fs.entryAt? (dir ++ [FileName.template x.machineName]) = none

variable {fs g : FileSystem} {settings : Settings} {force : Bool} {r : Registry} {x : Component}
  {root : String} {dir l : Location} {text : String}

/-- There is no directory where a template may be written. -/
theorem MayWrite.ne_directory (h : MayWrite fs settings force r x dir text) :
    fs.entryAt? (dir ++ [FileName.template x.machineName]) ≠ some .directory := by
  rcases h.old with hnone | ⟨-, content, hfile⟩
  · rw [hnone]
    exact (Option.some_ne_none _).symm
  · rw [hfile]
    simp

theorem MayWrite.directory (h : MayWrite fs settings force r x dir text) :
    fs.entryAt? dir = some .directory := by
  obtain ⟨root, hfound⟩ := h.found
  exact hfound.leads.directory_right

/-- A text that is planned may be written unless a directory has the name of the template. -/
theorem Allowed.mayWrite (h : Allowed fs settings force x (.write text)) (htree : fs.IsTree)
    (hx : x ∈ r.components) (hfound : fs.Finds root x dir)
    (hplace : fs.entryAt? (dir ++ [FileName.template x.machineName]) ≠ some .directory) :
    MayWrite fs settings force r x dir text := by
  obtain ⟨⟨d, hd, htext⟩, hnew⟩ := h text rfl
  have hinputs : x.hasNoInputs = false := by
    have harguments := (StoryDocument.describes_of_assemble? hd).1
    rwa [ne_eq, Component.arguments_eq_nil_iff, Bool.not_eq_true] at harguments
  refine ⟨hx, ⟨root, hfound⟩, hinputs, ⟨d, hd, htext⟩, ?_⟩
  cases hold : fs.entryAt? (dir ++ [FileName.template x.machineName]) with
  | none => exact Or.inl rfl
  | some entry =>
    refine Or.inr ⟨?_, ?_⟩
    · by_contra hforce
      rw [Bool.not_eq_true] at hforce
      exact absurd (hold.symm.trans (hnew root dir hfound hforce)) (by simp)
    · cases entry with
      | file content => exact ⟨content, rfl⟩
      | directory => exact absurd hold hplace
      | link target => exact absurd hold (htree.plain _ _)

namespace OnlyTemplates

theorem refl (htree : fs.IsTree) : OnlyTemplates fs settings force r fs :=
  ⟨htree, rfl, fun _ => Or.inl rfl⟩

/-- Directories stay directories, and there are no other ones. -/
theorem directory_iff (h : OnlyTemplates fs settings force r g) :
    g.entryAt? l = some .directory ↔ fs.entryAt? l = some .directory := by
  rcases h.item l with heq | ⟨x, dir, text, hmay, htext, rfl | ⟨rfl, hdir, -⟩⟩
  · rw [entryAt?, entryAt?, heq]
  · exact iff_of_false (by simp [htext]) hmay.ne_directory
  · exact iff_of_true hdir hmay.directory

/-- Nothing is removed. -/
theorem eq_none (h : OnlyTemplates fs settings force r g) (hnone : g.entryAt? l = none) :
    fs.entryAt? l = none := by
  rcases h.item l with heq | ⟨x, dir, text, -, htext, rfl | ⟨rfl, hdir, -⟩⟩
  · rwa [entryAt?, ← heq]
  · exact absurd (hnone.symm.trans htext) (by simp)
  · exact absurd (hnone.symm.trans hdir) (by simp)

theorem leadsTo (h : OnlyTemplates fs settings force r g) {path : String}
    (hpath : fs.LeadsTo path dir) : g.LeadsTo path dir := by
  rw [LeadsTo, h.working]
  exact Leads.mono hpath fun _ hd => h.directory_iff.mpr hd

/-! ## Steps -/

/-- What is planned for a component is allowed. -/
theorem allowed_planIn (h : OnlyTemplates fs settings force r g) (x : Component) :
    Allowed fs settings force x (x.planIn settings force g) := by
  intro text hplan
  obtain ⟨hnew, hdocument⟩ := Component.planIn_eq_write_iff.mp hplan
  refine ⟨hdocument, fun root dir hfound hforce => ?_⟩
  have hholds : g.holds x.templatePath = false := hnew.resolve_left (by simp [hforce])
  apply h.eq_none
  rw [holds, Component.templatePath,
    h.tree.item_join (h.leadsTo hfound.leads) hfound.isName hfound.path] at hholds
  rw [entryAt?, Option.map_eq_none_iff]
  cases hitem : g.itemAt? (dir ++ [FileName.template x.machineName]) with
  | none => rfl
  | some item =>
    rw [hitem] at hholds
    exact absurd hholds (by simp [Except.isOk, Except.toBool])

/-- **A template that may be written is the only thing that is different behind it.** -/
theorem change (h : OnlyTemplates fs settings force r g)
    (hmay : MayWrite fs settings force r x dir text) : OnlyTemplates fs settings force r
      (g.change (dir ++ [FileName.template x.machineName]) (.file (.text text))) := by
  obtain ⟨root, hfound⟩ := hmay.found
  have hdir : g.entryAt? dir = some .directory := h.directory_iff.mpr hmay.directory
  have hplace : g.entryAt? (dir ++ [FileName.template x.machineName]) ≠ some .directory :=
    fun hd => hmay.ne_directory (h.directory_iff.mp hd)
  have hkeeps := h.tree.keeps_change hdir hfound.isName hplace (.text text)
  have hnew : (g.change (dir ++ [FileName.template x.machineName]) (.file (.text text))).entryAt?
      (dir ++ [FileName.template x.machineName]) = some (.file (.text text)) :=
    entryAt?_change_self _ _ _
  refine ⟨hkeeps.tree, hkeeps.working.trans h.working, fun l => ?_⟩
  by_cases hl : dir ++ [FileName.template x.machineName] = l
  · exact Or.inr ⟨x, dir, text, hmay, hnew, Or.inl hl.symm⟩
  by_cases hstamp : dir = l ∧ g.entryAt? (dir ++ [FileName.template x.machineName]) = none
  · obtain ⟨rfl, hnone⟩ := hstamp
    exact Or.inr ⟨x, dir, text, hmay, hnew,
      Or.inr ⟨rfl, hkeeps.directory dir hdir, h.eq_none hnone⟩⟩
  -- the item is the one in front of the change
  have hsame :
      (g.change (dir ++ [FileName.template x.machineName]) (.file (.text text))).itemAt? l =
      g.itemAt? l := by
    refine itemAt?_change_of_ne _ hl fun hnone hdrop => hstamp ⟨?_, hnone⟩
    rwa [List.dropLast_concat] at hdrop
  rw [hsame]
  refine (h.item l).imp id ?_
  rintro ⟨y, dir', text', hmay', htext', hor⟩
  by_cases heq : dir ++ [FileName.template x.machineName] =
      dir' ++ [FileName.template y.machineName]
  · -- the template of the other component was at the same location
    rcases hor with hl' | ⟨hl', hdirectory, hnone⟩
    · exact absurd (heq.trans hl'.symm) hl
    · obtain ⟨rfl, -⟩ := List.append_singleton_inj.mp heq
      refine ⟨x, dir, text, hmay, hnew, Or.inr ⟨hl', ?_, by rw [heq]; exact hnone⟩⟩
      exact hkeeps.directory l hdirectory
  · refine ⟨y, dir', text', hmay', ?_, ?_⟩
    · rw [entryAt?_change_of_ne _ heq]
      exact htext'
    · exact hor.imp id fun ⟨hl', hdirectory, hnone⟩ => ⟨hl', hkeeps.directory l hdirectory, hnone⟩

/-- **Doing what is allowed keeps everything but templates as it is.** -/
theorem perform (h : OnlyTemplates fs settings force r g) (htree : fs.IsTree)
    (hx : x ∈ r.components) (hfound : fs.Finds root x dir) {plan : Component.Plan}
    (hplan : Allowed fs settings force x plan) :
    OnlyTemplates fs settings force r (x.perform plan g).2 := by
  rw [Component.snd_perform]
  split
  · rename_i text
    have hleads := h.leadsTo hfound.leads
    show OnlyTemplates fs settings force r (g.write x.templatePath (.text text)).2
    by_cases hplace : g.entryAt? (dir ++ [FileName.template x.machineName]) = some .directory
    · rw [Component.templatePath,
        h.tree.write_join_of_directory hleads hfound.isName hfound.path hplace]
      exact h
    · rw [Component.templatePath, h.tree.write_join hleads hfound.isName hfound.path hplace]
      exact h.change (hplan.mayWrite htree hx hfound (mt h.directory_iff.mpr hplace))
  · exact h

/-- Generating the template of a component keeps everything but templates as it is. -/
theorem generate (h : OnlyTemplates fs settings force r g) (htree : fs.IsTree)
    (hx : x ∈ r.components) (hfound : fs.Finds root x dir) :
    OnlyTemplates fs settings force r (x.generate settings force g).2 :=
  h.perform htree hx hfound (h.allowed_planIn x)

/-- **Generating the templates of all components keeps everything but templates as it is.** -/
theorem generateAll (htree : fs.IsTree)
    (hfound : ∀ x ∈ r.components, ∃ root dir, fs.Finds root x dir) :
    OnlyTemplates fs settings force r (r.generateAll settings force fs).2 := by
  rw [Registry.generateAll, snd_inTurn]
  suffices hgen : ∀ cs : List Component, (∀ x ∈ cs, x ∈ r.components) →
      ∀ g, OnlyTemplates fs settings force r g → OnlyTemplates fs settings force r
        (cs.foldl (fun s x => (x.generate settings force s).2) g) from
    hgen r.components (fun _ hx => hx) fs (refl htree)
  intro cs
  induction cs with
  | nil => exact fun _ g hg => hg
  | cons x cs ih =>
    intro hcs g hg
    obtain ⟨hx, hcs⟩ := List.forall_mem_cons.mp hcs
    obtain ⟨root, dir, hdir⟩ := hfound x hx
    exact ih hcs _ (hg.generate htree hx hdir)

end OnlyTemplates

/-! ## Batches -/

/-- A batch that has changed nothing but templates and plans nothing but what is allowed. -/
structure Batch.Frames (fs : FileSystem) (settings : Settings) (force : Bool) (r : Registry)
    (b : Batch FileSystem) : Prop where
  /-- Nothing but templates is different. -/
  store : OnlyTemplates fs settings force r b.store
  /-- Its components are registered, and what is planned for them is allowed. -/
  tasks : ∀ t ∈ b.tasks, t.1 ∈ r.components ∧
    ∀ plan, t.2 = .planned plan → Allowed fs settings force t.1 plan

/-- Nothing is different and nothing is planned at the beginning. -/
theorem Batch.frames_start (htree : fs.IsTree) (settings : Settings) (force : Bool) (r : Registry) :
    Frames fs settings force r (start r fs) where
  store := .refl htree
  tasks t ht := by
    obtain ⟨x, hx, rfl⟩ := List.mem_map.mp ht
    exact ⟨hx, fun plan hplan => absurd hplan (by simp)⟩

/-- Every step of a batch changes nothing but templates. -/
theorem Batch.Frames.step {b b' : Batch FileSystem} (h : Frames fs settings force r b)
    (htree : fs.IsTree) (hfound : ∀ x ∈ r.components, ∃ root dir, fs.Finds root x dir)
    (hstep : Step settings force b b') : Frames fs settings force r b' := by
  obtain ⟨hstore, htasks⟩ := h
  cases hstep with
  | ask s before after c =>
    obtain ⟨hc, -⟩ := htasks (c, .waiting) (List.mem_append_right _ List.mem_cons_self)
    refine ⟨hstore, forall_mem_of_change htasks ⟨hc, fun plan hplan => ?_⟩⟩
    obtain rfl : c.planIn settings force s = plan := Phase.planned.inj hplan
    exact hstore.allowed_planIn c
  | act s before after c plan =>
    obtain ⟨hc, hplan⟩ := htasks (c, .planned plan) (List.mem_append_right _ List.mem_cons_self)
    obtain ⟨root, dir, hdir⟩ := hfound c hc
    refine ⟨hstore.perform htree hc hdir (hplan plan rfl), forall_mem_of_change htasks ?_⟩
    exact ⟨hc, fun plan hplan => absurd hplan (by simp)⟩

/-- All steps of a batch, in any order, change nothing but templates. -/
theorem Batch.Frames.reaches {b b' : Batch FileSystem} (h : Frames fs settings force r b)
    (htree : fs.IsTree) (hfound : ∀ x ∈ r.components, ∃ root dir, fs.Finds root x dir)
    (hreach : Reaches settings force b b') : Frames fs settings force r b' := by
  induction hreach with
  | refl => exact h
  | tail _ hstep ih => exact ih.step htree hfound hstep

/-! ## Commands -/

/-- Whether a command for components is forced; none if the command is another one. -/
def Command.templateForce? : Command → Option Bool
  | .componentTemplate _ force => some force
  | .allComponentTemplates force => some force
  | _ => none

/-- Without a configuration a command for components changes nothing. -/
theorem files_run_of_load_eq_error {command : Command}
    (hcommand : command.templateForce? = some force) {path : String} {e : ConfigError}
    (hload : Config.load fs path = .error e) : (command.run path fs).files = fs := by
  cases command with
  | componentTemplate id force => rw [Command.run, files_withConfig, hload]
  | allComponentTemplates force => rw [Command.run, files_withConfig, hload]
  | _ => exact absurd hcommand (by simp [Command.templateForce?])

theorem Registry.mem_components_of_find? {id : String} (h : r.find? id = some x) :
    x ∈ r.components :=
  List.mem_map_of_mem (f := Prod.snd) (mem_of_getSorted? h)

/-- A command for components with a configuration changes nothing but templates. -/
theorem OnlyTemplates.run (htree : fs.IsTree) {command : Command}
    (hcommand : command.templateForce? = some force) {path : String} {c : Config}
    (hload : Config.load fs path = .ok c) {log : List Record}
    (hregistry : c.registry fs = (.ok r, log))
    (hfound : ∀ x ∈ r.components, ∃ root dir, fs.Finds root x dir) :
    OnlyTemplates fs c.settings force r (command.run path fs).files := by
  cases command with
  | componentTemplate id force' =>
    obtain rfl : force' = force := Option.some.inj hcommand
    rw [Command.run, files_withConfig, hload]
    dsimp only
    rw [files_runComponent hregistry]
    split
    · rename_i x hx
      obtain ⟨root, dir, hdir⟩ := hfound x (Registry.mem_components_of_find? hx)
      exact (refl htree).generate htree (Registry.mem_components_of_find? hx) hdir
    · exact refl htree
  | allComponentTemplates force' =>
    obtain rfl : force' = force := Option.some.inj hcommand
    rw [Command.run, files_withConfig, hload]
    dsimp only
    rw [files_runAllComponents hregistry]
    exact generateAll htree hfound
  | _ => exact absurd hcommand (by simp [Command.templateForce?])

/-- **The commands for components touch nothing but templates.**  Take any directory tree with any
configuration in it, and any arguments that ask for the templates of one component or of all of
them, or for nothing that could be done.  Then either the program leaves everything as it is, or it
read a configuration, this has a registry, and nothing is different behind the program but templates
that may be written for components of the registry.  The same holds whenever the work on all
components at once, in any order of its steps, is broken off. -/
theorem onlyTemplates_session (htree : fs.IsTree) {args : List String} {force : Bool}
    (hcommand : ∀ i, Command.ofArguments args = .run i →
      i.command.templateForce? = some force) :
    (session args fs).files = fs ∨ ∃ i c r, Command.ofArguments args = .run i ∧
      Config.load fs i.config = .ok c ∧ (c.registry fs).1 = .ok r ∧
      OnlyTemplates fs c.settings force r (session args fs).files ∧
      ∀ b, Batch.Reaches c.settings force (Batch.start r fs) b →
        OnlyTemplates fs c.settings force r b.store := by
  rw [files_session]
  cases hargs : Command.ofArguments args with
  | run i =>
    cases hload : Config.load fs i.config with
    | error e =>
      exact Or.inl (files_run_of_load_eq_error (hcommand i hargs) hload)
    | ok c =>
      obtain ⟨r, log, hregistry, hfound⟩ := c.exists_registry_eq htree
      have hfound' := Registry.exists_finds hfound
      refine Or.inr ⟨i, c, r, rfl, hload, congrArg Prod.fst hregistry,
        .run htree (hcommand i hargs) hload hregistry hfound', fun b hreach => ?_⟩
      exact ((Batch.frames_start htree c.settings force r).reaches htree hfound' hreach).store
  | version => exact Or.inl rfl
  | help => exact Or.inl rfl
  | refused => exact Or.inl rfl

/-- A site with two components, one of which has a template that was changed by hand. -/
def workshop : FileSystem where
  items := [([], ⟨.directory, 0⟩), (["box"], ⟨.directory, 0⟩), (["box", "web"], ⟨.directory, 0⟩),
    (["box", "web", "themes"], ⟨.directory, 0⟩),
    (["box", "web", "themes", "card.component.yml"],
      ⟨.file (.text "slots:\n  body:\n    title: Body\n"), 0⟩),
    (["box", "web", "themes", "link.component.yml"],
      ⟨.file (.text "slots:\n  body:\n    title: Body\n"), 0⟩),
    (["box", "web", "themes", "link.stories.twig"], ⟨.file (.text "by hand"), 0⟩)]
  working := ["box"]
  clock := 0

/-- The template that is missing is written there, and nothing else is different. -/
theorem onlyTemplates_session_workshop : workshop.IsTree ∧
    (∀ i, Command.ofArguments ["generate-all-component-stories"] = .run i →
      i.command.templateForce? = some false) ∧
    ∃ (c : Config) (r : Registry), (c.registry workshop).1 = .ok r ∧
      OnlyTemplates workshop c.settings false r
        (session ["generate-all-component-stories"] workshop).files ∧
      workshop.entryAt? ["box", "web", "themes", "card.stories.twig"] = none ∧
      (session ["generate-all-component-stories"] workshop).files.entryAt?
        ["box", "web", "themes", "card.stories.twig"] ≠ none := by
  have htree : workshop.IsTree := isTree_of_forall_items (by decide +kernel)
  have hcommand : ∀ i, Command.ofArguments ["generate-all-component-stories"] = .run i →
      i.command.templateForce? = some false := by
    have hargs : Command.ofArguments ["generate-all-component-stories"] =
        .run ⟨"stories.toml", false, .allComponentTemplates false⟩ := by
      decide +kernel
    intro i hi
    obtain rfl := Asked.run.inj (hargs.symm.trans hi)
    rfl
  have hbefore : workshop.entryAt? ["box", "web", "themes", "card.stories.twig"] = none := by
    decide +kernel
  have hafter : (session ["generate-all-component-stories"] workshop).files.entryAt?
      ["box", "web", "themes", "card.stories.twig"] ≠ none := by
    decide +kernel
  rcases onlyTemplates_session htree hcommand with heq | ⟨-, c, r, -, -, hr, honly, -⟩
  · rw [heq] at hafter
    exact absurd hbefore hafter
  · exact ⟨htree, hcommand, c, r, hr, honly, hbefore, hafter⟩

end ComponentStories
