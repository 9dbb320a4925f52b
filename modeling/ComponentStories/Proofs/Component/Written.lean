import ComponentStories.Proofs.Component.Frame
import ComponentStories.Proofs.Component.Places

/-
# Templates that are reported

A template that a run reports as generated stands in its place behind the run, with the text of the
document of its component and a time later than all that was there before
(`exists_itemAt?_of_generated`).  Nothing that comes later in the run takes the place, since no
other component has it.
-/

namespace ComponentStories

open ComponentStories.Path FileSystem

variable {fs g : FileSystem} {settings : Settings} {force : Bool} {r : Registry} {x : Component}
  {cs : List Component} {root path : String} {dir l : Location}

namespace OnlyTemplates

/-! ## One component -/

/-- A template is written and reported, or nothing is changed and nothing
is reported as generated. -/
theorem generate_cases (h : OnlyTemplates fs settings force r g) (htree : fs.IsTree)
    (hx : x ∈ r.components) (hfound : fs.Finds root x dir) :
    (∃ text, MayWrite fs settings force r x dir text ∧
      (x.generate settings force g).1.result = .ok (.generated x.templatePath) ∧
      (x.generate settings force g).2 =
        g.change (dir ++ [FileName.template x.machineName]) (.file (.text text))) ∨
    (∀ path, (x.generate settings force g).1.result ≠ .ok (.generated path)) ∧
      (x.generate settings force g).2 = g := by
  have hallowed := h.allowed_planIn x
  rw [Component.generate]
  cases hplan : x.planIn settings force g with
  | upToDate => exact Or.inr ⟨fun path => by simp [Component.perform], rfl⟩
  | noInputs => exact Or.inr ⟨fun path => by simp [Component.perform], rfl⟩
  | write text =>
    rw [hplan] at hallowed
    have hleads := h.leadsTo hfound.leads
    have hwrite : Store.write g x.templatePath text = g.write x.templatePath (.text text) := rfl
    rw [Component.templatePath] at hwrite
    by_cases hplace : g.entryAt? (dir ++ [FileName.template x.machineName]) = some .directory
    · rw [h.tree.write_join_of_directory hleads hfound.isName hfound.path hplace] at hwrite
      refine Or.inr ⟨fun path => ?_, ?_⟩
      · rw [Component.perform, Component.templatePath, hwrite]
        simp
      · rw [Component.perform, Component.templatePath, hwrite]
    · rw [h.tree.write_join hleads hfound.isName hfound.path hplace] at hwrite
      refine Or.inl
        ⟨text, hallowed.mayWrite htree hx hfound (mt h.directory_iff.mpr hplace), ?_, ?_⟩
      · rw [Component.perform, Component.templatePath, hwrite]
      · rw [Component.perform, Component.templatePath, hwrite]

/-- What is later than the beginning stays so when a template is generated, and the time goes on. -/
theorem changedAfter_generate (h : OnlyTemplates fs settings force r g) (htree : fs.IsTree)
    (hx : x ∈ r.components) (hfound : fs.Finds root x dir) (hclock : fs.clock ≤ g.clock) :
    fs.clock ≤ (x.generate settings force g).2.clock ∧
      (g.ChangedAfter fs.clock l → (x.generate settings force g).2.ChangedAfter fs.clock l) := by
  rcases h.generate_cases htree hx hfound with ⟨text, -, -, hchange⟩ | ⟨-, hsame⟩
  · rw [hchange, clock_change]
    exact ⟨by omega, fun hlate => hlate.change hclock _⟩
  · rw [hsame]
    exact ⟨hclock, id⟩

/-! ## All components -/

/-- What is later than the beginning stays so when templates are generated. -/
theorem changedAfter_inTurn (h : OnlyTemplates fs settings force r g) (htree : fs.IsTree)
    (hfound : ∀ x ∈ r.components, ∃ root dir, fs.Finds root x dir)
    (hcs : ∀ x ∈ cs, x ∈ r.components) (hclock : fs.clock ≤ g.clock)
    (hlate : g.ChangedAfter fs.clock l) :
    (inTurn (Component.generate settings force) cs g).2.ChangedAfter fs.clock l := by
  induction cs generalizing g with
  | nil => exact hlate
  | cons x cs ih =>
    obtain ⟨hx, hcs⟩ := List.forall_mem_cons.mp hcs
    obtain ⟨root, dir, hdir⟩ := hfound x hx
    obtain ⟨hclock', hlate'⟩ := h.changedAfter_generate htree hx hdir hclock
    exact ih (h.generate htree hx hdir) hcs hclock' (hlate' hlate)

/-- **What is reported as generated is later than the beginning**, and no
directory stood in its place. -/
theorem exists_changedAfter_of_generated (h : OnlyTemplates fs settings force r g)
    (htree : fs.IsTree) (hfound : ∀ x ∈ r.components, ∃ root dir, fs.Finds root x dir)
    (hcs : ∀ x ∈ cs, x ∈ r.components) (hclock : fs.clock ≤ g.clock)
    (hreport : .ok (.generated path) ∈
      Attempt.results (inTurn (Component.generate settings force) cs g).1) :
    ∃ x ∈ cs, x.templatePath = path ∧ ∃ root dir, fs.Finds root x dir ∧
      fs.entryAt? (dir ++ [FileName.template x.machineName]) ≠ some .directory ∧
      (inTurn (Component.generate settings force) cs g).2.ChangedAfter fs.clock
        (dir ++ [FileName.template x.machineName]) := by
  induction cs generalizing g with
  | nil => exact absurd hreport List.not_mem_nil
  | cons x cs ih =>
    obtain ⟨hx, hcs⟩ := List.forall_mem_cons.mp hcs
    obtain ⟨root, dir, hdir⟩ := hfound x hx
    have hnext := h.generate htree hx hdir
    obtain ⟨hclock', -⟩ := h.changedAfter_generate (l := []) htree hx hdir hclock
    rcases List.mem_cons.mp hreport with hfirst | hrest
    · rcases h.generate_cases htree hx hdir with ⟨text, hmay, hresult, hchange⟩ | ⟨hnone, -⟩
      · have hpath : path = x.templatePath := by
          simpa using hfirst.trans hresult
        refine ⟨x, List.mem_cons_self, hpath.symm, root, dir, hdir, hmay.ne_directory, ?_⟩
        refine hnext.changedAfter_inTurn htree hfound hcs hclock' ?_
        rw [hchange]
        exact changedAfter_change_self hclock _
      · exact absurd hfirst.symm (hnone path)
    · obtain ⟨y, hy, h⟩ := ih hnext hcs hclock' hrest
      exact ⟨y, List.mem_cons_of_mem x hy, h⟩

end OnlyTemplates

/-- **A template that is reported as generated holds the document of its component**, and its time
is later than all that was there before. -/
theorem exists_itemAt?_of_generated {c : Config} (htree : fs.IsTree) (htimely : fs.Timely)
    (hdirs : ∀ dir ∈ c.componentDirs, IsName dir)
    (hfound : ∀ x ∈ r.components, ∃ dir ∈ c.existingDirs fs, ∃ l, fs.Finds dir x l)
    (hx : x ∈ r.components) (hxl : fs.Finds root x l)
    (hreport : .ok (.generated x.templatePath) ∈
      Attempt.results (r.generateAll settings force fs).1) :
    ∃ d time, x.hasNoInputs = false ∧ x.document? settings = some d ∧ fs.clock < time ∧
      (r.generateAll settings force fs).2.itemAt? (l ++ [FileName.template x.machineName]) =
        some ⟨.file (.text d.render), time⟩ := by
  have hfound' := Registry.exists_finds hfound
  have honly : OnlyTemplates fs settings force r (r.generateAll settings force fs).2 :=
    .generateAll htree hfound'
  obtain ⟨y, hy, hpath, root', l', hyl, hplace, item, hitem, hlate⟩ :=
    (OnlyTemplates.refl htree).exists_changedAfter_of_generated htree hfound' (fun _ h => h) le_rfl
      hreport
  -- the component that was reported is this one
  obtain ⟨rfl, hname⟩ := (hyl.resolve_eq_iff htree hxl).mp (by rw [hpath])
  obtain rfl := c.eq_of_place hdirs hfound hy hx hyl hxl hname
  rcases honly.item (l' ++ [FileName.template y.machineName]) with
    hold | ⟨z, dir, text, hmay, htext, hor⟩
  · -- nothing was as late before
    have hearly := htimely _ _ (hold.symm.trans hitem)
    omega
  rcases hor with heq | ⟨-, hdirectory, -⟩
  · obtain ⟨rfl, hlast⟩ := List.append_singleton_inj.mp heq
    obtain ⟨root'', hzl⟩ := hmay.found
    obtain rfl := c.eq_of_place hdirs hfound hmay.registered hy hzl hyl
      (FileName.template_injective hlast.symm)
    obtain ⟨d, hd, rfl⟩ := hmay.document
    refine ⟨d, item.modified, hmay.inputs, hd, hlate, ?_⟩
    obtain ⟨time, htime⟩ := entryAt?_eq_some_iff.mp htext
    rw [Registry.generateAll] at htime ⊢
    rw [htime] at hitem ⊢
    rw [← Option.some.inj hitem]
  · exact absurd (honly.directory_iff.mp hdirectory) hplace

end ComponentStories
