import ComponentStories.Proofs.Component.Interleaving

/-
# Batches that are run again

Without force nothing is written at a path where a text is already, so a text that is there stays as
it is through every sequence of steps (`Unforced.file?_eq`), also when the work on all components is
done at once.  A batch that is run a second time finds what the first run left.  So it leaves the
store as it is, forced or not (`storeAfter_storeAfter`), and what comes of a component is told by
what came of it before (`result_generate_again`).
-/

namespace ComponentStories

open Component

/-! ## Putting a text again -/

namespace MemoryStore

variable {m : MemoryStore} {p q t u path : String}

theorem file?_put_of_eq (h : Path.parts p = Path.parts q) :
    (m.put p t).file? q = some ⟨((m.file? p).map StoredText.path).getD p, t⟩ := by
  simp only [file?, put, getSorted?_putSorted, if_pos h]

/-- A text is at the path where one was put, and at the paths where one was before. -/
theorem holds_put :
    (m.put p t).holds q = true ↔ Path.parts p = Path.parts q ∨ m.holds q = true := by
  by_cases h : Path.parts p = Path.parts q
  · simp [holds, file?_put_of_eq h, h]
  · simp [holds, file?_put_of_ne h, h]

/-- A text that is put takes the place of another one, also at another spelling of the path
if there was a text before. -/
theorem put_put (h : Path.parts p = Path.parts q) (hspelled : p = q ∨ m.holds p = true) :
    (m.put p t).put q u = m.put q u := by
  -- the first spelling of the path is the same
  have hfirst : ((m.file? p).map StoredText.path).getD p =
      ((m.file? q).map StoredText.path).getD q := by
    rcases hspelled with rfl | hholds
    · rfl
    · have hsame : m.file? p = m.file? q := by rw [file?, file?, h]
      obtain ⟨f, hf⟩ := Option.isSome_iff_exists.mp hholds
      rw [← hsame, hf]
      rfl
  apply MemoryStore.ext
  · rw [files_put (m.put p t), file?_put_of_eq h, files_put m p, files_put m q, h, Option.map_some,
      Option.getD_some, hfirst, putSorted_putSorted]
  · rfl

theorem holds_congr (h : Path.parts p = Path.parts q) : m.holds p = m.holds q := by
  rw [holds, holds, file?, file?, h]

theorem holds_of_file?_eq {m' : MemoryStore} (h : m'.file? path = m.file? path)
    (hholds : m.holds path = true) : m'.holds path = true := by
  rwa [holds, h]

end MemoryStore

/-! ## One component -/

namespace Component

section AnyStore

variable {σ : Type} [Store σ] {settings : Settings} {force : Bool} {c : Component} {s : σ}

theorem snd_generate_of_document? (h : c.document? settings = none) :
    (c.generate settings force s).2 = s := by
  rw [generate, snd_perform]
  split
  · rename_i text hplan
    obtain ⟨-, d, hd, -⟩ := planIn_eq_write_iff.mp hplan
    exact absurd (h.symm.trans hd) (by simp)
  · rfl

theorem planIn_of_holds (h : Store.holds s c.templatePath = true) :
    c.planIn settings false s = .upToDate := by
  simp [planIn, plan, Policy.shouldGenerate, h]

end AnyStore

variable {settings : Settings} {force : Bool} {c d : Component} {m : MemoryStore}
  {l : List Component}
  {path : String}

/-- What is planned puts a text at the path of the template, unless writing fails there. -/
theorem snd_perform_memory (c : Component) (plan : Plan) (m : MemoryStore) :
    (c.perform plan m).2 =
      match plan with
      | .write text => if m.failsAt c.templatePath then m else m.put c.templatePath text
      | _ => m := by
  rw [snd_perform]
  cases plan with
  | upToDate => rfl
  | noInputs => rfl
  | write text =>
    show (m.write c.templatePath text).2 = _
    rw [MemoryStore.write]
    dsimp only
    split <;> rfl

theorem failsAt_generate (c : Component) (m : MemoryStore) (path : String) :
    (c.generate settings force m).2.failsAt path = m.failsAt path := by
  rw [generate, snd_perform_memory]
  split
  · split <;> rfl
  · rfl

/-- A component whose template cannot be written changes nothing. -/
theorem snd_generate_of_failsAt (h : m.failsAt c.templatePath = true) :
    (c.generate settings force m).2 = m := by
  rw [generate, snd_perform_memory]
  split
  · rw [if_pos h]
  · rfl

/-- What is planned for a component without a template leaves the texts that are there. -/
theorem file?_perform {m₀ : MemoryStore} {plan : Plan}
    (hplan : ∀ text, plan = .write text → m₀.holds c.templatePath = false)
    (hholds : m₀.holds path = true) : (c.perform plan m).2.file? path = m.file? path := by
  rw [snd_perform_memory]
  split
  · rename_i text
    split
    · rfl
    · apply MemoryStore.file?_put_of_ne
      intro heq
      have hnone := hplan text rfl
      rw [MemoryStore.holds_congr heq, hholds] at hnone
      exact Bool.false_ne_true hnone.symm
  · rfl

/-- **Without force a text that is there stays as it is.** -/
theorem file?_generate (hholds : m.holds path = true) :
    (c.generate settings false m).2.file? path = m.file? path := by
  refine file?_perform (fun text hplan => ?_) hholds
  obtain ⟨hnew, -⟩ := planIn_eq_write_iff.mp hplan
  exact hnew.resolve_left Bool.false_ne_true

theorem holds_generate (hholds : m.holds path = true) :
    (c.generate settings force m).2.holds path = true := by
  rw [generate, snd_perform_memory]
  split
  · split
    · exact hholds
    · exact MemoryStore.holds_put.mpr (Or.inr hholds)
  · exact hholds

/-- A component with inputs has a template when it was generated, if writing does not fail. -/
theorem holds_generate_self (hdocument : c.document? settings ≠ none)
    (hfails : m.failsAt c.templatePath = false) :
    (c.generate settings force m).2.holds c.templatePath = true := by
  by_cases hholds : m.holds c.templatePath = true
  · exact holds_generate hholds
  · obtain ⟨d, hd⟩ := Option.ne_none_iff_exists'.mp hdocument
    have hplan : c.planIn settings force m = .write d.render :=
      planIn_eq_write_iff.mpr ⟨Or.inr (Bool.eq_false_iff.mpr hholds), d, hd, rfl⟩
    rw [generate, hplan, snd_perform_memory, hfails]
    exact MemoryStore.holds_put.mpr (Or.inl rfl)

/-- With force the document is put in the place of what was there. -/
theorem snd_generate_true {e : StoryDocument} (hdocument : c.document? settings = some e)
    (hfails : m.failsAt c.templatePath = false) :
    (c.generate settings true m).2 = m.put c.templatePath e.render := by
  have hplan : c.planIn settings true m = .write e.render :=
    planIn_eq_write_iff.mpr ⟨Or.inl rfl, e, hdocument, rfl⟩
  rw [generate, hplan, snd_perform_memory]
  dsimp only
  rw [hfails, if_neg Bool.false_ne_true]

/-- **What is written for a component does not matter to another one that writes at the same path**,
if there was a text before. -/
theorem snd_generate_absorb (hsame : ¬ Apart c d) (hdocument : d.document? settings ≠ none)
    (hholds : m.holds c.templatePath = true) :
    (d.generate settings force (c.generate settings force m).2).2 =
      (d.generate settings force m).2 := by
  have hparts : Path.parts c.templatePath = Path.parts d.templatePath := not_not.mp hsame
  cases force with
  | false =>
    have hkeep : (c.generate settings false m).2 = m := by
      rw [generate, planIn_of_holds hholds]
      rfl
    rw [hkeep]
  | true =>
    by_cases hfails : m.failsAt c.templatePath = true
    · rw [snd_generate_of_failsAt hfails]
    cases hc : c.document? settings with
    | none => rw [snd_generate_of_document? hc]
    | some e =>
      obtain ⟨e', he'⟩ := Option.ne_none_iff_exists'.mp hdocument
      have hc' : m.failsAt c.templatePath = false := Bool.eq_false_iff.mpr hfails
      have hd' : m.failsAt d.templatePath = false := by
        rw [MemoryStore.failsAt, ← hparts]
        exact hc'
      have hput : (m.put c.templatePath e.render).failsAt d.templatePath = false := hd'
      rw [snd_generate_true hc hc', snd_generate_true he' hput, snd_generate_true he' hd']
      exact MemoryStore.put_put hparts (Or.inr hholds)

/-- A component that is generated twice leaves the store as it does when it is generated once. -/
theorem snd_generate_generate_self :
    (c.generate settings force (c.generate settings force m).2).2 =
      (c.generate settings force m).2 := by
  by_cases hfails : m.failsAt c.templatePath = true
  · rw [snd_generate_of_failsAt hfails, snd_generate_of_failsAt hfails]
  cases hc : c.document? settings with
  | none => rw [snd_generate_of_document? hc, snd_generate_of_document? hc]
  | some e =>
    have hfails' : m.failsAt c.templatePath = false := Bool.eq_false_iff.mpr hfails
    cases force with
    | false =>
      have hholds : (c.generate settings false m).2.holds c.templatePath = true :=
        holds_generate_self (by simp [hc]) hfails'
      generalize (c.generate settings false m).2 = n at hholds
      rw [generate, planIn_of_holds hholds]
      rfl
    | true =>
      have hput : (m.put c.templatePath e.render).failsAt c.templatePath = false := hfails'
      rw [snd_generate_true hc hfails', snd_generate_true hc hput]
      exact MemoryStore.put_put rfl (Or.inl rfl)

end Component

/-! ## What comes of a second run -/

/-- What comes of a second run: what was generated is up to date. -/
def Outcome.again : Outcome → Outcome
  | generated destination => skipped destination .upToDate
  | skipped destination reason => skipped destination reason

namespace Component

variable {settings : Settings} {force : Bool} {c : Component} {m : MemoryStore} {l : List Component}

/-- Writing a template succeeds unless writing fails at its path. -/
theorem result_perform_write (c : Component) (text : String) (m : MemoryStore) :
    (c.perform (.write text) m).1.result =
      if m.failsAt c.templatePath then .error (.write c.templatePath .diskFull)
      else .ok (.generated c.templatePath) := by
  by_cases hfails : m.failsAt c.templatePath = true
  · have hwrite : Store.write m c.templatePath text = (.error .diskFull, m) := if_pos hfails
    rw [perform, hwrite, if_pos hfails]
  · have hwrite : Store.write m c.templatePath text = (.ok (), m.put c.templatePath text) :=
      if_neg hfails
    rw [perform, hwrite, if_neg hfails]

/-- **What comes of a component for the second time is told by what came of it before.** -/
theorem result_generate_again :
    (c.generate settings false (c.generate settings false m).2).1.result =
      (c.generate settings false m).1.result.map Outcome.again := by
  cases hplan : c.planIn settings false m with
  | upToDate =>
    have hfirst : c.generate settings false m = c.perform .upToDate m := by rw [generate, hplan]
    rw [hfirst]
    show (c.generate settings false m).1.result = _
    rw [hfirst]
    rfl
  | noInputs =>
    have hfirst : c.generate settings false m = c.perform .noInputs m := by rw [generate, hplan]
    rw [hfirst]
    show (c.generate settings false m).1.result = _
    rw [hfirst]
    rfl
  | write text =>
    have hfirst : c.generate settings false m = c.perform (.write text) m := by rw [generate, hplan]
    obtain ⟨-, e, he, -⟩ := planIn_eq_write_iff.mp hplan
    by_cases hfails : m.failsAt c.templatePath = true
    · rw [snd_generate_of_failsAt hfails, hfirst, result_perform_write, if_pos hfails]
      rfl
    · have hholds : (c.generate settings false m).2.holds c.templatePath = true :=
        holds_generate_self (by simp [he]) (Bool.eq_false_iff.mpr hfails)
      have hsecond : c.planIn settings false (c.generate settings false m).2 = .upToDate :=
        planIn_of_holds hholds
      rw [generate, hsecond, hfirst, result_perform_write, if_neg hfails]
      rfl

/-- What is still to be written after a component was generated cannot be written. -/
theorem failsAt_of_planIn_generate {text : String}
    (h : c.planIn settings false (c.generate settings false m).2 = .write text) :
    m.failsAt c.templatePath = true := by
  obtain ⟨hnew, e, he, -⟩ := planIn_eq_write_iff.mp h
  by_contra hfails
  have hholds : (c.generate settings false m).2.holds c.templatePath = true :=
    holds_generate_self (by simp [he]) (Bool.eq_false_iff.mpr hfails)
  exact Bool.false_ne_true ((hnew.resolve_left Bool.false_ne_true).symm.trans hholds)

/-! ## A batch that is run twice -/

theorem failsAt_storeAfter (l : List Component) (m : MemoryStore) (path : String) :
    (storeAfter settings force l m).failsAt path = m.failsAt path := by
  induction l generalizing m with
  | nil => rfl
  | cons d l ih => exact (ih _).trans (failsAt_generate d m path)

/-- A component may as well come behind a batch, if no component of the batch writes at its path. -/
theorem storeAfter_comm (h : ∀ d ∈ l, Apart c d ∨ d.document? settings = none) (m : MemoryStore) :
    storeAfter settings force l (c.generate settings force m).2 =
      (c.generate settings force (storeAfter settings force l m)).2 := by
  induction l generalizing m with
  | nil => rfl
  | cons d l ih =>
    obtain ⟨hd, hl⟩ := List.forall_mem_cons.mp h
    simp only [storeAfter, List.foldl_cons] at ih ⊢
    rw [← ih hl]
    rcases hd with happart | hnone
    · rw [snd_generate_generate settings force happart]
    · rw [snd_generate_of_document? hnone, snd_generate_of_document? hnone]

/-- What is written for a component does not matter when a component of the batch behind it writes
at the same path, if there was a text before. -/
theorem storeAfter_absorb (h : ∃ d ∈ l, ¬ Apart c d ∧ d.document? settings ≠ none)
    (hholds : m.holds c.templatePath = true) :
    storeAfter settings force l (c.generate settings force m).2 =
      storeAfter settings force l m := by
  induction l generalizing m with
  | nil =>
    obtain ⟨d, hd, -⟩ := h
    exact absurd hd List.not_mem_nil
  | cons d l ih =>
    simp only [storeAfter, List.foldl_cons] at ih ⊢
    by_cases hhere : ¬ Apart c d ∧ d.document? settings ≠ none
    · rw [snd_generate_absorb hhere.1 hhere.2 hholds]
    · -- the component goes past this one and meets the other one further behind
      have hlater : ∃ e ∈ l, ¬ Apart c e ∧ e.document? settings ≠ none := by
        obtain ⟨e, he, hboth⟩ := h
        rcases List.mem_cons.mp he with rfl | he
        · exact absurd hboth hhere
        · exact ⟨e, he, hboth⟩
      have hswap : (d.generate settings force (c.generate settings force m).2).2 =
          (c.generate settings force (d.generate settings force m).2).2 := by
        by_cases happart : Apart c d
        · exact snd_generate_generate settings force happart m
        · have hnone : d.document? settings = none := by
            by_contra hsome
            exact hhere ⟨happart, hsome⟩
          rw [snd_generate_of_document? hnone, snd_generate_of_document? hnone]
      rw [hswap, ih hlater (holds_generate hholds)]

theorem holds_storeAfter {path : String} (hholds : m.holds path = true) :
    (storeAfter settings force l m).holds path = true := by
  induction l generalizing m with
  | nil => exact hholds
  | cons d l ih => exact ih (holds_generate hholds)

/-- **A batch that is run twice leaves the store as it does when it is run once**, whatever its
components have in common. -/
theorem storeAfter_storeAfter (settings : Settings) (force : Bool) (l : List Component)
    (m : MemoryStore) : storeAfter settings force l (storeAfter settings force l m) =
      storeAfter settings force l m := by
  induction l generalizing m with
  | nil => rfl
  | cons c l ih =>
    have hcons : ∀ n : MemoryStore, storeAfter settings force (c :: l) n =
        storeAfter settings force l (c.generate settings force n).2 := fun _ => rfl
    rw [hcons, hcons]
    by_cases hidle : c.document? settings = none
    · rw [snd_generate_of_document? hidle, snd_generate_of_document? hidle, ih]
    by_cases hfails : m.failsAt c.templatePath = true
    · have hlater : (storeAfter settings force l m).failsAt c.templatePath = true :=
        (failsAt_storeAfter l m _).trans hfails
      rw [snd_generate_of_failsAt hfails, snd_generate_of_failsAt hlater, ih]
    by_cases hmeets : ∃ d ∈ l, ¬ Apart c d ∧ d.document? settings ≠ none
    · -- in the second run there is a text, and the later component puts its own there again
      have hholds : (c.generate settings force m).2.holds c.templatePath = true :=
        holds_generate_self hidle (Bool.eq_false_iff.mpr hfails)
      rw [storeAfter_absorb hmeets (holds_storeAfter hholds), ih]
    · -- nothing else is written at the path, so the two runs of the component come together
      have hfree : ∀ d ∈ l, Apart c d ∨ d.document? settings = none := by
        intro d hd
        by_contra hboth
        exact hmeets ⟨d, hd, not_or.mp hboth⟩
      rw [storeAfter_comm hfree, ih, ← storeAfter_comm hfree, snd_generate_generate_self]

/-- What is planned for a component behind a batch that it is in, and what comes of it, is what it
would be behind the component alone, if all are apart. -/
theorem generate_storeAfter_of_mem (hapart : l.Pairwise Apart) (hc : c ∈ l) :
    c.planIn settings force (storeAfter settings force l m) =
        c.planIn settings force (c.generate settings force m).2 ∧
      (c.generate settings force (storeAfter settings force l m)).1 =
        (c.generate settings force (c.generate settings force m).2).1 := by
  obtain ⟨before, after, rfl⟩ := List.append_of_mem hc
  have hperm : (before ++ c :: after).Perm (c :: (before ++ after)) := List.perm_middle
  have hothers : ∀ d ∈ before ++ after, Apart d c := by
    have hpair := hperm.pairwise hapart Apart.symm
    exact fun d hd => ((List.pairwise_cons.mp hpair).1 d hd).symm
  rw [storeAfter_perm settings force hperm hapart, storeAfter, List.foldl_cons, ← storeAfter]
  exact ⟨planIn_storeAfter settings force hothers _,
    fst_generate_storeAfter settings force hothers _⟩

end Component

/-! ## Steps without force -/

namespace Batch

/-- The texts of a store are still there, and nothing is planned where one of them is. -/
structure Spares (m : MemoryStore) (b : Batch MemoryStore) : Prop where
  /-- The texts are still there. -/
  file?_eq : ∀ path, m.holds path = true → b.store.file? path = m.file? path
  /-- What is planned is planned where there was no text. -/
  planned : ∀ t ∈ b.tasks, ∀ text, t.2 = .planned (.write text) → m.holds t.1.templatePath = false

variable {settings : Settings} {m : MemoryStore} {b b' : Batch MemoryStore}

theorem spares_start (r : Registry) (m : MemoryStore) : Spares m (start r m) where
  file?_eq _ _ := rfl
  planned t ht text htext := by
    obtain ⟨c, -, rfl⟩ := List.mem_map.mp ht
    exact absurd htext (by simp)

/-- Every step without force leaves the texts that are there. -/
theorem Spares.step (h : Spares m b) (hstep : Step settings false b b') : Spares m b' := by
  cases hstep with
  | ask s before after c =>
    refine ⟨h.file?_eq, forall_mem_of_change h.planned ?_⟩
    intro text htext
    obtain ⟨hnew, -⟩ := planIn_eq_write_iff.mp (Phase.planned.inj htext)
    by_contra hholds
    have hthere : s.holds c.templatePath = true :=
      MemoryStore.holds_of_file?_eq (h.file?_eq _ (by simpa using hholds)) (by simpa using hholds)
    exact Bool.false_ne_true ((hnew.resolve_left Bool.false_ne_true).symm.trans hthere)
  | act s before after c plan =>
    have hplan : ∀ text, plan = .write text → m.holds c.templatePath = false := fun text htext =>
      h.planned (c, .planned plan) (List.mem_append_right _ List.mem_cons_self) text (by rw [htext])
    refine ⟨fun path hholds => ?_, forall_mem_of_change h.planned ?_⟩
    · exact (file?_perform hplan hholds).trans (h.file?_eq path hholds)
    · intro text htext
      exact absurd htext (by simp)

/-- All steps without force leave the texts that are there. -/
theorem Spares.reaches (h : Spares m b) (hreach : Reaches settings false b b') : Spares m b' := by
  induction hreach with
  | refl => exact h
  | tail _ hstep ih => exact ih.step hstep

/-- A batch of a registry is brought to its end. -/
def Ends (settings : Settings) (force : Bool) (r : Registry) (m : MemoryStore)
    (b : Batch MemoryStore) : Prop :=
  Reaches settings force (start r m) b ∧ b.IsDone

/-- A batch of components that are apart ends as the sequential one. -/
theorem Ends.eq_generateAll {force : Bool} {r : Registry} (h : Ends settings force r m b)
    (hapart : r.components.Pairwise Apart) :
    r.generateAll settings force m = (b.attempts, b.store) := by
  have htracks := (tracks_start r m).reaches hapart h.1
  rw [Registry.generateAll, inTurn_generate settings force hapart, htracks.attempts_of_isDone h.2,
    htracks.store, htracks.finished_of_isDone h.2]

end Batch

namespace Registry

/-- What happens to a registry and a store without force: a component is inserted, or templates are
generated, one of them, all of them in turn, or all of them at once up to any point. -/
inductive Unforced (settings : Settings) : Registry × MemoryStore → Registry × MemoryStore → Prop
  /-- A component is inserted. -/
  | insert (r : Registry) (m : MemoryStore) (c : Component) :
    Unforced settings (r, m) (r.insert c, m)
  /-- The template of the component with an identifier is generated. -/
  | generateOne (r : Registry) (m : MemoryStore) (id : String) :
    Unforced settings (r, m) (r, (r.generateOne settings false id m).2)
  /-- All templates are generated, one after the other. -/
  | generateAll (r : Registry) (m : MemoryStore) :
    Unforced settings (r, m) (r, (r.generateAll settings false m).2)
  /-- All templates are worked on at once. -/
  | atOnce (r : Registry) (m : MemoryStore) (b : Batch MemoryStore) :
    Batch.Reaches settings false (Batch.start r m) b → Unforced settings (r, m) (r, b.store)

variable {settings : Settings} {r r' : Registry} {m m' : MemoryStore} {path : String}

theorem file?_storeAfter (l : List Component) (hholds : m.holds path = true) :
    (storeAfter settings false l m).file? path = m.file? path := by
  induction l generalizing m with
  | nil => rfl
  | cons c l ih => exact (ih (holds_generate hholds)).trans (file?_generate hholds)

/-- One thing that happens without force leaves the texts that are there. -/
theorem Unforced.file?_eq (h : Unforced settings (r, m) (r', m')) (hholds : m.holds path = true) :
    m'.file? path = m.file? path := by
  cases h with
  | insert => rfl
  | generateOne _ _ id =>
    rw [Registry.generateOne]
    split
    · exact file?_generate hholds
    · rfl
  | generateAll =>
    rw [Registry.generateAll, snd_inTurn]
    exact file?_storeAfter r.components hholds
  | atOnce _ _ b hreach => exact ((Batch.spares_start r m).reaches hreach).file?_eq path hholds

/-- Whatever happens without force leaves the texts that are there. -/
theorem file?_eq_of_unforced {s s' : Registry × MemoryStore}
    (h : Relation.ReflTransGen (Unforced settings) s s') (hholds : s.2.holds path = true) :
    s'.2.file? path = s.2.file? path := by
  induction h with
  | refl => rfl
  | tail _ hstep ih =>
    exact (hstep.file?_eq (MemoryStore.holds_of_file?_eq ih hholds)).trans ih

/-- Generating all templates twice leaves the store as generating them once does. -/
theorem snd_generateAll_generateAll (settings : Settings) (force : Bool) (r : Registry)
    (m : MemoryStore) :
    (r.generateAll settings force (r.generateAll settings force m).2).2 =
      (r.generateAll settings force m).2 := by
  simp only [generateAll, snd_inTurn]
  exact storeAfter_storeAfter settings force r.components m

/-- What comes of a second run is told by what came of the first one, if
all components are apart. -/
theorem results_generateAll_generateAll (hapart : r.components.Pairwise Apart) (m : MemoryStore) :
    Attempt.results (r.generateAll settings false (r.generateAll settings false m).2).1 =
      (Attempt.results (r.generateAll settings false m).1).map (Except.map Outcome.again) := by
  simp only [generateAll, inTurn_generate settings false hapart, Attempt.results, List.map_map]
  apply List.map_congr_left
  intro c hc
  show (c.generate settings false (storeAfter settings false r.components m)).1.result = _
  rw [(generate_storeAfter_of_mem hapart hc).2]
  exact result_generate_again

/-- **Without force nothing that is there changes, and a second run changes nothing at all.**  In a
store with any texts and any paths that cannot be written, every text stays as it is, whatever
components are inserted and templates generated without force.  If the templates of a registry have
different paths, generating all of them a second time writes none: the store stays as it is, what
was generated or up to date is up to date, and what failed fails again.  With force as well, all at
once or one after the other, the second run leaves the store of the first one; one after the other
that holds of any paths. -/
theorem generateAll_again (settings : Settings) (r : Registry) (m : MemoryStore) :
    (∀ r' m', Relation.ReflTransGen (Unforced settings) (r, m) (r', m') →
      ∀ path, m.holds path = true → m'.file? path = m.file? path) ∧
    ((r.components.map fun c => Path.parts c.templatePath).Nodup →
      let first := r.generateAll settings false m
      let second := r.generateAll settings false first.2
      second.2 = first.2 ∧
        (∀ c ∈ r.components, ∀ text, c.planIn settings false first.2 = .write text →
          m.failsAt c.templatePath = true) ∧
        Attempt.results second.1 = (Attempt.results first.1).map (Except.map Outcome.again) ∧
        ∀ force b b', Batch.Ends settings force r m b → Batch.Ends settings force r b.store b' →
          r.generateAll settings force m = (b.attempts, b.store) ∧
            r.generateAll settings force b.store = (b'.attempts, b'.store) ∧ b'.store = b.store) ∧
    (r.generateAll settings true (r.generateAll settings true m).2).2 =
      (r.generateAll settings true m).2 := by
  refine ⟨fun r' m' hruns path hholds => file?_eq_of_unforced hruns hholds, fun hpaths => ?_,
    snd_generateAll_generateAll settings true r m⟩
  have hapart : r.components.Pairwise Apart := pairwise_apart_iff.mpr hpaths
  refine ⟨snd_generateAll_generateAll settings false r m, fun c hc text htext => ?_,
    results_generateAll_generateAll hapart m, fun force b b' hb hb' => ?_⟩
  · rw [generateAll, snd_inTurn, ← storeAfter, (generate_storeAfter_of_mem hapart hc).1] at htext
    exact failsAt_of_planIn_generate htext
  · have hfirst := hb.eq_generateAll hapart
    have hsecond := hb'.eq_generateAll hapart
    refine ⟨hfirst, hsecond, ?_⟩
    have hagain := snd_generateAll_generateAll settings force r m
    rw [hfirst, hsecond] at hagain
    exact hagain

/-- Three components with a prop and one without inputs. -/
def quartet : Registry :=
  ofComponents (Component.bare "ui:rule" "Rule" "rule" "ui/rule" :: Batch.trio)

/-- Of four components the first run leaves the template that is there, fails for the one that
cannot be written and writes one; the second run finds that one, and fails again. -/
theorem generateAll_again_quartet :
    (quartet.components.map fun c => Path.parts c.templatePath).Nodup ∧
    let first := quartet.generateAll Settings.standard false Batch.trioStore
    let second := quartet.generateAll Settings.standard false first.2
    first.2.text? "ui/card/card.stories.twig" = some "by hand" ∧ second.2 = first.2 ∧
      Attempt.results first.1 =
        [.ok (.skipped "ui/card/card.stories.twig" .upToDate),
          .error (.write "ui/link/link.stories.twig" .diskFull),
          .ok (.generated "ui/menu/menu.stories.twig"),
          .ok (.skipped "ui/rule/rule.stories.twig" .noInputs)] ∧
      Attempt.results second.1 =
        [.ok (.skipped "ui/card/card.stories.twig" .upToDate),
          .error (.write "ui/link/link.stories.twig" .diskFull),
          .ok (.skipped "ui/menu/menu.stories.twig" .upToDate),
          .ok (.skipped "ui/rule/rule.stories.twig" .noInputs)] := by
  have hpaths : (quartet.components.map fun c => Path.parts c.templatePath).Nodup := by
    decide +kernel
  have hall := generateAll_again Settings.standard quartet Batch.trioStore
  have hkept := hall.1 _ _ (.single (.generateAll quartet Batch.trioStore))
    "ui/card/card.stories.twig" (by decide +kernel)
  obtain ⟨hstore, -, hresults, -⟩ := hall.2.1 hpaths
  have hfirst : Attempt.results (quartet.generateAll Settings.standard false Batch.trioStore).1 =
      [.ok (.skipped "ui/card/card.stories.twig" .upToDate),
        .error (.write "ui/link/link.stories.twig" .diskFull),
        .ok (.generated "ui/menu/menu.stories.twig"),
        .ok (.skipped "ui/rule/rule.stories.twig" .noInputs)] := by decide +kernel
  refine ⟨hpaths, ?_, hstore, hfirst, ?_⟩
  · rw [MemoryStore.text?, hkept]
    decide +kernel
  · rw [hresults, hfirst]
    rfl

end Registry

end ComponentStories
