import ComponentStories.Component.Generate
import ComponentStories.Proofs.Store.Independent
import Mathlib.Data.List.Pairwise

/-
# Generating the templates of components that lie apart

Two components are apart if their templates have different paths.  In an independent store what is
planned for one of them and what comes of it do not depend on the other, and the two change the
store in either order to the same effect.  So a batch of such components gives each of them what it
would get alone (`inTurn_generate`), and leaves the same store in whatever order they come
(`storeAfter_perm`).
-/

namespace ComponentStories

theorem snd_inTurn {σ α β : Type} (act : α → σ → β × σ) (l : List α) (s : σ) :
    (inTurn act l s).2 = l.foldl (fun s a => (act a s).2) s := by
  induction l generalizing s with
  | nil => rfl
  | cons a l ih => exact ih (act a s).2

namespace Component

/-- The templates of two components have different paths. -/
def Apart (c d : Component) : Prop := Path.parts c.templatePath ≠ Path.parts d.templatePath

theorem Apart.symm {c d : Component} (h : Apart c d) : Apart d c := Ne.symm h

instance : Std.Symm Apart := ⟨fun _ _ => Apart.symm⟩

/-- Components of different paths are apart, and the other way round. -/
theorem pairwise_apart_iff {l : List Component} :
    l.Pairwise Apart ↔ (l.map fun c => Path.parts c.templatePath).Nodup := by
  rw [List.Nodup, List.pairwise_map]
  rfl

variable {σ : Type} [Store σ]

/-- What is planned changes the store only by writing at the path of the template. -/
theorem snd_perform (c : Component) (plan : Plan) (s : σ) :
    (c.perform plan s).2 =
      match plan with
      | .write text => (Store.write s c.templatePath text).2
      | _ => s := by
  cases plan with
  | upToDate => rfl
  | noInputs => rfl
  | write text =>
    rw [perform]
    dsimp only
    split <;> rename_i h <;> rw [h]

/-- A text is to be written if there is no template or it is forced, and then it is the document. -/
theorem planIn_eq_write_iff {settings : Settings} {force : Bool} {c : Component} {s : σ}
    {text : String} : c.planIn settings force s = .write text ↔
      (force = true ∨ Store.holds s c.templatePath = false) ∧
        ∃ d, c.document? settings = some d ∧ text = d.render := by
  have hgenerate :
      Policy.existence.shouldGenerate (Store.holds s c.templatePath) false force = true ↔
      force = true ∨ Store.holds s c.templatePath = false := by
    simp [Policy.shouldGenerate]
  rw [planIn, plan, ← hgenerate]
  split
  · rename_i hyes
    cases hdocument : c.document? settings with
    | none => simp
    | some d => simp [hyes, eq_comm]
  · rename_i hno
    simp [hno]

/-- What comes of a plan depends on the store only through what comes of writing. -/
theorem fst_perform_congr {c : Component} {plan : Plan} {s s' : σ}
    (h : ∀ text, (Store.write s c.templatePath text).1 = (Store.write s' c.templatePath text).1) :
    (c.perform plan s).1 = (c.perform plan s').1 := by
  cases plan with
  | upToDate => rfl
  | noInputs => rfl
  | write text =>
    have htext := h text
    rw [perform, perform]
    split <;> split <;> simp_all

variable [Store.Independent σ] {c d : Component}

/-! ## Two components -/

/-- What is planned for a component does not depend on what is done for another one. -/
theorem planIn_perform (h : Apart c d) (settings : Settings) (force : Bool) (plan : Plan) (s : σ) :
    d.planIn settings force (c.perform plan s).2 = d.planIn settings force s := by
  rw [planIn, planIn, snd_perform]
  split
  · rw [Store.Independent.holds_write _ _ _ _ h]
  · rfl

/-- What comes of a plan does not depend on what is done for another component. -/
theorem fst_perform_perform (h : Apart c d) (plan plan' : Plan) (s : σ) :
    (d.perform plan' (c.perform plan s).2).1 = (d.perform plan' s).1 := by
  apply fst_perform_congr
  intro text
  rw [snd_perform]
  split
  · exact Store.Independent.fst_write_write _ _ _ _ _ h
  · rfl

/-- Plans for two components change the store in either order to the same effect. -/
theorem snd_perform_perform (h : Apart c d) (plan plan' : Plan) (s : σ) :
    (d.perform plan' (c.perform plan s).2).2 = (c.perform plan (d.perform plan' s).2).2 := by
  cases plan with
  | upToDate => rfl
  | noInputs => rfl
  | write text =>
    cases plan' with
    | upToDate => rfl
    | noInputs => rfl
    | write text' =>
      simp only [snd_perform]
      exact Store.Independent.snd_write_write _ _ _ _ _ h

variable (settings : Settings) (force : Bool)

/-- What a component gets does not depend on another one. -/
theorem fst_generate_generate (h : Apart c d) (s : σ) :
    (d.generate settings force (c.generate settings force s).2).1 =
      (d.generate settings force s).1 := by
  rw [generate, generate, generate, planIn_perform h, fst_perform_perform h]

/-- Two components change the store in either order to the same effect. -/
theorem snd_generate_generate (h : Apart c d) (s : σ) :
    (d.generate settings force (c.generate settings force s).2).2 =
      (c.generate settings force (d.generate settings force s).2).2 := by
  simp only [generate]
  rw [planIn_perform h, planIn_perform h.symm, snd_perform_perform h]

/-! ## Batches -/

/-- The store behind a batch of components. -/
def storeAfter (l : List Component) (s : σ) : σ :=
  l.foldl (fun s c => (c.generate settings force s).2) s

/-- What is planned for a component does not depend on a batch of other ones. -/
theorem planIn_storeAfter {l : List Component} (h : ∀ d ∈ l, Apart d c) (s : σ) :
    c.planIn settings force (storeAfter settings force l s) = c.planIn settings force s := by
  induction l generalizing s with
  | nil => rfl
  | cons d l ih =>
    obtain ⟨hd, hl⟩ := List.forall_mem_cons.mp h
    rw [storeAfter, List.foldl_cons, ← storeAfter, ih hl, generate, planIn_perform hd]

/-- What a component gets does not depend on a batch of other ones. -/
theorem fst_generate_storeAfter {l : List Component} (h : ∀ d ∈ l, Apart d c) (s : σ) :
    (c.generate settings force (storeAfter settings force l s)).1 =
      (c.generate settings force s).1 := by
  induction l generalizing s with
  | nil => rfl
  | cons d l ih =>
    obtain ⟨hd, hl⟩ := List.forall_mem_cons.mp h
    rw [storeAfter, List.foldl_cons, ← storeAfter, ih hl, fst_generate_generate settings force hd]

/-- **The order of components that are apart does not matter** to the store behind them. -/
theorem storeAfter_perm {l l' : List Component} (hperm : l.Perm l') (h : l.Pairwise Apart) (s : σ) :
    storeAfter settings force l s = storeAfter settings force l' s := by
  refine hperm.foldl_eq' ?_ s
  intro c hc d hd s
  by_cases heq : c = d
  · rw [heq]
  · exact snd_generate_generate settings force (h.forall hc hd heq) s

/-- **Every component of a batch gets what it would get alone** if the components are apart. -/
theorem inTurn_generate {l : List Component} (h : l.Pairwise Apart) (s : σ) :
    inTurn (Component.generate settings force) l s =
      (l.map fun c => (c.generate settings force s).1, storeAfter settings force l s) := by
  refine Prod.ext ?_ (snd_inTurn _ l s)
  induction l generalizing s with
  | nil => rfl
  | cons c l ih =>
    obtain ⟨hc, hl⟩ := List.pairwise_cons.mp h
    have hrest : (inTurn (Component.generate settings force) l (c.generate settings force s).2).1 =
        l.map fun d => (d.generate settings force s).1 := by
      rw [ih hl]
      apply List.map_congr_left
      intro d hd
      exact fst_generate_generate settings force (hc d hd) s
    exact congrArg₂ _ rfl hrest

end Component

end ComponentStories
