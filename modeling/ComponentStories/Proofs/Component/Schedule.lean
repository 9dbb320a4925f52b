import ComponentStories.Proofs.Component.Interleaving

/-
# Schedules

A schedule says which component makes its next step, step after step.  Schedules bring a batch
exactly where steps in any order bring it (`reaches_iff`), and generating the templates one after
the other is what a schedule does that finishes every component before it turns to the next one
(`run_consecutive`).
-/

namespace ComponentStories

open Component

variable {σ : Type} [Store σ] (settings : Settings) (force : Bool)

/-- The next step of the work on a component; there is none behind the last one. -/
def Phase.next (c : Component) : Phase → σ → Phase × σ
  | waiting, s => (planned (c.planIn settings force s), s)
  | planned plan, s => (finished (c.perform plan s).1, (c.perform plan s).2)
  | finished a, s => (finished a, s)

namespace Batch

/-- The batch with the component at a position one step further. -/
def advance (b : Batch σ) (i : Nat) : Batch σ :=
  match b.tasks[i]? with
  | some (c, phase) =>
    let (phase, s) := phase.next settings force c b.store
    ⟨s, b.tasks.set i (c, phase)⟩
  | none => b

/-- The batch behind the steps of a schedule. -/
def run (schedule : List Nat) (b : Batch σ) : Batch σ := schedule.foldl (advance settings force) b

theorem run_cons (i : Nat) (schedule : List Nat) (b : Batch σ) :
    run settings force (i :: schedule) b =
      run settings force schedule (advance settings force b i) :=
  rfl

theorem run_append (schedule schedule' : List Nat) (b : Batch σ) :
    run settings force (schedule ++ schedule') b =
      run settings force schedule' (run settings force schedule b) :=
  List.foldl_append

theorem advance_length (s : σ) (before after : List (Component × Phase)) (c : Component)
    (phase : Phase) : advance settings force ⟨s, before ++ (c, phase) :: after⟩ before.length =
      ⟨(phase.next settings force c s).2,
        before ++ (c, (phase.next settings force c s).1) :: after⟩ := by
  simp [advance]

/-- Steps leave the components of a batch as they are. -/
theorem map_fst_run (schedule : List Nat) (b : Batch σ) :
    (run settings force schedule b).tasks.map Prod.fst = b.tasks.map Prod.fst := by
  induction schedule generalizing b with
  | nil => rfl
  | cons i schedule ih =>
    rw [run_cons, ih, advance]
    split
    · rename_i c phase htask
      have hfst : (b.tasks.map Prod.fst)[i]? = some c := by
        rw [List.getElem?_map, htask, Option.map_some]
      have hi : i < (b.tasks.map Prod.fst).length := (List.getElem?_eq_some_iff.mp hfst).1
      rw [List.map_set]
      ext j
      rw [List.getElem?_set, if_pos hi]
      split
      · rename_i hij
        rw [← hij, hfst]
      · rfl
    · rfl

/-! ## Steps in any order -/

variable {settings force}

/-- A step of a schedule is one of the steps in any order, or nothing changes. -/
theorem advance_eq_or_step (b : Batch σ) (i : Nat) :
    advance settings force b i = b ∨ Step settings force b (advance settings force b i) := by
  obtain ⟨s, tasks⟩ := b
  by_cases hi : i < tasks.length
  · -- the component is the one behind the first `i` ones
    obtain ⟨before, ⟨c, phase⟩, after, rfl, rfl⟩ :
        ∃ before t after, tasks = before ++ t :: after ∧ before.length = i :=
      ⟨tasks.take i, tasks[i], tasks.drop (i + 1), by simp, by simp [Nat.le_of_lt hi]⟩
    rw [advance_length]
    cases phase with
    | waiting => exact Or.inr (.ask s before after c)
    | planned plan => exact Or.inr (.act s before after c plan)
    | finished a => exact Or.inl rfl
  · left
    rw [advance, List.getElem?_eq_none (Nat.le_of_not_lt hi)]

/-- One of the steps in any order is a step of a schedule. -/
theorem Step.exists_advance {b b' : Batch σ} (h : Step settings force b b') :
    ∃ i, advance settings force b i = b' := by
  cases h with
  | ask s before after c => exact ⟨before.length, advance_length settings force s before after c _⟩
  | act s before after c plan =>
    exact ⟨before.length, advance_length settings force s before after c _⟩

/-- **Schedules bring a batch exactly where steps in any order bring it.** -/
theorem reaches_iff {b b' : Batch σ} :
    Reaches settings force b b' ↔ ∃ schedule, run settings force schedule b = b' := by
  constructor
  · intro h
    induction h with
    | refl => exact ⟨[], rfl⟩
    | tail _ hstep ih =>
      obtain ⟨schedule, rfl⟩ := ih
      obtain ⟨i, rfl⟩ := hstep.exists_advance
      exact ⟨schedule ++ [i], run_append settings force schedule [i] b⟩
  · rintro ⟨schedule, rfl⟩
    induction schedule generalizing b with
    | nil => exact .refl
    | cons i schedule ih =>
      rcases advance_eq_or_step b i with heq | hstep
      · rw [run_cons, heq]
        exact ih
      · exact .head hstep ih

/-! ## One component after the other -/

variable (settings force)

/-- The schedule that finishes each of some components before it turns to the next one. -/
def consecutive (first count : Nat) : List Nat := (List.range' first count).flatMap fun i => [i, i]

/-- Components that wait behind others are finished one after the other. -/
theorem run_consecutive_append (before : List (Component × Phase)) (cs : List Component) (s : σ) :
    run settings force (consecutive before.length cs.length)
        ⟨s, before ++ cs.map fun c => (c, .waiting)⟩ =
      ⟨(inTurn (Component.generate settings force) cs s).2,
        before ++ (cs.zip (inTurn (Component.generate settings force) cs s).1).map
          fun e => (e.1, .finished e.2)⟩ := by
  induction cs generalizing before s with
  | nil => rfl
  | cons c cs ih =>
    have hschedule : consecutive before.length (cs.length + 1) =
        before.length :: before.length :: consecutive (before.length + 1) cs.length := by
      simp [consecutive, List.range'_succ]
    have hrest := ih (before ++ [(c, .finished (c.generate settings force s).1)])
      (c.generate settings force s).2
    rw [List.length_append, List.length_singleton] at hrest
    simp only [List.append_assoc, List.singleton_append] at hrest
    rw [List.length_cons, hschedule, run_cons, run_cons, List.map_cons, advance_length,
      advance_length]
    exact hrest

/-- **Generating the templates one after the other is one of the schedules.** -/
theorem run_consecutive (r : Registry) (s : σ) :
    run settings force (consecutive 0 r.components.length) (start r s) =
      ⟨(r.generateAll settings force s).2,
        (r.components.zip (r.generateAll settings force s).1).map fun e => (e.1, .finished e.2)⟩ :=
  run_consecutive_append settings force [] r.components s

/-- Behind this schedule every component is finished, and the attempts are those of generating the
templates one after the other. -/
theorem isDone_run_consecutive (r : Registry) (s : σ) :
    (run settings force (consecutive 0 r.components.length) (start r s)).IsDone ∧
      (run settings force (consecutive 0 r.components.length) (start r s)).attempts =
        (r.generateAll settings force s).1 := by
  have hlength : (r.generateAll settings force s).1.length = r.components.length :=
    length_inTurn _ _ _
  rw [run_consecutive]
  constructor
  · intro t ht
    obtain ⟨e, -, rfl⟩ := List.mem_map.mp ht
    rfl
  · rw [attempts, List.filterMap_map]
    show (r.components.zip _).filterMap (some ∘ Prod.snd) = _
    rw [List.filterMap_eq_map, List.map_snd_zip (le_of_eq hlength)]

end Batch

end ComponentStories
