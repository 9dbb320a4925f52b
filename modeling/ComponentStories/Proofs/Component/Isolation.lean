import ComponentStories.Proofs.Component.Schedule
import ComponentStories.Proofs.Component.Outcomes
import Mathlib.Data.Option.Basic

/-
# Failures stay where they are

Two batches work on the same components by the same schedule, one of them in a store where writing
never fails and the other one where it fails at some paths.  Side by side (`Batch.Beside`), they do
the same for every component whose template is not at such a path, and there the stores hold the
same texts.  At such a path nothing is written, so a component there gets what it would get alone:
in particular writing fails if it would have succeeded otherwise (`Isolated`, `isolated_run`).
-/

namespace ComponentStories

open Component

/-! ## Stores side by side -/

namespace MemoryStore

variable {m g b : MemoryStore} {failing : List String} {p q : String}

/-- Writing fails exactly at the given paths, however they are spelled. -/
theorem failsAt_failAt_iff :
    (m.failAt failing).failsAt p = true ↔ Path.parts p ∈ failing.map Path.parts :=
  List.contains_iff_mem

/-- A path where writing fails has other parts than one where it does not. -/
theorem parts_ne_of_failsAt (hp : m.failsAt p = true) (hq : m.failsAt q = false) :
    Path.parts p ≠ Path.parts q := by
  intro heq
  rw [failsAt, heq, ← failsAt, hq] at hp
  exact Bool.false_ne_true hp

/-- A store where writing never fails and, next to it, one where writing fails at some paths.  Both
come from a third store: at these paths the second one holds what was there in the beginning, and at
the other ones what the first one holds. -/
structure Beside (m : MemoryStore) (failing : List String) (g b : MemoryStore) : Prop where
  /-- Writing never fails in the first store. -/
  sound : ∀ p, g.failsAt p = false
  /-- Writing fails at the given paths in the second one. -/
  fails : ∀ p, b.failsAt p = (m.failAt failing).failsAt p
  /-- The stores hold the same where writing does not fail. -/
  same : ∀ p, (m.failAt failing).failsAt p = false → b.file? p = g.file? p
  /-- The second store holds what was there in the beginning where writing fails. -/
  kept : ∀ p, (m.failAt failing).failsAt p = true → b.file? p = m.file? p
  /-- The first store holds what was there in the beginning, or something else. -/
  grown : ∀ p, m.holds p = true → g.holds p = true

/-- Before anything is written the stores differ in where writing fails. -/
theorem beside_failAt (m : MemoryStore) (failing : List String) :
    Beside m failing (m.failAt []) (m.failAt failing) where
  sound _ := rfl
  fails _ := rfl
  same _ _ := rfl
  kept _ _ := rfl
  grown _ h := h

/-- A text may be put into both stores where writing does not fail. -/
theorem Beside.put (h : Beside m failing g b) (hp : (m.failAt failing).failsAt p = false)
    (text : String) : Beside m failing (g.put p text) (b.put p text) where
  sound := h.sound
  fails := h.fails
  same q hq := by
    by_cases hpq : Path.parts p = Path.parts q
    · rw [file?_put_of_eq hpq, file?_put_of_eq hpq, h.same p hp]
    · rw [file?_put_of_ne hpq, file?_put_of_ne hpq, h.same q hq]
  kept q hq := by rw [file?_put_of_ne (parts_ne_of_failsAt hq hp).symm, h.kept q hq]
  grown q hq := holds_put.mpr (Or.inr (h.grown q hq))

/-- A text may be put into the first store where writing fails. -/
theorem Beside.put_left (h : Beside m failing g b) (hp : (m.failAt failing).failsAt p = true)
    (text : String) : Beside m failing (g.put p text) b where
  sound := h.sound
  fails := h.fails
  same q hq := by rw [file?_put_of_ne (parts_ne_of_failsAt hp hq), h.same q hq]
  kept := h.kept
  grown q hq := holds_put.mpr (Or.inr (h.grown q hq))

end MemoryStore

/-! ## Work side by side -/

section Beside

variable {settings : Settings} {force : Bool} {m g b : MemoryStore} {failing : List String}
  {c : Component}

/-- What is planned for a component whose path can be written is done in both
stores to the same effect. -/
theorem MemoryStore.Beside.perform (h : MemoryStore.Beside m failing g b)
    (hc : (m.failAt failing).failsAt c.templatePath = false) (plan : Plan) :
    (c.perform plan b).1 = (c.perform plan g).1 ∧
      MemoryStore.Beside m failing (c.perform plan g).2 (c.perform plan b).2 := by
  have hb : b.failsAt c.templatePath = false := (h.fails _).trans hc
  have hg : g.failsAt c.templatePath = false := h.sound _
  constructor
  · refine fst_perform_congr fun text => ?_
    show (b.write c.templatePath text).1 = (g.write c.templatePath text).1
    rw [MemoryStore.write, MemoryStore.write, hb, hg]
    rfl
  · rw [snd_perform_memory, snd_perform_memory, hb, hg]
    split
    · exact h.put hc _
    · exact h

/-- What is planned for a component whose path cannot be written changes the first store at most. -/
theorem MemoryStore.Beside.perform_left (h : MemoryStore.Beside m failing g b)
    (hc : (m.failAt failing).failsAt c.templatePath = true) (plan plan' : Plan) :
    MemoryStore.Beside m failing (c.perform plan g).2 (c.perform plan' b).2 := by
  have hb : (c.perform plan' b).2 = b := by
    rw [snd_perform_memory, (h.fails _).trans hc]
    split <;> rfl
  rw [hb, snd_perform_memory, h.sound]
  split
  · exact h.put_left hc _
  · exact h

/-- How far the work on a component has come, next to the same work without failures. -/
inductive Phase.Beside (settings : Settings) (force : Bool) (m : MemoryStore)
    (failing : List String) (c : Component) : Phase → Phase → Prop
  /-- It is the same if the path of the component can be written. -/
  | same (phase : Phase) (path : (m.failAt failing).failsAt c.templatePath = false) :
    Beside settings force m failing c phase phase
  /-- Nothing was done yet. -/
  | waiting (path : (m.failAt failing).failsAt c.templatePath = true) :
    Beside settings force m failing c .waiting .waiting
  /-- What is planned is what would be planned in the beginning, and that is the text that is to be
  written without failures. -/
  | planned {plan : Plan} (path : (m.failAt failing).failsAt c.templatePath = true)
      (written : ∀ text, plan = .write text →
        c.planIn settings force (m.failAt failing) = .write text) :
    Beside settings force m failing c (.planned plan)
      (.planned (c.planIn settings force (m.failAt failing)))
  /-- What came of it is what would come of it in the beginning, and writing fails if it
  does not without failures. -/
  | finished {a : Attempt} (path : (m.failAt failing).failsAt c.templatePath = true)
      (refused : ∀ destination, a.result = .ok (.generated destination) →
        (c.generate settings force (m.failAt failing)).1.result =
          .error (.write c.templatePath .diskFull)) :
    Beside settings force m failing c (.finished a)
      (.finished (c.generate settings force (m.failAt failing)).1)

/-- What is planned for a component whose path cannot be written. -/
theorem MemoryStore.Beside.planIn_eq (h : MemoryStore.Beside m failing g b)
    (hc : (m.failAt failing).failsAt c.templatePath = true) (settings : Settings) (force : Bool) :
    c.planIn settings force b = c.planIn settings force (m.failAt failing) ∧
      ∀ text, c.planIn settings force g = .write text →
        c.planIn settings force (m.failAt failing) = .write text := by
  have hholds : (Store.holds b c.templatePath : Bool) =
      Store.holds (m.failAt failing) c.templatePath :=
    congrArg Option.isSome (h.kept _ hc)
  refine ⟨by rw [planIn, planIn, hholds], fun text hplan => ?_⟩
  obtain ⟨hdue, hdocument⟩ := planIn_eq_write_iff.mp hplan
  refine planIn_eq_write_iff.mpr ⟨hdue.imp id fun hnone => ?_, hdocument⟩
  by_contra hthere
  exact Bool.false_ne_true (hnone.symm.trans (h.grown _ (Bool.not_eq_false _ ▸ hthere)))

/-- A plan for a component whose path cannot be written fails if it would succeed otherwise. -/
theorem result_perform_of_generated {plan : Plan} {destination : String}
    (hb : b.failsAt c.templatePath = true)
    (h : (c.perform plan g).1.result = .ok (.generated destination)) {plan' : Plan}
    (hwritten : ∀ text, plan = .write text → plan' = .write text) :
    (c.perform plan' b).1.result = .error (.write c.templatePath .diskFull) := by
  cases plan with
  | upToDate => exact absurd h (by simp [perform])
  | noInputs => exact absurd h (by simp [perform])
  | write text =>
    rw [hwritten text rfl, perform]
    have hwrite : Store.write b c.templatePath text = (.error .diskFull, b) := if_pos hb
    rw [hwrite]

/-- **One step of the work on a component** keeps the work and the stores side by side. -/
theorem Phase.Beside.next {phase phase' : Phase}
    (h : Phase.Beside settings force m failing c phase phase')
    (hstores : MemoryStore.Beside m failing g b) :
    Phase.Beside settings force m failing c (phase.next settings force c g).1
        (phase'.next settings force c b).1 ∧
      MemoryStore.Beside m failing (phase.next settings force c g).2
        (phase'.next settings force c b).2 := by
  cases h with
  | same phase hc =>
    cases phase with
    | waiting =>
      have hplan : c.planIn settings force b = c.planIn settings force g := by
        rw [planIn, planIn]
        exact congrArg (c.plan settings · force) (congrArg Option.isSome (hstores.same _ hc))
      refine ⟨?_, hstores⟩
      rw [Phase.next, Phase.next, hplan]
      exact .same _ hc
    | planned plan =>
      obtain ⟨hattempt, hstores⟩ := hstores.perform hc plan
      refine ⟨?_, hstores⟩
      rw [Phase.next, Phase.next, hattempt]
      exact .same _ hc
    | finished a => exact ⟨.same _ hc, hstores⟩
  | waiting hc =>
    obtain ⟨hplan, hwritten⟩ := hstores.planIn_eq hc settings force
    refine ⟨?_, hstores⟩
    rw [Phase.next, Phase.next, hplan]
    exact .planned hc hwritten
  | @planned plan hc hwritten =>
    have hb : b.failsAt c.templatePath = true := (hstores.fails _).trans hc
    have hattempt : (c.perform (c.planIn settings force (m.failAt failing)) b).1 =
        (c.generate settings force (m.failAt failing)).1 := by
      refine fst_perform_congr fun text => ?_
      show (b.write c.templatePath text).1 = ((m.failAt failing).write c.templatePath text).1
      rw [MemoryStore.write, MemoryStore.write, hb, hc]
      rfl
    refine ⟨?_, hstores.perform_left hc _ _⟩
    rw [Phase.next, Phase.next, hattempt]
    exact .finished hc fun destination hgenerated =>
      result_perform_of_generated hc hgenerated hwritten
  | finished hc hrefused => exact ⟨.finished hc hrefused, hstores⟩

end Beside

/-! ## Batches side by side -/

section Batches

variable {settings : Settings} {force : Bool} {m : MemoryStore} {failing : List String}

/-- Two batches that work on the same components, one of them without failures. -/
structure Batch.Beside (settings : Settings) (force : Bool) (m : MemoryStore)
    (failing : List String) (g b : Batch MemoryStore) : Prop where
  /-- The stores differ at the given paths only. -/
  store : MemoryStore.Beside m failing g.store b.store
  /-- The work on each component has come as far. -/
  tasks : ∀ i : Nat, Option.Rel (fun t t' => t'.1 = t.1 ∧
    Phase.Beside settings force m failing t.1 t.2 t'.2) g.tasks[i]? b.tasks[i]?

/-- The batches are side by side in the beginning. -/
theorem Batch.beside_start (settings : Settings) (force : Bool) (r : Registry) (m : MemoryStore)
    (failing : List String) :
    Batch.Beside settings force m failing (start r (m.failAt [])) (start r (m.failAt failing)) where
  store := m.beside_failAt failing
  tasks i := by
    show Option.Rel _ (start r m).tasks[i]? (start r m).tasks[i]?
    cases htask : (start r m).tasks[i]? with
    | none => exact .none
    | some t =>
      obtain ⟨c, -, rfl⟩ := List.mem_map.mp (List.mem_of_getElem? htask)
      refine .some ⟨rfl, ?_⟩
      cases hc : (m.failAt failing).failsAt c.templatePath with
      | false => exact .same _ hc
      | true => exact .waiting hc

/-- **One step of a schedule keeps the batches side by side.** -/
theorem Batch.Beside.advance {g b : Batch MemoryStore}
    (h : Batch.Beside settings force m failing g b) (i : Nat) :
    Batch.Beside settings force m failing (g.advance settings force i)
      (b.advance settings force i) := by
  obtain ⟨hstore, htasks⟩ := h
  have htask := htasks i
  rw [Batch.advance, Batch.advance]
  generalize hg : g.tasks[i]? = o at htask ⊢
  generalize hb : b.tasks[i]? = o' at htask ⊢
  cases htask with
  | none => exact ⟨hstore, htasks⟩
  | some ht =>
    rename_i t t'
    obtain ⟨c, phase⟩ := t
    obtain ⟨c', phase'⟩ := t'
    obtain ⟨rfl, hphase⟩ := ht
    obtain ⟨hnext, hstore⟩ := hphase.next hstore
    refine ⟨hstore, fun j => ?_⟩
    have hlt : i < g.tasks.length := (List.getElem?_eq_some_iff.mp hg).1
    have hlt' : i < b.tasks.length := (List.getElem?_eq_some_iff.mp hb).1
    dsimp only
    rw [List.getElem?_set, List.getElem?_set, if_pos hlt, if_pos hlt']
    split
    · exact .some ⟨rfl, hnext⟩
    · exact htasks j

/-- **A schedule keeps the batches side by side.** -/
theorem Batch.Beside.run {g b : Batch MemoryStore}
    (h : Batch.Beside settings force m failing g b) (schedule : List Nat) :
    Batch.Beside settings force m failing (g.run settings force schedule)
      (b.run settings force schedule) := by
  induction schedule generalizing g b with
  | nil => exact h
  | cons i schedule ih => exact ih (h.advance i)

/-! ## What came of a component -/

/-- What came of a component and the text at its path behind a batch where writing fails at some
paths, next to the same behind the batch without failures. -/
structure Isolated (settings : Settings) (force : Bool) (m : MemoryStore) (failing : List String)
    (c : Component) (good bad : Attempt) (g b : MemoryStore) : Prop where
  /-- If its path can be written, the same came of it, and the same text is there. -/
  same : Path.parts c.templatePath ∉ failing.map Path.parts →
    bad = good ∧ b.file? c.templatePath = g.file? c.templatePath
  /-- If its path cannot be written, it got what it would get alone, and the text is the old one. -/
  alone : Path.parts c.templatePath ∈ failing.map Path.parts →
    bad = (c.generate settings force (m.failAt failing)).1 ∧
      b.file? c.templatePath = m.file? c.templatePath
  /-- Writing fails there if it does not without failures. -/
  refused : Path.parts c.templatePath ∈ failing.map Path.parts →
    ∀ destination, good.result = .ok (.generated destination) →
      bad.result = .error (.write c.templatePath .diskFull)

/-- Work that is finished in one of two batches side by side is finished in the other one, and its
failures stay where they are. -/
theorem Batch.Beside.isolated {g b : Batch MemoryStore}
    (h : Batch.Beside settings force m failing g b) {i : Nat} {c : Component} {a : Attempt}
    (ha : g.tasks[i]? = some (c, .finished a)) :
    ∃ a', b.tasks[i]? = some (c, .finished a') ∧
      Isolated settings force m failing c a a' g.store b.store := by
  have htask := h.tasks i
  rw [ha] at htask
  cases hb : b.tasks[i]? with
  | none => exact absurd (hb ▸ htask) (by simp)
  | some t =>
    rw [hb, Option.rel_some_some] at htask
    obtain ⟨c', phase⟩ := t
    obtain ⟨hcomponent, hphase⟩ := htask
    obtain rfl : c = c' := hcomponent.symm
    replace hphase : Phase.Beside settings force m failing c (.finished a) phase := hphase
    cases hphase with
    | same _ hc =>
      have hpath : Path.parts c.templatePath ∉ failing.map Path.parts := by
        rw [← MemoryStore.failsAt_failAt_iff (m := m), hc]
        exact Bool.false_ne_true
      exact ⟨a, rfl, fun _ => ⟨rfl, h.store.same _ hc⟩, fun hmem => absurd hmem hpath,
        fun hmem => absurd hmem hpath⟩
    | finished hc hrefused =>
      have hpath : Path.parts c.templatePath ∈ failing.map Path.parts :=
        MemoryStore.failsAt_failAt_iff.mp hc
      exact ⟨_, rfl, fun hnot => absurd hpath hnot, fun _ => ⟨rfl, h.store.kept _ hc⟩,
        fun _ => hrefused⟩

/-- **Failures stay where they are, whatever the schedule is.** -/
theorem Batch.isolated_run (settings : Settings) (force : Bool) (r : Registry) (m : MemoryStore)
    (failing : List String) (schedule : List Nat) {i : Nat} {c : Component} {a : Attempt}
    (ha : ((start r (m.failAt [])).run settings force schedule).tasks[i]? =
      some (c, .finished a)) :
    ∃ a', ((start r (m.failAt failing)).run settings force schedule).tasks[i]? =
        some (c, .finished a') ∧
      Isolated settings force m failing c a a'
        ((start r (m.failAt [])).run settings force schedule).store
        ((start r (m.failAt failing)).run settings force schedule).store :=
  ((beside_start settings force r m failing).run schedule).isolated ha

/-- **Failures stay where they are when the templates are generated one after the other.** -/
theorem Registry.isolated_generateAll (settings : Settings) (force : Bool) (r : Registry)
    (m : MemoryStore) (failing : List String) {i : Nat} {c : Component} {a : Attempt}
    (hc : r.components[i]? = some c)
    (ha : (r.generateAll settings force (m.failAt [])).1[i]? = some a) :
    ∃ a', (r.generateAll settings force (m.failAt failing)).1[i]? = some a' ∧
      Isolated settings force m failing c a a' (r.generateAll settings force (m.failAt [])).2
        (r.generateAll settings force (m.failAt failing)).2 := by
  -- a finished component of the schedule that takes one after the other has the attempt
  -- at its place
  have htask : ∀ s : MemoryStore, ∀ x : Attempt,
      ((Batch.start r s).run settings force
          (Batch.consecutive 0 r.components.length)).tasks[i]? = some (c, .finished x) ↔
        (r.generateAll settings force s).1[i]? = some x := by
    intro s x
    rw [Batch.run_consecutive, List.getElem?_map, Option.map_eq_some_iff]
    constructor
    · rintro ⟨⟨c', x'⟩, hzip, heq⟩
      obtain ⟨rfl, hx⟩ := Prod.mk.inj heq
      obtain rfl := Phase.finished.inj hx
      exact (List.getElem?_zip_eq_some.mp hzip).2
    · intro hx
      exact ⟨(c, x), List.getElem?_zip_eq_some.mpr ⟨hc, hx⟩, rfl⟩
  obtain ⟨a', ha', hisolated⟩ :=
    Batch.isolated_run settings force r m failing _ ((htask _ a).mpr ha)
  refine ⟨a', (htask _ a').mp ha', ?_⟩
  rwa [Batch.run_consecutive, Batch.run_consecutive] at hisolated

end Batches

end ComponentStories
