import ComponentStories.Proofs.Component.Generate
import ComponentStories.Proofs.Registry
import Mathlib.Algebra.GroupWithZero.Nat
import Mathlib.Data.List.Perm.Basic
import Mathlib.Logic.Relation

/-
# Batches that work on all components at once

A batch may work on its components at the same time.  The work on one of them has two steps: it asks
whether there is a template, and then it does what is planned.  Between these steps the others may
make theirs.  A batch of components that lie apart gives the same results and leaves the same store
however the steps are interleaved (`interleaving_eq_generateAll`).  The invariant is `Batch.Tracks`:
what is planned is what would be planned at the start, and the store is the one behind the
components that are finished.
-/

namespace ComponentStories

open Component

/-! ## Steps -/

/-- How far the work on a component has come. -/
inductive Phase
  /-- Nothing was done yet. -/
  | waiting
  /-- The store was asked, and this is planned. -/
  | planned (plan : Plan)
  /-- This came of it. -/
  | finished (attempt : Attempt)

/-- What came of the work on a component, if it is finished. -/
def Phase.attempt? : Phase → Option Attempt
  | finished a => some a
  | _ => none

/-- How many steps are left. -/
def Phase.left : Phase → Nat
  | waiting => 2
  | planned _ => 1
  | finished _ => 0

/-- A store and the components that are worked on, with how far the work on each has come. -/
structure Batch (σ : Type) where
  /-- The store. -/
  store : σ
  /-- The components and how far the work on each has come. -/
  tasks : List (Component × Phase)

namespace Batch

variable {σ : Type}

/-- The batch of all components of a registry, before its first step. -/
def start (r : Registry) (s : σ) : Batch σ := ⟨s, r.components.map fun c => (c, .waiting)⟩

/-- The components that are finished. -/
def finished (b : Batch σ) : List Component :=
  (b.tasks.filter fun t => t.2.attempt?.isSome).map Prod.fst

/-- What came of the components that are finished, in order. -/
def attempts (b : Batch σ) : List Attempt := b.tasks.filterMap fun t => t.2.attempt?

/-- Whether every component is finished. -/
def IsDone (b : Batch σ) : Prop := ∀ t ∈ b.tasks, t.2.attempt?.isSome = true

/-- How many steps are left. -/
def left (b : Batch σ) : Nat := (b.tasks.map fun t => t.2.left).sum

theorem finished_sublist (s : σ) (tasks : List (Component × Phase)) :
    (finished ⟨s, tasks⟩).Sublist (tasks.map Prod.fst) :=
  List.filter_sublist.map Prod.fst

theorem finished_of_none (s : σ) (before after : List (Component × Phase)) (c : Component)
    {phase : Phase} (h : phase.attempt? = none) :
    finished ⟨s, before ++ (c, phase) :: after⟩ =
      finished ⟨s, before⟩ ++ finished ⟨s, after⟩ := by
  simp [finished, h]

theorem finished_of_some (s : σ) (before after : List (Component × Phase)) (c : Component)
    {phase : Phase} {a : Attempt} (h : phase.attempt? = some a) :
    finished ⟨s, before ++ (c, phase) :: after⟩ =
      finished ⟨s, before⟩ ++ c :: finished ⟨s, after⟩ := by
  simp [finished, h]

/-- What holds of all components of a batch holds of them when one has come
further, if it holds of that one. -/
theorem forall_mem_of_change {P : Component × Phase → Prop}
    {before after : List (Component × Phase)} {t t' : Component × Phase}
    (h : ∀ u ∈ before ++ t :: after, P u) (ht' : P t') :
    ∀ u ∈ before ++ t' :: after, P u := by
  rw [List.forall_mem_append, List.forall_mem_cons] at h ⊢
  exact ⟨h.1, ht', h.2.2⟩

/-- The components that are finished elsewhere in a batch are apart from any one in it. -/
theorem apart_of_finished {before after : List (Component × Phase)} {c : Component} {phase : Phase}
    (hapart : ((before ++ (c, phase) :: after).map Prod.fst).Pairwise Apart) (s : σ) :
    ∀ d ∈ finished ⟨s, before⟩ ++ finished ⟨s, after⟩, Apart d c := by
  rw [List.map_append, List.map_cons, List.pairwise_append, List.pairwise_cons] at hapart
  obtain ⟨-, ⟨hafter, -⟩, hbefore⟩ := hapart
  intro d hd
  rcases List.mem_append.mp hd with hd | hd
  · exact hbefore d ((finished_sublist s before).subset hd) c List.mem_cons_self
  · exact (hafter d ((finished_sublist s after).subset hd)).symm

/-! ## Steps in any order -/

section Steps

variable [Store σ] (settings : Settings) (force : Bool)

/-- One step of the work on one component. -/
inductive Step : Batch σ → Batch σ → Prop
  /-- The store is asked. -/
  | ask (s : σ) (before after : List (Component × Phase)) (c : Component) :
    Step ⟨s, before ++ (c, .waiting) :: after⟩
      ⟨s, before ++ (c, .planned (c.planIn settings force s)) :: after⟩
  /-- What is planned is done. -/
  | act (s : σ) (before after : List (Component × Phase)) (c : Component) (plan : Plan) :
    Step ⟨s, before ++ (c, .planned plan) :: after⟩
      ⟨(c.perform plan s).2, before ++ (c, .finished (c.perform plan s).1) :: after⟩

/-- A batch comes to another one by steps in any order. -/
def Reaches : Batch σ → Batch σ → Prop := Relation.ReflTransGen (Step settings force)

variable {settings force} {b b' : Batch σ}

/-- Every step leaves one step less. -/
theorem Step.left_eq (h : Step settings force b b') : b.left = b'.left + 1 := by
  cases h <;> simp [left, Phase.left] <;> omega

/-- As long as a component is not finished there is a step. -/
theorem exists_step (h : ¬ b.IsDone) : ∃ b', Step settings force b b' := by
  obtain ⟨s, tasks⟩ := b
  simp only [IsDone, not_forall] at h
  obtain ⟨⟨c, phase⟩, ht, hphase⟩ := h
  obtain ⟨before, after, rfl⟩ := List.append_of_mem ht
  cases phase with
  | waiting => exact ⟨_, .ask s before after c⟩
  | planned plan => exact ⟨_, .act s before after c plan⟩
  | finished a => exact absurd rfl hphase

/-- **Every batch can be brought to its end.** -/
theorem exists_reaches_isDone (b : Batch σ) : ∃ b', Reaches settings force b b' ∧ b'.IsDone := by
  induction hn : b.left generalizing b with
  | zero =>
    refine ⟨b, .refl, ?_⟩
    by_contra hdone
    obtain ⟨b', hstep⟩ : ∃ b', Step settings force b b' := exists_step hdone
    have := hstep.left_eq
    omega
  | succ n ih =>
    by_cases hdone : b.IsDone
    · exact ⟨b, .refl, hdone⟩
    · obtain ⟨b₁, hstep⟩ : ∃ b₁, Step settings force b b₁ := exists_step hdone
      have hleft := hstep.left_eq
      obtain ⟨b₂, hreach, hdone₂⟩ := ih b₁ (by omega)
      exact ⟨b₂, .head hstep hreach, hdone₂⟩

end Steps

/-! ## What every step keeps -/

section Invariant

variable [Store σ] {settings : Settings} {force : Bool} {cs : List Component} {s : σ}
  {b b' : Batch σ}

/-- The work on a component is where it would be for this component alone, started from a store. -/
def Agrees (settings : Settings) (force : Bool) (s : σ) (t : Component × Phase) : Prop :=
  match t.2 with
  | .waiting => True
  | .planned plan => plan = t.1.planIn settings force s
  | .finished a => a = (t.1.generate settings force s).1

/-- A batch works on these components from this store on, each as if it were alone, and its store is
the one behind those that are finished. -/
structure Tracks (settings : Settings) (force : Bool) (cs : List Component) (s : σ) (b : Batch σ) :
    Prop where
  /-- The components are the given ones. -/
  components : b.tasks.map Prod.fst = cs
  /-- Each is worked on as if it were alone. -/
  agrees : ∀ t ∈ b.tasks, Agrees settings force s t
  /-- The store is the one behind the finished ones. -/
  store : b.store = storeAfter settings force b.finished s

/-- Before the first step nothing is done. -/
theorem tracks_start (r : Registry) (s : σ) :
    Tracks settings force r.components s (start r s) where
  components := by
    rw [start, List.map_map]
    exact List.map_id _
  agrees t ht := by
    obtain ⟨c, -, rfl⟩ := List.mem_map.mp ht
    trivial
  store := by
    have hnone : (start r s).finished = [] := by
      simp [start, finished, Phase.attempt?]
    rw [hnone]
    rfl

/-- A batch at its end has a result for each component, the one it would have alone. -/
theorem Tracks.attempts_of_isDone (h : Tracks settings force cs s b) (hdone : b.IsDone) :
    b.attempts = cs.map fun c => (c.generate settings force s).1 := by
  obtain ⟨store, tasks⟩ := b
  obtain ⟨rfl, hagrees, -⟩ := h
  rw [attempts, List.map_map, ← List.filterMap_eq_map]
  apply List.filterMap_congr
  intro t ht
  have ha := hagrees t ht
  have hsome := hdone t ht
  obtain ⟨c, phase⟩ := t
  cases phase with
  | waiting => simp [Phase.attempt?] at hsome
  | planned plan => simp [Phase.attempt?] at hsome
  | finished a => exact congrArg some ha

/-- At the end of a batch every component is finished. -/
theorem Tracks.finished_of_isDone (h : Tracks settings force cs s b) (hdone : b.IsDone) :
    b.finished = cs := by
  rw [finished, List.filter_eq_self.mpr hdone, h.components]

variable [Store.Independent σ]

/-- Asking the store keeps every component where it would be alone, as those that are finished do
not change what is planned. -/
theorem Tracks.ask {store : σ} {before after : List (Component × Phase)} {c : Component}
    (h : Tracks settings force cs s ⟨store, before ++ (c, .waiting) :: after⟩)
    (hapart : cs.Pairwise Apart) : Tracks settings force cs s
      ⟨store, before ++ (c, .planned (c.planIn settings force store)) :: after⟩ := by
  obtain ⟨rfl, hagrees, hstore⟩ := h
  rw [finished_of_none store before after c rfl] at hstore
  refine ⟨by simp, forall_mem_of_change hagrees ?_, ?_⟩
  · show c.planIn settings force store = c.planIn settings force s
    rw [show store = _ from hstore]
    exact planIn_storeAfter settings force (apart_of_finished hapart store) s
  · rw [finished_of_none store before after c rfl]
    exact hstore

/-- Doing what is planned keeps every component where it would be alone.  The component comes behind
all that are finished, but it may as well come in its own place. -/
theorem Tracks.act {store : σ} {before after : List (Component × Phase)} {c : Component}
    {plan : Plan} (h : Tracks settings force cs s ⟨store, before ++ (c, .planned plan) :: after⟩)
    (hapart : cs.Pairwise Apart) : Tracks settings force cs s
      ⟨(c.perform plan store).2, before ++ (c, .finished (c.perform plan store).1) :: after⟩ := by
  obtain ⟨rfl, hagrees, hstore⟩ := h
  have hothers := apart_of_finished hapart store
  rw [finished_of_none store before after c rfl] at hstore
  have hstore' : store = storeAfter settings force
      (finished ⟨store, before⟩ ++ finished ⟨store, after⟩) s := hstore
  have hplan : plan = c.planIn settings force store := by
    have halone : plan = c.planIn settings force s :=
      hagrees (c, .planned plan) (List.mem_append_right _ List.mem_cons_self)
    rw [halone, hstore', planIn_storeAfter settings force hothers]
  subst hplan
  refine ⟨by simp, forall_mem_of_change hagrees ?_, ?_⟩
  · show (c.generate settings force store).1 = (c.generate settings force s).1
    rw [hstore']
    exact fst_generate_storeAfter settings force hothers s
  · have hdone : (finished ⟨store, before⟩ ++ c :: finished ⟨store, after⟩).Pairwise Apart := by
      refine hapart.sublist ?_
      rw [List.map_append, List.map_cons]
      exact (finished_sublist store before).append ((finished_sublist store after).cons_cons c)
    calc (c.generate settings force store).2
        = storeAfter settings force
            ((finished ⟨store, before⟩ ++ finished ⟨store, after⟩) ++ [c]) s := by
          rw [storeAfter, List.foldl_append, ← storeAfter, ← storeAfter, ← hstore']
          rfl
      _ = storeAfter settings force
            (finished ⟨store, before⟩ ++ c :: finished ⟨store, after⟩) s := by
          refine (storeAfter_perm settings force ?_ hdone s).symm
          exact List.perm_middle.trans (List.perm_append_singleton c _).symm
      _ = _ := by rw [finished_of_some _ before after c rfl]; rfl

/-- Every step keeps every component where it would be alone. -/
theorem Tracks.step (h : Tracks settings force cs s b) (hapart : cs.Pairwise Apart)
    (hstep : Step settings force b b') : Tracks settings force cs s b' := by
  cases hstep with
  | ask => exact h.ask hapart
  | act => exact h.act hapart

/-- All steps keep every component where it would be alone. -/
theorem Tracks.reaches (h : Tracks settings force cs s b) (hapart : cs.Pairwise Apart)
    (hreach : Reaches settings force b b') : Tracks settings force cs s b' := by
  induction hreach with
  | refl => exact h
  | tail _ hstep ih => exact ih.step hapart hstep

end Invariant

end Batch

/-! ## One component after the other -/

namespace Registry

variable {σ : Type} [Store σ] (settings : Settings) (force : Bool)

/-- Generates the story template of the component with an identifier, if there is one. -/
def generateOne (r : Registry) (id : String) (s : σ) : Option Attempt × σ :=
  match r.find? id with
  | some c => (some (c.generate settings force s).1, (c.generate settings force s).2)
  | none => (none, s)

/-- Going through the identifiers of some entries is going through their components. -/
theorem inTurn_generateOne {r : Registry} {es : List (String × Component)}
    (hes : ∀ e ∈ es, e ∈ r.entries) (s : σ) :
    inTurn (r.generateOne settings force) (es.map Prod.fst) s =
      ((inTurn (Component.generate settings force) (es.map Prod.snd) s).1.map some,
        (inTurn (Component.generate settings force) (es.map Prod.snd) s).2) := by
  induction es generalizing s with
  | nil => rfl
  | cons e es ih =>
    obtain ⟨he, hes⟩ := List.forall_mem_cons.mp hes
    have hone : r.generateOne settings force e.1 s =
        (some (e.2.generate settings force s).1, (e.2.generate settings force s).2) := by
      rw [generateOne, find?_eq_some_iff.mpr he]
    simp only [List.map_cons, inTurn, hone, ih hes]

/-- Identifiers in any order are those of the entries in some order. -/
theorem exists_entries_of_perm {r : Registry} {ids : List String} (h : ids.Perm r.ids) :
    ∃ es : List (String × Component), ids = es.map Prod.fst ∧ es.Perm r.entries := by
  have hcomp : Relation.Comp (· = List.map Prod.fst ·) List.Perm ids r.entries := by
    rw [List.eq_map_comp_perm Prod.fst]
    exact h
  exact hcomp

/-- Generating the template of each component by its identifier, in any order, leaves the same store
as generating all of them, and gives each identifier the same result. -/
theorem generateOne_eq_generateAll [Store.Independent σ] {r : Registry}
    (hapart : r.components.Pairwise Apart) {ids : List String} (hids : ids.Perm r.ids) (s : σ) :
    (inTurn (r.generateOne settings force) ids s).2 = (r.generateAll settings force s).2 ∧
      (ids.zip (inTurn (r.generateOne settings force) ids s).1).Perm
        (r.ids.zip ((r.generateAll settings force s).1.map some)) := by
  obtain ⟨es, rfl, hperm⟩ := exists_entries_of_perm hids
  have hcomponents : (es.map Prod.snd).Perm r.components := hperm.map Prod.snd
  have hapart' : (es.map Prod.snd).Pairwise Apart :=
    hcomponents.symm.pairwise hapart Apart.symm
  rw [inTurn_generateOne settings force (fun e he => hperm.subset he), generateAll,
    inTurn_generate settings force hapart, inTurn_generate settings force hapart']
  refine ⟨storeAfter_perm settings force hcomponents hapart' s, ?_⟩
  have hzip : ∀ l : List (String × Component),
      (l.map Prod.fst).zip
          (((l.map Prod.snd).map fun c => (c.generate settings force s).1).map some) =
        l.map fun e => (e.1, some (e.2.generate settings force s).1) := by
    intro l
    rw [List.map_map, List.map_map, List.zip_map']
    rfl
  rw [hzip es, ids, components, hzip r.entries]
  exact hperm.map _

end Registry

/-! ## Batches of a registry -/

namespace Batch

/-- **Every batch of components with templates at different paths ends as the sequential one**: in a
store with any texts and any paths that cannot be written, forced or not, a batch that works on all
components of a registry at once can always be brought to its end, and its end has the same store
and, in the ascending order of the identifiers, the same attempts as generating the templates one
after the other.  The same holds of generating them by their identifiers in any order. -/
theorem interleaving_eq_generateAll (settings : Settings) (force : Bool) (cs : List Component)
    (m : MemoryStore)
    (hpaths : ((Registry.ofComponents cs).components.map fun c =>
      Path.parts c.templatePath).Nodup) :
    let r := Registry.ofComponents cs
    r.ids.Pairwise (· < ·) ∧
      (∀ b : Batch MemoryStore, Reaches settings force (start r m) b →
        (∃ b', Reaches settings force b b' ∧ b'.IsDone) ∧
        (b.IsDone → b.store = (r.generateAll settings force m).2 ∧
          b.attempts = (r.generateAll settings force m).1)) ∧
      ∀ ids : List String, ids.Perm r.ids →
        (inTurn (r.generateOne settings force) ids m).2 = (r.generateAll settings force m).2 ∧
        (ids.zip (inTurn (r.generateOne settings force) ids m).1).Perm
          (r.ids.zip ((r.generateAll settings force m).1.map some)) := by
  intro r
  have hapart : r.components.Pairwise Apart := pairwise_apart_iff.mpr hpaths
  refine ⟨r.ascending, ?_, fun ids hids =>
    Registry.generateOne_eq_generateAll settings force hapart hids m⟩
  intro b hreach
  refine ⟨exists_reaches_isDone b, fun hdone => ?_⟩
  have htracks := (tracks_start r m).reaches hapart hreach
  rw [Registry.generateAll, inTurn_generate settings force hapart]
  refine ⟨?_, htracks.attempts_of_isDone hdone⟩
  rw [htracks.store, htracks.finished_of_isDone hdone]

/-- Three components with a prop. -/
def trio : List Component :=
  ["link", "card", "menu"].map fun name =>
    (Component.bare ("ui:" ++ name) name name ("ui/" ++ name)).withProperty "label"
      ⟨some (.single .string), none, none, none, none, false⟩

/-- A store where one of them has a template and the template of another one cannot be written. -/
def trioStore : MemoryStore :=
  (MemoryStore.empty.put "ui/card/card.stories.twig" "by hand").failAt ["ui/link/link.stories.twig"]

/-- Working on them at once leaves the template that is there, fails for the one that cannot be
written and writes the third one. -/
theorem interleaving_eq_generateAll_trio :
    ((Registry.ofComponents trio).components.map fun c => Path.parts c.templatePath).Nodup ∧
    ∃ b : Batch MemoryStore,
      Reaches Settings.standard false (start (Registry.ofComponents trio) trioStore) b ∧ b.IsDone ∧
      b.attempts.map Attempt.result =
        [.ok (.skipped "ui/card/card.stories.twig" .upToDate),
          .error (.write "ui/link/link.stories.twig" .diskFull),
          .ok (.generated "ui/menu/menu.stories.twig")] ∧
      b.store.text? "ui/card/card.stories.twig" = some "by hand" ∧
      b.store.holds "ui/link/link.stories.twig" = false ∧
      b.store.holds "ui/menu/menu.stories.twig" = true := by
  have hpaths : ((Registry.ofComponents trio).components.map fun c =>
      Path.parts c.templatePath).Nodup := by decide +kernel
  have hall := (interleaving_eq_generateAll Settings.standard false trio trioStore hpaths).2.1
  obtain ⟨b, hreach, hdone⟩ := (hall _ .refl).1
  obtain ⟨hstore, hattempts⟩ := (hall b hreach).2 hdone
  refine ⟨hpaths, b, hreach, hdone, ?_⟩
  rw [hstore, hattempts]
  decide +kernel

end Batch

end ComponentStories
