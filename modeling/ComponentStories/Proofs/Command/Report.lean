import ComponentStories.Proofs.Command.Run
import ComponentStories.Proofs.Component.Outcomes

/-
# Reports of batches

At its end a batch tells every failure and then how many files were generated, skipped and failed.
These are the numbers of the results of each kind, so they add up; a batch fails exactly if a result
is a failure, and says how many of them are (`reported_batchEnd`).  Where the templates of
components are generated nothing else is told as an error (`errors_batchEnd_generateAll`).
-/

namespace ComponentStories

/-! ## Kinds of results -/

/-- What came of those of some results that are no failures, in order. -/
def outcomes (results : List (Except GenerateError Outcome)) : List Outcome :=
  results.filterMap Except.toOption

/-- The failures among some results, in order. -/
def failures (results : List (Except GenerateError Outcome)) : List GenerateError :=
  results.filterMap fun
    | .ok _ => none
    | .error e => some e

theorem failureLog_eq (results : List (Except GenerateError Outcome)) :
    failureLog results = (failures results).map fun e => ⟨.error, e.message⟩ := by
  rw [failureLog, failures, List.map_filterMap]
  refine List.filterMap_congr fun result _ => ?_
  cases result <;> rfl

namespace Tally

/-- A tally goes on with the numbers of the results of each kind. -/
theorem foldl_add_eq (t : Tally) (results : List (Except GenerateError Outcome)) :
    results.foldl add t =
      ⟨t.generated + (outcomes results).countP Outcome.isGenerated,
        t.skipped + (outcomes results).countP (!·.isGenerated),
        t.failed + (failures results).length⟩ := by
  induction results generalizing t with
  | nil => rfl
  | cons result results ih =>
    rw [List.foldl_cons, ih]
    cases result with
    | error e =>
      have hfailures : failures (.error e :: results) = e :: failures results := rfl
      have houtcomes : outcomes (.error e :: results) = outcomes results := rfl
      rw [hfailures, houtcomes, List.length_cons, add]
      simp only [Tally.mk.injEq, true_and]
      omega
    | ok o =>
      have hfailures : failures (.ok o :: results) = failures results := rfl
      have houtcomes : outcomes (.ok o :: results) = o :: outcomes results := rfl
      rw [hfailures, houtcomes, add]
      cases ho : o.isGenerated <;> simp [ho] <;> omega

/-- **The tally has the numbers of the results of each kind.** -/
theorem ofResults_eq (results : List (Except GenerateError Outcome)) : ofResults results =
    ⟨(outcomes results).countP Outcome.isGenerated, (outcomes results).countP (!·.isGenerated),
      (failures results).length⟩ := by
  rw [ofResults, foldl_add_eq]
  simp

/-- How many results were counted. -/
def total (t : Tally) : Nat := t.generated + t.skipped + t.failed

theorem total_add (t : Tally) (result : Except GenerateError Outcome) :
    (t.add result).total = t.total + 1 := by
  cases result with
  | error e =>
    simp only [add, total]
    omega
  | ok o =>
    rw [add]
    split <;> simp only [total] <;> omega

/-- **The numbers of a tally add up to the number of results.** -/
theorem total_ofResults (results : List (Except GenerateError Outcome)) :
    (ofResults results).total = results.length := by
  suffices hfold : ∀ t : Tally, (results.foldl add t).total = t.total + results.length by
    rw [ofResults, hfold]
    exact Nat.zero_add _
  induction results with
  | nil => exact fun t => rfl
  | cons result results ih =>
    intro t
    rw [List.foldl_cons, ih, total_add, List.length_cons]
    omega

end Tally

/-! ## Ends of batches -/

/-- The end of a batch of attempts reports them: it counts the results of each kind, tells each
failure once as an error, and is a failure exactly if there is one. -/
structure Reported (attempts : List Attempt) (e : End) : Prop where
  /-- The files that were generated are counted. -/
  generated : (Tally.ofResults (Attempt.results attempts)).generated =
    (outcomes (Attempt.results attempts)).countP Outcome.isGenerated
  /-- The files that were skipped are counted. -/
  skipped : (Tally.ofResults (Attempt.results attempts)).skipped =
    (outcomes (Attempt.results attempts)).countP (!·.isGenerated)
  /-- The failures are counted. -/
  failed : (Tally.ofResults (Attempt.results attempts)).failed =
    (failures (Attempt.results attempts)).length
  /-- The numbers add up to that of the attempts. -/
  total : (Tally.ofResults (Attempt.results attempts)).generated +
    (Tally.ofResults (Attempt.results attempts)).skipped +
    (Tally.ofResults (Attempt.results attempts)).failed = attempts.length
  /-- Behind what the attempts told, each failure is told as an error, and then the numbers. -/
  log : e.log = Attempt.logs attempts ++
    (failures (Attempt.results attempts)).map (fun e => ⟨.error, e.message⟩) ++
      [⟨.info, (Tally.ofResults (Attempt.results attempts)).text⟩]
  /-- The batch ends well exactly if no attempt failed. -/
  failure_eq_none_iff : e.failure = none ↔ ∀ a ∈ attempts, ∃ outcome, a.result = .ok outcome
  /-- A batch that fails says how many of the results are failures. -/
  failure_eq : ∀ f, e.failure = some f →
    f = ⟨toString (failures (Attempt.results attempts)).length ++ " of " ++
      toString attempts.length ++ " stories failed to generate", []⟩

/-- **The end of every batch reports the attempts.** -/
theorem reported_batchEnd (attempts : List Attempt) (fs : FileSystem) :
    Reported attempts (batchEnd attempts fs) := by
  have hlength : (Attempt.results attempts).length = attempts.length := List.length_map _
  have htally := Tally.ofResults_eq (Attempt.results attempts)
  refine ⟨congrArg Tally.generated htally, congrArg Tally.skipped htally,
    congrArg Tally.failed htally, (Tally.total_ofResults _).trans hlength, ?_,
    failure_batchEnd_eq_none_iff attempts fs, ?_⟩
  · rw [← failureLog_eq]
    rfl
  · intro f hf
    rw [batchEnd] at hf
    dsimp only at hf
    split at hf
    · cases hf
    · rw [← Option.some.inj hf, htally, hlength]

/-! ## Batches of components -/

/-- Nothing is told as an error while what is planned for a component is done. -/
theorem Component.level_perform {σ : Type} [Store σ] (c : Component) (plan : Plan) (s : σ) :
    ∀ record ∈ (c.perform plan s).1.log, record.level ≠ .error := by
  cases plan with
  | upToDate => simp [perform]
  | noInputs => simp [perform]
  | write text =>
    rw [perform]
    split <;> simp

/-- Each attempt of a batch is one of its components in some state. -/
theorem exists_of_mem_inTurn {σ α β : Type} {act : α → σ → β × σ} {l : List α} {s : σ} {b : β}
    (h : b ∈ (inTurn act l s).1) : ∃ a ∈ l, ∃ s', b = (act a s').1 := by
  induction l generalizing s with
  | nil => exact absurd h List.not_mem_nil
  | cons a l ih =>
    rcases List.mem_cons.mp h with rfl | h
    · exact ⟨a, List.mem_cons_self, s, rfl⟩
    · obtain ⟨a', ha', s', hb⟩ := ih h
      exact ⟨a', List.mem_cons_of_mem a ha', s', hb⟩

/-- **Where the templates of all components are generated, exactly the failures are
told as errors**, in order. -/
theorem errors_batchEnd_generateAll {σ : Type} [Store σ] (settings : Settings) (force : Bool)
    (r : Registry) (s : σ) (fs : FileSystem) :
    (batchEnd (r.generateAll settings force s).1 fs).log.filter (·.level = .error) =
      (failures (Attempt.results (r.generateAll settings force s).1)).map
        fun e => ⟨.error, e.message⟩ := by
  have hlogs :
      (Attempt.logs (r.generateAll settings force s).1).filter (·.level = .error) = [] := by
    rw [List.filter_eq_nil_iff]
    intro record hrecord
    obtain ⟨a, ha, hmem⟩ := List.mem_flatMap.mp hrecord
    obtain ⟨c, -, s', rfl⟩ := exists_of_mem_inTurn ha
    simpa using c.level_perform _ s' record hmem
  rw [(reported_batchEnd _ fs).log, List.filter_append, List.filter_append, hlogs, List.nil_append,
    List.filter_eq_self.mpr]
  · simp
  · intro record hrecord
    obtain ⟨e, -, rfl⟩ := List.mem_map.mp hrecord
    rfl

end ComponentStories
