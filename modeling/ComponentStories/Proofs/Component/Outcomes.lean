import ComponentStories.Proofs.Argument.Inputs
import ComponentStories.Proofs.Component.Settled

/-
# What comes of a component, and when

Generating the template of a component ends in one of four ways, whatever the store is: the template
is there and stays, the component has no inputs, writing fails, or the document is written
(`Component.Ends`, `ends_generate`).  In a store in memory it is told by the store before which of
them it is, and only the last one changes anything, at the path of the template and nowhere else
(`generate_exact`).
-/

namespace ComponentStories

namespace Component

section AnyStore

variable {σ : Type} [Store σ]

/-- The template of a component is to be generated: it is not there, or it is forced. -/
def Due (force : Bool) (c : Component) (s : σ) : Prop :=
  force = true ∨ Store.holds s c.templatePath = false

/-- A template is not to be generated exactly if it is there and not forced. -/
theorem not_due_iff {force : Bool} {c : Component} {s : σ} :
    ¬ Due force c s ↔ force = false ∧ Store.holds s c.templatePath = true := by
  rw [Due, not_or, Bool.not_eq_true, Bool.not_eq_false]

/-- How generating the template of a component ends: the result, and the store behind it. -/
inductive Ends (settings : Settings) (force : Bool) (c : Component) (s : σ) :
    Except GenerateError Outcome → σ → Prop
  /-- The template is there. -/
  | upToDate : ¬ Due force c s → Ends settings force c s (.ok (.skipped c.templatePath .upToDate)) s
  /-- There is nothing to write. -/
  | noInputs : Due force c s → c.document? settings = none →
    Ends settings force c s (.ok (.skipped c.templatePath .noInputs)) s
  /-- The document cannot be written. -/
  | failed {d : StoryDocument} {e : IoError} {s' : σ} :
    Due force c s → c.document? settings = some d →
    Store.write s c.templatePath d.render = (.error e, s') →
    Ends settings force c s (.error (.write c.templatePath e)) s'
  /-- The document is written. -/
  | generated {d : StoryDocument} {s' : σ} : Due force c s → c.document? settings = some d →
    Store.write s c.templatePath d.render = (.ok (), s') →
    Ends settings force c s (.ok (.generated c.templatePath)) s'

/-- **Generating ends in one of the four ways.** -/
theorem ends_generate (settings : Settings) (force : Bool) (c : Component) (s : σ) :
    Ends settings force c s (c.generate settings force s).1.result
      (c.generate settings force s).2 := by
  have hyes : Due force c s ↔
      Policy.existence.shouldGenerate (Store.holds s c.templatePath) false force = true := by
    simp [Due, Policy.shouldGenerate]
  rw [generate, planIn, plan]
  split
  · rename_i hgenerate
    have hdue : Due force c s := hyes.mpr hgenerate
    cases hdocument : c.document? settings with
    | none => exact .noInputs hdue hdocument
    | some d =>
      dsimp only [perform]
      split
      · rename_i s' hwrite
        exact .generated hdue hdocument hwrite
      · rename_i e s' hwrite
        exact .failed hdue hdocument hwrite
  · rename_i hno
    exact .upToDate (mt hyes.mp hno)

end AnyStore

/-- **Exactly the components with inputs have a document.** -/
theorem document?_eq_none_iff {c : Component} {settings : Settings} :
    c.document? settings = none ↔ c.hasNoInputs = true := by
  rw [hasNoInputs, Bool.and_eq_true]
  exact StoryDocument.assemble?_eq_none_iff c.id c settings

theorem hasNoInputs_of_document? {c : Component} {settings : Settings} {d : StoryDocument}
    (h : c.document? settings = some d) : c.hasNoInputs = false := by
  have hsome : c.document? settings ≠ none := by
    rw [h]
    exact Option.some_ne_none d
  exact Bool.eq_false_iff.mpr fun hno => hsome (document?_eq_none_iff.mpr hno)

/-! ## In a store in memory -/

end Component

/-- Writing fails exactly where the store says so, and then nothing is changed. -/
theorem MemoryStore.eq_of_write_eq_error {m m' : MemoryStore} {path text : String} {e : IoError}
    (h : Store.write m path text = (.error e, m')) :
    m.failsAt path = true ∧ e = .diskFull ∧ m' = m := by
  have hwrite : m.write path text = (.error e, m') := h
  rw [MemoryStore.write] at hwrite
  split at hwrite
  · rename_i hfails
    cases hwrite
    exact ⟨hfails, rfl, rfl⟩
  · cases hwrite

/-- Where writing does not fail, the text is put. -/
theorem MemoryStore.eq_of_write_eq_ok {m m' : MemoryStore} {path text : String}
    (h : Store.write m path text = (.ok (), m')) :
    m.failsAt path = false ∧ m' = m.put path text := by
  have hwrite : m.write path text = (.ok (), m') := h
  rw [MemoryStore.write] at hwrite
  split at hwrite
  · cases hwrite
  · rename_i hfails
    cases hwrite
    exact ⟨Bool.eq_false_iff.mpr hfails, rfl⟩

namespace Component

/-- **Generating the template of a component is exact and atomic**: it is skipped as up to date
exactly if it is there and not forced; otherwise it is skipped exactly if the component has no
inputs; otherwise writing fails exactly if it fails at its path; and otherwise it is generated.
When it is generated, its text is the document of the component and nothing is changed at any other
path; in all the other cases the store stays as it is. -/
theorem generate_exact (settings : Settings) (force : Bool) (c : Component) (m : MemoryStore) :
    let path := c.templatePath
    let result := (c.generate settings force m).1.result
    let after := (c.generate settings force m).2
    (result = .ok (.skipped path .upToDate) ↔ force = false ∧ m.holds path = true) ∧
    (result = .ok (.skipped path .noInputs) ↔
      ¬ (force = false ∧ m.holds path = true) ∧ c.hasNoInputs = true) ∧
    (result = .error (.write path .diskFull) ↔
      ¬ (force = false ∧ m.holds path = true) ∧ c.hasNoInputs = false ∧ m.failsAt path = true) ∧
    (result = .ok (.generated path) ↔
      ¬ (force = false ∧ m.holds path = true) ∧ c.hasNoInputs = false ∧ m.failsAt path = false) ∧
    (result = .ok (.generated path) →
      ∃ d, c.document? settings = some d ∧ after.text? path = some d.render ∧
        ∀ other, Path.parts other ≠ Path.parts path → after.file? other = m.file? other) ∧
    (result ≠ .ok (.generated path) → after = m) ∧
    ∀ other, after.failsAt other = m.failsAt other := by
  intro path result after
  have hdue : Due force c m ↔ ¬ (force = false ∧ m.holds path = true) := by
    rw [← not_not (a := Due force c m), not_due_iff]
    rfl
  have hfailing : ∀ other, after.failsAt other = m.failsAt other := failsAt_generate c m
  have hends : Ends settings force c m result after := ends_generate settings force c m
  rw [← not_not (a := force = false ∧ m.holds path = true), ← hdue]
  clear_value result after
  -- in each of the four cases what was asked in it is known, and the other results are different
  cases hends with
  | upToDate hnot => simp [path, hnot]
  | noInputs hyes hnone =>
    have hempty : c.hasNoInputs = true := document?_eq_none_iff.mp hnone
    simp [path, hyes, hempty]
  | failed hyes hsome hwrite =>
    obtain ⟨hfails, he, hafter⟩ := MemoryStore.eq_of_write_eq_error hwrite
    simp [path, hyes, hasNoInputs_of_document? hsome, hfails, he, hafter]
  | @generated d _ hyes hsome hwrite =>
    obtain ⟨hfails, hafter⟩ := MemoryStore.eq_of_write_eq_ok hwrite
    have hwritten : ∃ d, c.document? settings = some d ∧ after.text? path = some d.render ∧
        ∀ other, Path.parts other ≠ Path.parts path → after.file? other = m.file? other := by
      rw [hafter]
      refine ⟨d, hsome, ?_, fun other hother => MemoryStore.file?_put_of_ne hother.symm⟩
      rw [MemoryStore.text?_put, if_pos rfl]
    exact ⟨by simp [hyes], by simp [hasNoInputs_of_document? hsome],
      by simp [hfails, path], by simp [path, hyes, hasNoInputs_of_document? hsome, hfails],
      fun _ => hwritten, fun hne => absurd rfl hne, hfailing⟩

/-- A component with a label, in a directory of its name. -/
def labelled (name : String) : Component :=
  (bare ("ui:" ++ name) name name ("ui/" ++ name)).withProperty "label"
    ⟨some (.single .string), none, none, none, none, false⟩

/-- The characters of the template of a card with a label. -/
def cardChars : List Char :=
  "\x7b% stories card with \x7b title: \"Components/SDC/card\" \x7d %\x7d\n\n".toList ++
  "    \x7b% story default with \x7b\n        name: 'Default SDC',\n".toList ++
  "        args: \x7b\n            title: \"card\",\n            label: \"placeholder\"\n".toList ++
  "        \x7d,\n        argTypes: \x7b\n            label: \x7bcontrol: \"text\"\x7d\n".toList ++
  "        \x7d,\n        tags: ['project']\n    \x7d %\x7d\n\n".toList ++
  "    \x7b% embed \"ui:card\" with \x7b\n        label\n    \x7d %\x7d\n".toList ++
  "    \x7b% endembed %\x7d\n\n  \x7b% endstory %\x7d\n\n\x7b% endstories %\x7d\n".toList

/-- A card that has a template is skipped, and by force its document takes the place of the text;
the template of a link cannot be written, and nothing is written for a rule without inputs. -/
theorem generate_exact_labelled :
    ((labelled "card").generate Settings.standard false Batch.trioStore).1.result =
      .ok (.skipped "ui/card/card.stories.twig" .upToDate) ∧
    ((bare "ui:rule" "rule" "rule" "ui/rule").generate Settings.standard false
        Batch.trioStore).1.result = .ok (.skipped "ui/rule/rule.stories.twig" .noInputs) ∧
    ((labelled "link").generate Settings.standard true Batch.trioStore).1.result =
      .error (.write "ui/link/link.stories.twig" .diskFull) ∧
    ((labelled "card").generate Settings.standard true Batch.trioStore).1.result =
      .ok (.generated "ui/card/card.stories.twig") ∧
    ((labelled "card").generate Settings.standard true Batch.trioStore).2.text?
      "ui/card/card.stories.twig" = some (String.ofList cardChars) := by
  obtain ⟨hskipped, -⟩ := generate_exact Settings.standard false (labelled "card") Batch.trioStore
  obtain ⟨-, hempty, -⟩ :=
    generate_exact Settings.standard false (bare "ui:rule" "rule" "rule" "ui/rule") Batch.trioStore
  obtain ⟨-, -, hfailed, -⟩ :=
    generate_exact Settings.standard true (labelled "link") Batch.trioStore
  obtain ⟨-, -, -, hgenerated, hwritten, -⟩ :=
    generate_exact Settings.standard true (labelled "card") Batch.trioStore
  have hforced := hgenerated.mpr (by decide +kernel)
  obtain ⟨d, hd, htext, -⟩ := hwritten hforced
  have hchars : ((labelled "card").document? Settings.standard).map StoryDocument.chars =
      some cardChars := by
    decide +kernel
  rw [hd, Option.map_some, Option.some.injEq] at hchars
  rw [StoryDocument.render, hchars] at htext
  exact ⟨hskipped.mpr (by decide +kernel), hempty.mpr (by decide +kernel),
    hfailed.mpr (by decide +kernel), hforced, htext⟩

end Component

end ComponentStories
