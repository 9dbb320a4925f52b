import ComponentStories.Document
import ComponentStories.FileName
import ComponentStories.Outcome
import ComponentStories.Policy
import ComponentStories.Registry
import ComponentStories.Store

/-
# Generating story templates

The story template of a component stands in the directory of the component.  One that is there is
left alone unless it is forced, so changes by hand survive.
-/

namespace ComponentStories

namespace Component

/-- The path of the story template of a component. -/
def templatePath (c : Component) : String := Path.join c.path (FileName.template c.machineName)

/-- What is to be done for a component. -/
inductive Plan
  /-- Nothing, since there is a template. -/
  | upToDate
  /-- Nothing, since the component has no inputs. -/
  | noInputs
  /-- A text is to be written. -/
  | write (text : String)
  deriving DecidableEq, Repr

/-- What is to be done for a component whose template may be there. -/
def plan (settings : Settings) (c : Component) (present force : Bool) : Plan :=
  if Policy.existence.shouldGenerate present false force then
    match c.document? settings with
    | some d => .write d.render
    | none => .noInputs
  else .upToDate

/-- What is to be done for a component in a state. -/
def planIn {σ : Type} [Store σ] (settings : Settings) (force : Bool) (c : Component) (s : σ) :
    Plan :=
  c.plan settings (Store.holds s c.templatePath) force

/-- Does what is planned for a component. -/
def perform {σ : Type} [Store σ] (c : Component) (plan : Plan) (s : σ) : Attempt × σ :=
  let path := c.templatePath
  match plan with
  | .upToDate =>
    (⟨.ok (.skipped path .upToDate),
      [⟨.info, "Skipping component stories generation for " ++ path⟩]⟩, s)
  | .noInputs =>
    (⟨.ok (.skipped path .noInputs),
      [⟨.info, "Skipping " ++ path ++ ": component " ++ c.id ++ " has no props or slots"⟩]⟩, s)
  | .write text =>
    let shown : Record := ⟨.debug, "Story template for " ++ c.id ++ ":\n" ++ text⟩
    match Store.write s path text with
    | (.ok (), s) =>
      (⟨.ok (.generated path), [shown, ⟨.info, "Stories generated for " ++ path⟩]⟩, s)
    | (.error e, s) => (⟨.error (.write path e), [shown]⟩, s)

/-- Generates the story template of a component. -/
def generate {σ : Type} [Store σ] (settings : Settings) (force : Bool) (c : Component) (s : σ) :
    Attempt × σ :=
  c.perform (c.planIn settings force s) s

end Component

/-- Generates the story templates of all components, in the order of their identifiers. -/
def Registry.generateAll {σ : Type} [Store σ] (settings : Settings) (force : Bool) (r : Registry)
    (s : σ) : List Attempt × σ :=
  inTurn (Component.generate settings force) r.components s

end ComponentStories
