import ComponentStories.Proofs.Command.Run
import ComponentStories.Proofs.FileSystem.Grows
import ComponentStories.Proofs.Site.Generate

/-
# Templates below the root

The command for all templates looks at where every template lies before it makes anything, and
making stories files moves no template: paths go on standing for the same locations.  So every
stories file is made from the text of a template below the root, whatever links there are
(`confined_session`).  The command for one template does not look, so there it is up to the path
that it is given.
-/

namespace ComponentStories

open ComponentStories.Path FileSystem

/-! ## Turns -/

/-- The items that are acted on in turn, each with the state that it is acted on in. -/
def trace {σ α β : Type} (act : α → σ → β × σ) : List α → σ → List (α × σ)
  | [], _ => []
  | a :: rest, s => (a, s) :: trace act rest (act a s).2

/-- How a command for templates makes stories files; none if the command is another one. -/
def Command.request? (c : Config) : Command → Option Request
  | .storiesFile _ force leaveUrlOut => some ⟨force, (c.chosenUrl leaveUrlOut).1⟩
  | .allStoriesFiles force putUrlIn leaveUrlOut =>
    some ⟨force, (c.chosenUrl (leavesUrlOut leaveUrlOut putUrlIn)).1⟩
  | _ => none

/-- The templates that a command turns to. -/
def Command.templates (c : Config) (fs : FileSystem) : Command → List String
  | .storiesFile template _ _ => [join c.root template]
  | .allStoriesFiles _ _ _ => (c.site.templates fs).toOption.getD []
  | _ => []

/-- A command for templates makes the directory of the stories files, and then those of the
templates that it turns to. -/
theorem files_run_of_request? {c : Config} {command : Command} {request : Request}
    (hrequest : command.request? c = some request) {path : String} {fs : FileSystem}
    (hload : Config.load fs path = .ok c) : (command.run path fs).files =
      match fs.makeDirectories c.site.storiesDir with
      | (.ok (), fs) => (inTurn (c.site.generate request) (command.templates c fs) fs).2
      | (.error _, fs) => fs := by
  cases command with
  | storiesFile template force leaveUrlOut =>
    obtain rfl := Option.some.inj hrequest
    rw [Command.run, files_withConfig, hload]
    exact files_runTemplate c template force leaveUrlOut fs
  | allStoriesFiles force putUrlIn leaveUrlOut =>
    obtain rfl := Option.some.inj hrequest
    rw [Command.run, files_withConfig, hload]
    dsimp only
    rw [files_runAllTemplates]
    cases fs.makeDirectories c.site.storiesDir with
    | mk made fs =>
      cases made with
      | error e => rfl
      | ok =>
        dsimp only [Site.generateAll, Command.templates]
        cases c.site.templates fs <;> rfl
  | _ => exact absurd hrequest (by simp [Command.request?])

namespace Site

variable {site : Site} {request : Request} {fs fs' : FileSystem} {t : String}
  {written : Content → Prop}

/-! ## One stories file -/

/-- A stories file is made for a template: it was generated, and the content is what the
text of the template gives. -/
def Makes (site : Site) (request : Request) (t : String) (fs : FileSystem) (content : Content) :
    Prop :=
  (site.generate request t fs).1.result = .ok (.generated (site.storiesPath t)) ∧
    ∃ source file, fs.readText t = .ok source ∧
      Template.storiesFile? source (request.serverUrl.getD "") = some file ∧
      content = .text file.render

/-- What is to be written is what the text of the template gives. -/
theorem readStories_of_plan {file : StoriesFile} (h : site.plan fs request t = .ok (.write file)) :
    readStories fs t (request.serverUrl.getD "") = .ok file := by
  rw [plan] at h
  split at h
  · exact absurd h (by simp)
  · exact absurd h (by simp)
  · split at h
    · cases hread : readStories fs t (request.serverUrl.getD "") with
      | ok file' =>
        rw [hread] at h
        rw [Plan.write.inj (Except.ok.inj h)]
      | error e =>
        rw [hread] at h
        exact absurd h (by simp)
    · exact absurd h (by simp)

/-- **A file system grows by the stories file that is made.** -/
theorem grows_generate (hnested : fs.Nested) (site : Site) (request : Request) (t : String) :
    Grows (site.Makes request t fs) fs (site.generate request t fs).2 := by
  rw [snd_generate]
  split
  · rename_i file hplan
    refine (hnested.grows_write _ _).mono ?_
    rintro _ ⟨hok, rfl⟩
    obtain ⟨source, hsource, hfile⟩ := readStories_eq_ok_iff.mp (readStories_of_plan hplan)
    refine ⟨?_, source, file, hsource, hfile, rfl⟩
    rw [generate, hplan]
    dsimp only
    split
    · rfl
    · rename_i heq
      rw [heq] at hok
      exact absurd hok (by simp)
  · exact .refl hnested

/-! ## Templates stay where they are -/

/-- A path that is inside of another one stays inside. -/
theorem isInside_of_grows (h : Grows written fs fs') {path root : String}
    (hinside : isInside fs path root = true) : isInside fs' path root = true := by
  rw [isInside] at hinside
  split at hinside
  · rename_i l r hpath hroot
    rw [isInside, h.locate hpath, h.locate hroot]
    exact hinside
  · exact absurd hinside Bool.false_ne_true

/-- **A template without fault stays without fault** when the file system grows. -/
theorem templateFault?_of_grows (h : Grows written fs fs')
    (hfault : site.templateFault? fs t = none) : site.templateFault? fs' t = none := by
  rw [templateFault?_eq_none_iff] at hfault ⊢
  exact ⟨hfault.1, isInside_of_grows h hfault.2⟩

/-! ## All stories files -/

/-- **The file systems on the way have grown to one another**, and the last one has grown by the
stories files that were made. -/
theorem grows_trace (hnested : fs.Nested) (site : Site) (request : Request) (ts : List String) :
    Grows (fun content => ∃ e ∈ trace (site.generate request) ts fs,
        site.Makes request e.1 e.2 content) fs (inTurn (site.generate request) ts fs).2 ∧
      ∀ e ∈ trace (site.generate request) ts fs, Grows (fun _ => True) fs e.2 := by
  induction ts generalizing fs with
  | nil => exact ⟨.refl hnested, List.forall_mem_nil _⟩
  | cons t ts ih =>
    have hfirst := grows_generate hnested site request t
    obtain ⟨hlast, hway⟩ := ih hfirst.nested
    refine ⟨?_, List.forall_mem_cons.mpr ⟨.refl hnested, fun e he => ?_⟩⟩
    · refine (hfirst.mono fun content hmade => ?_).trans (hlast.mono ?_)
      · exact ⟨(t, fs), List.mem_cons_self, hmade⟩
      · rintro content ⟨e, he, hmade⟩
        exact ⟨e, List.mem_cons_of_mem _ he, hmade⟩
    · exact (hfirst.mono fun _ _ => trivial).trans (hway e he)

/-! ## Commands -/

/-- A template below the root: it is without fault, so it stands for a location at or below that of
the root, and its text is the one of the file there. -/
structure Inside (site : Site) (fs : FileSystem) (t : String) : Prop where
  /-- It is without fault. -/
  fault : site.templateFault? fs t = none
  /-- The file that it stands for lies below the root. -/
  place : ∃ l r, fs.locate t = .ok l ∧ fs.locate site.root = .ok r ∧ r <+: l ∧
    ∀ source, fs.readText t = .ok source → fs.entryAt? l = some (.file (.text source))

/-- A template without fault is below the root. -/
theorem inside_of_templateFault? (h : site.templateFault? fs t = none) : site.Inside fs t := by
  refine ⟨h, ?_⟩
  have hinside := (templateFault?_eq_none_iff.mp h).2
  rw [isInside] at hinside
  split at hinside
  · rename_i l r hpath hroot
    refine ⟨l, r, hpath, hroot, List.isPrefixOf_iff_prefix.mp hinside, fun source hread => ?_⟩
    obtain ⟨time, hitem⟩ := readText_eq_ok_iff.mp hread
    obtain ⟨l', hpath', hl⟩ := item_eq_ok_iff.mp hitem
    obtain rfl := Except.ok.inj (hpath.symm.trans hpath')
    exact entryAt?_eq_some_iff.mpr ⟨time, hl⟩
  · exact absurd hinside Bool.false_ne_true

end Site

/-- The templates that a command turns to are without fault, if the one that it is given is. -/
theorem templateFault?_of_mem_templates_command {c : Config} {command : Command}
    {fs fs' : FileSystem} {written : Content → Prop} (hgrows : Grows written fs fs')
    (hargument : ∀ t force leaveUrlOut, command = .storiesFile t force leaveUrlOut →
      c.site.templateFault? fs (join c.root t) = none) {t : String}
    (ht : t ∈ command.templates c fs') : c.site.templateFault? fs' t = none := by
  cases command with
  | storiesFile template force leaveUrlOut =>
    obtain rfl := List.mem_singleton.mp ht
    exact Site.templateFault?_of_grows hgrows (hargument template force leaveUrlOut rfl)
  | allStoriesFiles force putUrlIn leaveUrlOut =>
    rw [Command.templates] at ht
    cases htemplates : c.site.templates fs' with
    | error e =>
      rw [htemplates] at ht
      exact absurd ht List.not_mem_nil
    | ok paths =>
      rw [htemplates] at ht
      exact ((Site.mem_of_templates_eq_ok htemplates).mp ht).1
  | _ => exact absurd ht List.not_mem_nil

/-- An item that is acted on in turn is one of the list. -/
theorem mem_of_mem_trace {σ α β : Type} {act : α → σ → β × σ} {l : List α} {s : σ} {e : α × σ}
    (h : e ∈ trace act l s) : e.1 ∈ l := by
  induction l generalizing s with
  | nil => exact absurd h List.not_mem_nil
  | cons a l ih =>
    rcases List.mem_cons.mp h with rfl | h
    · exact List.mem_cons_self
    · exact List.mem_cons_of_mem a (ih h)

/-- **Stories files are made from templates below the root.**  Take any file system, with links
wherever they are, any arguments that ask for stories files and any configuration.  If the command
is the one for all templates, or the path that the one for one template is given is without fault,
then every template that the command turns to lies below the root in the state in which it is read,
and every file that is new or different behind the program was made from the text of one of them. -/
theorem confined_session {fs : FileSystem} (hnested : fs.Nested) {args : List String}
    {i : Invocation} (hargs : Command.ofArguments args = .run i) {c : Config}
    (hload : Config.load fs i.config = .ok c) {request : Request}
    (hrequest : i.command.request? c = some request)
    (hargument : ∀ t force leaveUrlOut, i.command = .storiesFile t force leaveUrlOut →
      c.site.templateFault? fs (join c.root t) = none) :
    let prepared := (fs.makeDirectories c.site.storiesDir).2
    let turns := trace (c.site.generate request) (i.command.templates c prepared) prepared
    (∀ e ∈ turns, c.site.Inside e.2 e.1) ∧
      ∀ l content, (session args fs).files.entryAt? l = some (.file content) →
        fs.entryAt? l = some (.file content) ∨
          ∃ e ∈ turns, c.site.Makes request e.1 e.2 content := by
  intro prepared turns
  have hprepared : Grows (fun _ => False) fs prepared := hnested.grows_makeDirectoriesOf _
  obtain ⟨hmade, hway⟩ :=
    Site.grows_trace hprepared.nested c.site request (i.command.templates c prepared)
  refine ⟨fun e he => ?_, fun l content hfile => ?_⟩
  · have hfault := templateFault?_of_mem_templates_command hprepared hargument (mem_of_mem_trace he)
    exact Site.inside_of_templateFault? (Site.templateFault?_of_grows (hway e he) hfault)
  · have hfiles : (session args fs).files = match fs.makeDirectories c.site.storiesDir with
        | (.ok (), fs) => (inTurn (c.site.generate request) (i.command.templates c fs) fs).2
        | (.error _, fs) => fs := by
      rw [files_session, hargs]
      exact files_run_of_request? hrequest hload
    have hold : ∀ written : Content → Prop, Grows written prepared (session args fs).files →
        fs.entryAt? l = some (.file content) ∨ written content := by
      intro written hgrows
      refine (hgrows.old l content hfile).imp ?_ id
      exact fun h => (hprepared.old l content h).resolve_right id
    rw [hfiles] at hold
    split at hold
    · rename_i fs₁ heq
      obtain rfl : prepared = fs₁ := congrArg Prod.snd heq
      exact hold _ hmade
    · rename_i e fs₁ heq
      obtain rfl : prepared = fs₁ := congrArg Prod.snd heq
      exact (hold (fun _ => False) (.refl hprepared.nested)).imp id False.elim

/-- The text of a template without stories. -/
def plainTemplate : String :=
  "\x7b% stories card with \x7b title: 'A' \x7d %\x7d\x7b% endstories %\x7d"

/-- The text of its stories file. -/
def plainStories : String :=
  "\x7b\"title\":\"A\",\"parameters\":\x7b\"server\":\x7b\"id\":\"card\"\x7d\x7d,\"stories\":[]\x7d"

/-- The location where its stories file goes. -/
def plainPlace : Location := ["box", "storybook", "stories", "card.stories.json"]

/-- A site with a template that is found by way of a link. -/
def linked : FileSystem where
  items := [([], ⟨.directory, 0⟩), (["box"], ⟨.directory, 0⟩), (["box", "web"], ⟨.directory, 0⟩),
    (["box", "web", "shared"], ⟨.directory, 0⟩),
    (["box", "web", "shared", "card.stories.twig"], ⟨.file (.text plainTemplate), 0⟩),
    (["box", "web", "themes"], ⟨.link "shared", 0⟩)]
  working := ["box"]
  clock := 0

/-- The stories file is made from the template that the link leads to, below the root. -/
theorem confined_session_linked : linked.Nested ∧
    Command.ofArguments ["generate-all-stories"] =
      .run ⟨"stories.toml", false, .allStoriesFiles false false false⟩ ∧
    Config.load linked "stories.toml" = .ok Config.standard ∧
    linked.entryAt? plainPlace = none ∧
    (session ["generate-all-stories"] linked).files.entryAt? plainPlace =
      some (.file (.text plainStories)) ∧
    let prepared := (linked.makeDirectories Config.standard.site.storiesDir).2
    ∃ e ∈ trace (Config.standard.site.generate ⟨false, none⟩)
        ((Command.allStoriesFiles false false false).templates Config.standard prepared) prepared,
      Config.standard.site.Inside e.2 e.1 ∧
        Config.standard.site.Makes ⟨false, none⟩ e.1 e.2 (.text plainStories) := by
  have hnested : linked.Nested := nested_of_forall_items (by decide +kernel)
  have hargs : Command.ofArguments ["generate-all-stories"] =
      .run ⟨"stories.toml", false, .allStoriesFiles false false false⟩ := by
    decide +kernel
  have hload : Config.load linked "stories.toml" = .ok Config.standard := by decide +kernel
  have hbefore : linked.entryAt? plainPlace = none := by decide +kernel
  have hafter : (session ["generate-all-stories"] linked).files.entryAt? plainPlace =
      some (.file (.text plainStories)) := by
    decide +kernel
  have hrequest : (Command.allStoriesFiles false false false).request? Config.standard =
      some ⟨false, none⟩ :=
    rfl
  obtain ⟨hinside, hfiles⟩ := confined_session hnested hargs hload hrequest
    (fun _ _ _ h => absurd h (by simp))
  refine ⟨hnested, hargs, hload, hbefore, hafter, ?_⟩
  rcases hfiles _ _ hafter with hold | ⟨e, he, hmade⟩
  · exact absurd (hbefore.symm.trans hold) (by simp)
  · exact ⟨e, he, hinside e he, hmade⟩

/-- A file system with a template beside the root of the site. -/
def beside : FileSystem where
  items := [([], ⟨.directory, 0⟩), (["box"], ⟨.directory, 0⟩),
    (["box", "elsewhere"], ⟨.directory, 0⟩),
    (["box", "elsewhere", "card.stories.twig"], ⟨.file (.text plainTemplate), 0⟩),
    (["box", "web"], ⟨.directory, 0⟩)]
  working := ["box"]
  clock := 0

/-- **The command for one template makes a stories file from a template outside of the root**,
though the path is at fault before and after. -/
theorem not_confined_session_beside : beside.Nested ∧
    Config.load beside "stories.toml" = .ok Config.standard ∧
    let path := "web/../elsewhere/card.stories.twig"
    let s := session ["generate-stories", "../elsewhere/card.stories.twig"] beside
    Config.standard.site.templateFault? beside path = some (.outsideRoot path) ∧
    Config.standard.site.templateFault? s.files path = some (.outsideRoot path) ∧
    beside.entryAt? plainPlace = none ∧ s.status = 0 ∧
    s.files.entryAt? plainPlace = some (.file (.text plainStories)) ∧
    s.files.readText path = .ok plainTemplate := by
  refine ⟨nested_of_forall_items (by decide +kernel), ?_⟩
  decide +kernel

end ComponentStories
