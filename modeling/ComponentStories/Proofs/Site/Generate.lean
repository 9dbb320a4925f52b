import ComponentStories.Proofs.FileSystem.Change
import ComponentStories.Proofs.Site.Templates

/-
# Generating one stories file

A stories file is current if it holds what its template gives now (`IsCurrent`), and fresh if it is
current or older than its template (`Fresh`).  Whether a fresh one is left alone or written again,
it is current afterwards (`snd_generate_eq`).
-/

namespace ComponentStories.Site

open ComponentStories.Path FileSystem

/-- The stories file of a template holds what the text of it gives, if that gives something. -/
def IsCurrent (site : Site) (serverUrl : Option String) (fs : FileSystem) (t : String) : Prop :=
  ∀ source file, fs.readText t = .ok source →
    Template.storiesFile? source (serverUrl.getD "") = some file →
    fs.readText (site.storiesPath t) = .ok file.render

/-- A stories file that is not older than its template holds what the text of the template
gives, if it gives something. -/
def Fresh (site : Site) (serverUrl : Option String) (fs : FileSystem) (t : String) : Prop :=
  ∀ source time content made, fs.item t = .ok ⟨.file (.text source), time⟩ →
    fs.item (site.storiesPath t) = .ok ⟨.file content, made⟩ → ¬ made < time →
    ∀ file, Template.storiesFile? source (serverUrl.getD "") = some file →
      content = .text file.render

variable {site : Site} {fs fs' : FileSystem} {t name : String} {serverUrl : Option String}

/-- A stories file that holds what its template gives is current. -/
theorem isCurrent_of_readText {source : String} {file : StoriesFile}
    (hsource : fs.readText t = .ok source)
    (hfile : Template.storiesFile? source (serverUrl.getD "") = some file)
    (hmade : fs.readText (site.storiesPath t) = .ok file.render) :
    site.IsCurrent serverUrl fs t := by
  intro source' file' hsource' hfile'
  rw [Except.ok.inj (hsource'.symm.trans hsource), hfile] at hfile'
  rw [← Option.some.inj hfile']
  exact hmade

theorem IsCurrent.fresh (h : site.IsCurrent serverUrl fs t) : site.Fresh serverUrl fs t := by
  intro source time content made hsource hmade _ file hfile
  have hread := h source file (readText_eq_ok_iff.mpr ⟨time, hsource⟩) hfile
  obtain ⟨made', hmade'⟩ := readText_eq_ok_iff.mp hread
  have heq := hmade.symm.trans hmade'
  simp only [Except.ok.injEq, Item.mk.injEq, Entry.file.injEq] at heq
  exact heq.1

/-! ## Where the files stay the same -/

theorem HasTemplate.of_sameFile (h : site.HasTemplate fs t name) (hsame : SameFile fs fs' t) :
    site.HasTemplate fs' t name := by
  obtain ⟨dir, hdir, dirs, hnames, ht, hform, hfile⟩ := h
  exact ⟨dir, hdir, dirs, hnames, ht, hform, hsame.isFile hfile⟩

theorem IsCurrent.congr (h : site.IsCurrent serverUrl fs t) (ht : SameFile fs fs' t)
    (hs : SameFile fs fs' (site.storiesPath t)) : site.IsCurrent serverUrl fs' t := by
  intro source file hsource hfile
  exact hs.readText_eq_ok_iff.mpr (h source file (ht.readText_eq_ok_iff.mp hsource) hfile)

theorem Fresh.congr (h : site.Fresh serverUrl fs t) (ht : SameFile fs fs' t)
    (hs : SameFile fs fs' (site.storiesPath t)) : site.Fresh serverUrl fs' t := by
  intro source time content made hsource hmade
  exact h source time content made ((ht _ _).mp hsource) ((hs _ _).mp hmade)

/-! ## Generating -/

/-- Generating changes the file system only by writing at the path of the stories file. -/
theorem snd_generate (site : Site) (request : Request) (t : String) (fs : FileSystem) :
    (site.generate request t fs).2 =
      match site.plan fs request t with
      | .ok (.write file) => (fs.write (site.storiesPath t) (.text file.render)).2
      | _ => fs := by
  rw [generate]
  dsimp only
  split
  · rename_i h
    rw [h]
  · rename_i h
    rw [h]
  · rename_i file h
    rw [h]
    dsimp only
    split <;> rename_i heq <;> rw [heq]

/-- What is planned for a template with a time. -/
theorem plan_eq {request : Request} {time : Int} {made : Option Int}
    (ht : fs.modified t = .ok (some time)) (hmade : fs.modified (site.storiesPath t) = .ok made) :
    site.plan fs request t =
      if request.force || isStale time made then
        match readStories fs t (request.serverUrl.getD "") with
        | .ok file => .ok (.write file)
        | .error e => .error (.render (site.storiesPath t) e)
      else .ok .upToDate := by
  rw [plan, ht, hmade]
  rfl

/-- A template makes a stories file if its text is read and gives one. -/
theorem readStories_eq_ok_iff {url : String} {file : StoriesFile} :
    readStories fs t url = .ok file ↔
      ∃ source, fs.readText t = .ok source ∧ Template.storiesFile? source url = some file := by
  rw [readStories]
  cases fs.readText t with
  | error e => simp
  | ok source => cases h : Template.storiesFile? source url <;> simp [h]

/-- What stands at the name of a stories file, if anything does, is a file with
the time that is told of it. -/
theorem exists_modified_join {d : Location} {path n : String} (htree : fs.IsTree)
    (hd : fs.LeadsTo path d) (hn : IsName n) (hfault : pathFault? (join path n) = none)
    (hroom : fs.entryAt? (d ++ [n]) ≠ some .directory) :
    ∃ made, fs.modified (join path n) = .ok made ∧
      ∀ time, made = some time → ∃ content, fs.item (join path n) = .ok ⟨.file content, time⟩ := by
  have hitem := htree.item_join hd hn hfault
  rw [FileSystem.modified]
  cases hmade : fs.itemAt? (d ++ [n]) with
  | none =>
    rw [hmade] at hitem
    exact ⟨none, by rw [hitem], fun _ h => absurd h (by simp)⟩
  | some i =>
    obtain ⟨entry, time⟩ := i
    rw [hmade] at hitem
    refine ⟨some time, by rw [hitem], fun _ heq => ?_⟩
    rw [← Option.some.inj heq]
    have hentry : fs.entryAt? (d ++ [n]) = some entry := by rw [FileSystem.entryAt?, hmade]; rfl
    cases entry with
    | file content => exact ⟨content, hitem⟩
    | directory => exact absurd hentry hroom
    | link target => exact absurd hentry (htree.plain _ _)

/-- **Generating a stories file that is fresh** leaves it alone if it is current, and otherwise
writes what the text of the template gives. -/
theorem snd_generate_eq {d : Location} (htree : fs.IsTree) (hd : fs.LeadsTo site.storiesDir d)
    (ht : site.HasTemplate fs t name) (hname : FileName.IsPlainTemplate name)
    (hfault : pathFault? (join site.storiesDir (FileName.storiesFile name)) = none)
    (hroom : fs.entryAt? (d ++ [FileName.storiesFile name]) ≠ some .directory)
    (hfresh : site.Fresh serverUrl fs t) (force : Bool) :
    ((site.generate ⟨force, serverUrl⟩ t fs).2 = fs ∧ site.IsCurrent serverUrl fs t) ∨
      ∃ source file, fs.readText t = .ok source ∧
        Template.storiesFile? source (serverUrl.getD "") = some file ∧
        (site.generate ⟨force, serverUrl⟩ t fs).2 =
          fs.change (d ++ [FileName.storiesFile name]) (.file (.text file.render)) := by
  obtain ⟨content, time, hitem⟩ := isFile_iff.mp ht.isFile
  have htime : fs.modified t = .ok (some time) := by rw [FileSystem.modified, hitem]
  obtain ⟨made, hmade, hcontent⟩ :=
    exists_modified_join htree hd hname.isName_storiesFile hfault hroom
  rw [← ht.storiesPath_eq] at hmade hcontent
  rw [snd_generate, plan_eq htime hmade]
  by_cases hwrite : (force || isStale time made) = true
  · rw [if_pos hwrite]
    cases hread : readStories fs t (serverUrl.getD "") with
    | ok file =>
      obtain ⟨source, hsource, hstories⟩ := readStories_eq_ok_iff.mp hread
      refine Or.inr ⟨source, file, hsource, hstories, ?_⟩
      rw [ht.storiesPath_eq]
      exact congrArg Prod.snd
        (htree.write_join hd hname.isName_storiesFile hfault hroom (.text file.render))
    | error e =>
      refine Or.inl ⟨rfl, fun source file hsource hstories => ?_⟩
      have hok := readStories_eq_ok_iff.mpr ⟨source, hsource, hstories⟩
      rw [hread] at hok
      exact absurd hok (by simp)
  · -- the stories file is there and not older, so it is current as it is fresh
    rw [if_neg hwrite]
    refine Or.inl ⟨rfl, fun source file hsource hstories => ?_⟩
    rw [Bool.not_eq_true, Bool.or_eq_false_iff] at hwrite
    cases made with
    | none => exact absurd hwrite.2 (by simp [isStale])
    | some made =>
      obtain ⟨old, hold⟩ := hcontent made rfl
      obtain ⟨time', hitem'⟩ := readText_eq_ok_iff.mp hsource
      have hsame := hitem.symm.trans hitem'
      simp only [Except.ok.injEq, Item.mk.injEq, Entry.file.injEq] at hsame
      obtain ⟨rfl, rfl⟩ := hsame
      have hlate : ¬ made < time := by simpa [isStale] using hwrite.2
      obtain rfl := hfresh source time old made hitem hold hlate file hstories
      exact readText_eq_ok_iff.mpr ⟨made, hold⟩

end ComponentStories.Site
