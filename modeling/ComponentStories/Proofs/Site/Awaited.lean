import ComponentStories.Proofs.Site.Confined
import ComponentStories.Proofs.Site.History

/-
# A stories file that is awaited

A stories file is awaited as long as what stands in its place is older than its template, or is that
file already (`Awaited`).  Whatever a run does for other templates, it goes on being awaited, and
the run makes it when it comes to its template, unless something fails (`Awaited.turns`).
-/

namespace ComponentStories.Site

open ComponentStories.Path FileSystem

variable {site : Site} {request : Request} {r d : Location} {fs : FileSystem}
  {t u name m source : String}
  {time : Int} {file : StoriesFile} {outcome : Outcome}

/-! ## One stories file that does not fail -/

/-- What is planned is planned for a stories file whose time can be told. -/
theorem exists_modified_of_plan {plan : Plan} (h : site.plan fs request t = .ok plan) :
    ∃ made, fs.modified (site.storiesPath t) = .ok made := by
  rw [Site.plan] at h
  split at h
  · exact absurd h (by simp)
  · exact absurd h (by simp)
  · exact ⟨_, ‹_›⟩

/-- A stories file that does not fail to be generated is left alone or written in its place. -/
theorem generate_cases (htree : fs.IsTree) (hd : fs.LeadsTo site.storiesDir d)
    (ht : fileName? t = some name) (hname : FileName.IsPlainTemplate name)
    (hok : (site.generate request t fs).1.result = .ok outcome) :
    pathFault? (join site.storiesDir (FileName.storiesFile name)) = none ∧
      (site.plan fs request t = .ok .upToDate ∧ (site.generate request t fs).2 = fs ∨
      ∃ file, site.plan fs request t = .ok (.write file) ∧
        fs.entryAt? (d ++ [FileName.storiesFile name]) ≠ some .directory ∧
        (site.generate request t fs).2 =
          fs.change (d ++ [FileName.storiesFile name]) (.file (.text file.render))) := by
  have hpath : site.storiesPath t = join site.storiesDir (FileName.storiesFile name) := by
    rw [storiesPath, ht]
    rfl
  rw [snd_generate]
  rw [generate] at hok
  cases hplan : site.plan fs request t with
  | error e =>
    rw [hplan] at hok
    exact absurd hok (by simp [Attempt.failed])
  | ok plan =>
    obtain ⟨made, hmade⟩ := exists_modified_of_plan hplan
    rw [hpath] at hmade
    have hfault := pathFault?_eq_none_of_modified (join_ne_empty _ hname.isName_storiesFile) hmade
    refine ⟨hfault, ?_⟩
    cases plan with
    | upToDate => exact Or.inl ⟨rfl, rfl⟩
    | write file =>
      rw [hplan, hpath] at hok
      rw [hpath]
      dsimp only at hok ⊢
      by_cases hroom : fs.entryAt? (d ++ [FileName.storiesFile name]) = some .directory
      · rw [htree.write_join_of_directory hd hname.isName_storiesFile hfault hroom] at hok
        exact absurd hok (by simp)
      · rw [htree.write_join hd hname.isName_storiesFile hfault hroom]
        exact Or.inr ⟨file, rfl, hroom, rfl⟩

/-- A stories file is generated without failure if its template gives one
and there is room for it. -/
theorem exists_result_generate_eq_ok (htree : fs.IsTree) (hd : fs.LeadsTo site.storiesDir d)
    (ht : site.HasTemplate fs t name) (hname : FileName.IsPlainTemplate name)
    (hfault : pathFault? (join site.storiesDir (FileName.storiesFile name)) = none)
    (hroom : fs.entryAt? (d ++ [FileName.storiesFile name]) ≠ some .directory)
    (hread : readStories fs t (request.serverUrl.getD "") = .ok file) :
    ∃ outcome, (site.generate request t fs).1.result = .ok outcome := by
  obtain ⟨content, time, hitem⟩ := isFile_iff.mp ht.isFile
  have htime : fs.modified t = .ok (some time) := by rw [FileSystem.modified, hitem]
  obtain ⟨made, hmade, -⟩ := exists_modified_join htree hd hname.isName_storiesFile hfault hroom
  rw [← ht.storiesPath_eq] at hmade
  rw [generate, plan_eq htime hmade]
  by_cases hwrite : (request.force || isStale time made) = true
  · rw [if_pos hwrite, hread, ht.storiesPath_eq]
    dsimp only
    rw [htree.write_join hd hname.isName_storiesFile hfault hroom]
    exact ⟨_, rfl⟩
  · rw [if_neg hwrite]
    exact ⟨_, rfl⟩

/-! ## Awaiting -/

/-- A stories file is awaited for a template of a name: the template is there with a text and a
time, and what stands in the place of the stories file is older or is this file. -/
structure Awaited (site : Site) (r d : Location) (t name source : String) (time : Int)
    (file : StoriesFile) (fs : FileSystem) : Prop where
  /-- There are no links. -/
  tree : fs.IsTree
  /-- The root is there. -/
  root : fs.LeadsTo site.root r
  /-- The directory of the stories files is there. -/
  storiesDir : fs.LeadsTo site.storiesDir d
  /-- The template is there. -/
  template : site.HasTemplate fs t name
  /-- It holds the text and has the time. -/
  item : fs.item t = .ok ⟨.file (.text source), time⟩
  /-- What stands in the place of the stories file is older, or is this file. -/
  place : ∀ item, fs.itemAt? (d ++ [FileName.storiesFile name]) = some item →
    item.modified < time ∨ item.entry = .file (.text file.render)

/-- A stories file that is awaited and up to date is there. -/
theorem Awaited.readText_of_upToDate (h : site.Awaited r d t name source time file fs)
    (hname : FileName.IsPlainTemplate name) (hplan : site.plan fs request t = .ok .upToDate) :
    fs.readText (site.storiesPath t) = .ok file.render := by
  obtain ⟨made, hmade⟩ := exists_modified_of_plan hplan
  have htime : fs.modified t = .ok (some time) := by rw [FileSystem.modified, h.item]
  rw [plan_eq htime hmade] at hplan
  split at hplan
  · split at hplan <;> exact absurd hplan (by simp)
  rename_i hfresh
  rw [Bool.or_eq_true, not_or] at hfresh
  rw [h.template.storiesPath_eq] at hmade ⊢
  have hfault := pathFault?_eq_none_of_modified (join_ne_empty _ hname.isName_storiesFile) hmade
  have hitem := h.tree.item_join h.storiesDir hname.isName_storiesFile hfault
  rw [FileSystem.modified, hitem] at hmade
  cases hold : fs.itemAt? (d ++ [FileName.storiesFile name]) with
  | none =>
    rw [hold] at hmade
    obtain rfl : none = made := Except.ok.inj hmade
    exact absurd rfl hfresh.2
  | some item =>
    rw [hold] at hmade hitem
    obtain rfl : some item.modified = made := Except.ok.inj hmade
    have hlate : ¬ item.modified < time := by simpa [isStale] using hfresh.2
    have hentry := (h.place item hold).resolve_left hlate
    refine readText_eq_ok_iff.mpr ⟨item.modified, ?_⟩
    rw [hitem, ← hentry]

/-- A stories file goes on being awaited behind a change in the place of any, if what stands in its
place is older then, or is this file. -/
theorem Awaited.of_keeps (h : site.Awaited r d t name source time file fs)
    (hm : FileName.IsPlainTemplate m) {fs' : FileSystem}
    (hkeeps : Keeps fs fs' (d ++ [FileName.storiesFile m]))
    (hplace : ∀ item, fs'.itemAt? (d ++ [FileName.storiesFile name]) = some item →
      item.modified < time ∨ item.entry = .file (.text file.render)) :
    site.Awaited r d t name source time file fs' := by
  obtain ⟨hiff, hstays⟩ := @hasTemplate_iff_of_keeps site r _ fs _ t name hkeeps h.tree h.root
    fun dir dirs _ hform => way_ne_stories hm hform
  exact ⟨hkeeps.tree, hkeeps.leadsTo h.root, hkeeps.leadsTo h.storiesDir, hiff.mpr h.template,
    (hstays h.template _ _).mpr h.item, hplace⟩

/-- **A stories file goes on being awaited** when one is generated without failure, and it is there
afterwards if it was there before or is the one. -/
theorem Awaited.generate (h : site.Awaited r d t name source time file fs)
    (hname : FileName.IsPlainTemplate name)
    (hfile : Template.storiesFile? source (request.serverUrl.getD "") = some file)
    (hu : fileName? u = some m) (hm : FileName.IsPlainTemplate m) (hsingle : m = name → u = t)
    (hok : (site.generate request u fs).1.result = .ok outcome) :
    site.Awaited r d t name source time file (site.generate request u fs).2 ∧
      (u = t ∨ fs.readText (site.storiesPath t) = .ok file.render →
        (site.generate request u fs).2.readText (site.storiesPath t) = .ok file.render) := by
  obtain ⟨hfault, ⟨hplan, hsame⟩ | ⟨file', hplan, hroom, hchange⟩⟩ :=
    generate_cases h.tree h.storiesDir hu hm hok
  · rw [hsame]
    refine ⟨h, ?_⟩
    rintro (rfl | hthere)
    · exact h.readText_of_upToDate hname hplan
    · exact hthere
  rw [hchange]
  have hkeeps := h.tree.keeps_change h.storiesDir.directory_right hm.isName_storiesFile hroom
    (.text file'.render)
  have hpath := h.template.storiesPath_eq
  by_cases heq : m = name
  · -- what is written for the template is the file
    obtain rfl := hsingle heq
    subst heq
    obtain ⟨source', hsource', hfile'⟩ := readStories_eq_ok_iff.mp (readStories_of_plan hplan)
    have hsource : fs.readText u = .ok source := readText_eq_ok_iff.mpr ⟨time, h.item⟩
    obtain rfl := Except.ok.inj (hsource'.symm.trans hsource)
    obtain rfl := Option.some.inj (hfile'.symm.trans hfile)
    refine ⟨h.of_keeps hm hkeeps fun item hitem => ?_, fun _ => ?_⟩
    · rw [itemAt?_change_self] at hitem
      rw [← Option.some.inj hitem]
      exact Or.inr rfl
    · rw [readText_eq_ok_iff, hpath, hkeeps.tree.item_join (hkeeps.leadsTo h.storiesDir)
        hname.isName_storiesFile hfault, itemAt?_change_self]
      exact ⟨_, rfl⟩
  · have hother : d ++ [FileName.storiesFile m] ≠ d ++ [FileName.storiesFile name] :=
      fun hplace => heq (hm.eq_of_storiesFile_eq hname (by simpa using hplace))
    refine ⟨h.of_keeps hm hkeeps fun item hitem => ?_, fun hor => ?_⟩
    · rw [itemAt?_change_of_ne _ hother (by simp)] at hitem
      exact h.place item hitem
    · have hut : u ≠ t := by
        rintro rfl
        exact heq (Option.some.inj (hu.symm.trans h.template.fileName?_eq))
      have hstories := sameFile_stories_of_keeps hkeeps h.tree h.storiesDir hname hpath hother.symm
      exact hstories.readText_eq_ok_iff.mpr (hor.resolve_left hut)

/-- **A run makes a stories file that is awaited** when it comes to its
template, if nothing fails. -/
theorem Awaited.turns (h : site.Awaited r d t name source time file fs)
    (hname : FileName.IsPlainTemplate name)
    (hfile : Template.storiesFile? source (request.serverUrl.getD "") = some file)
    {ts : List String}
    (hts : ∀ u ∈ ts, ∃ m, fileName? u = some m ∧ FileName.IsPlainTemplate m ∧ (m = name → u = t))
    (hok : ∀ a ∈ (inTurn (site.generate request) ts fs).1, ∃ outcome, a.result = .ok outcome)
    (hor : t ∈ ts ∨ fs.readText (site.storiesPath t) = .ok file.render) :
    (inTurn (site.generate request) ts fs).2.readText (site.storiesPath t) = .ok file.render := by
  induction ts generalizing fs with
  | nil => exact hor.resolve_left List.not_mem_nil
  | cons u ts ih =>
    obtain ⟨⟨m, hu, hm, hsingle⟩, hts⟩ := List.forall_mem_cons.mp hts
    obtain ⟨⟨outcome, hfirst⟩, hrest⟩ := List.forall_mem_cons.mp hok
    obtain ⟨hnext, hthere⟩ := h.generate hname hfile hu hm hsingle hfirst
    refine ih hnext hts hrest ?_
    rcases hor with hmem | hbefore
    · rcases List.mem_cons.mp hmem with heq | hmem
      · exact Or.inr (hthere (Or.inl heq.symm))
      · exact Or.inl hmem
    · exact Or.inr (hthere (Or.inr hbefore))

end ComponentStories.Site
