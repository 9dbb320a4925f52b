import ComponentStories.Proofs.Component.Configured
import ComponentStories.Proofs.Component.Written
import ComponentStories.Proofs.Document.Header
import ComponentStories.Proofs.Site.Awaited
import ComponentStories.Proofs.StoriesFile

/-
# From definitions to stories files

One command makes the templates of components, the other one makes the stories files of templates. 
A template that the first one reports as generated is found by the second one, it is newer than what
stands in the place of its stories file, and its header is read as it was written.  So the stories
file of every such component is there when the second command ends well (`exists_readText_session`).
-/

namespace ComponentStories

open ComponentStories.Path FileSystem

variable {fs g : FileSystem} {c : Config} {settings : Settings} {force : Bool} {r : Registry}
  {x : Component} {root : String} {d l : Location}

/-! ## The standard directories -/

/-- The directory of the stories files stands beside the root if a site does not say. -/
theorem join_standardStoriesDir (root : String) : join root Site.standardStoriesDir =
    ["storybook", "stories"].foldl join (join root "..") := by
  have hdir : Site.standardStoriesDir =
      ".." ++ "/" ++ ("storybook" ++ "/" ++ "stories") := by decide
  have hstorybook : IsPiece "storybook" := ⟨by decide, by decide⟩
  rw [hdir, join_append root isPiece_up (by decide), join_append _ hstorybook (by decide)]
  rfl

/-- The directory of the stories files is made beside the root, and nothing is
different but on the way to it. -/
theorem FileSystem.IsTree.leadsTo_standardStoriesDir (htree : fs.IsTree)
    (hstories : c.storiesDir = Site.standardStoriesDir) (hroot : fs.LeadsTo c.site.root d)
    (hmake : fs.makeDirectories c.site.storiesDir = (.ok (), g)) :
    g.LeadsTo c.site.storiesDir (d.dropLast ++ ["storybook", "stories"]) ∧
      ∀ l, ¬ l <+: d.dropLast ++ ["storybook", "stories"] → g.itemAt? l = fs.itemAt? l := by
  have hsite : c.site.storiesDir = ["storybook", "stories"].foldl join (join c.site.root "..") := by
    rw [← join_standardStoriesDir, ← hstories]
    rfl
  rw [hsite] at hmake ⊢
  exact htree.makeDirectories_foldl_join (htree.leadsTo_up hroot) (List.cons_ne_nil _ _) (by decide)
    hmake

/-- Below the directories that are looked through is nothing of the directory beside the root. -/
theorem way_ne_beside {dir : String} (hdir : dir ∈ Site.templateDirs) (d : Location)
    (dirs : List String) (name : String) :
    d ++ dir :: dirs ≠ d.dropLast ++ ["storybook", "stories"] ++ [name] := by
  have hnames : dir ≠ "storybook" ∧ dir ≠ "stories" := by
    have hall : ∀ dir ∈ Site.templateDirs, dir ≠ "storybook" ∧ dir ≠ "stories" := by decide
    exact hall dir hdir
  rcases List.eq_nil_or_concat' d with rfl | ⟨above, last, rfl⟩
  · intro heq
    exact hnames.1 (List.cons.inj heq).1
  · rw [List.dropLast_concat, List.append_assoc, List.append_assoc]
    intro heq
    have hrest := (List.cons.inj (List.append_cancel_left heq)).2
    exact hnames.2 (List.cons.inj hrest).1

/-- A component that is found has a plain machine name if that is made of ASCII characters. -/
theorem FileSystem.Finds.isPlainName (h : fs.Finds root x l)
    (hascii : ∀ ch ∈ x.machineName.toList, ch.toNat < 128) : IsPlainName x.machineName := by
  obtain ⟨name, -, -, hdefines, -⟩ := h.definition
  obtain ⟨suffix, -, hne, -, hstem⟩ := hdefines.exists_suffix
  refine ⟨hne, fun ch hch => ?_⟩
  have hlow := hascii ch hch
  have hchar := List.all_eq_true.mp hstem ch hch
  rw [FileName.isStemChar, Bool.or_eq_true, Bool.or_eq_true, Bool.or_eq_true, beq_iff_eq,
    beq_iff_eq, beq_iff_eq] at hchar
  rcases hchar with ((hword | hdash) | rfl) | rfl
  · exact Or.inl hword
  · exact Or.inr hdash
  · exact absurd hlow (by decide)
  · exact absurd hlow (by decide)

/-- The header of the document of a component that is found is read back: the title is
the group without the slashes at its end, a slash, and the name, and the identifier
has underscores for hyphens. -/
theorem FileSystem.Finds.exists_storiesFile (h : fs.Finds root x l)
    (hascii : ∀ ch ∈ x.machineName.toList, ch.toNat < 128) {document : StoryDocument}
    (hdocument : x.document? settings = some document) (url : String) :
    ∃ file, Template.storiesFile? document.render url = some file ∧
      file.title = String.ofList (settings.group.toList.rdropWhile (· = '/')) ++ "/" ++ x.name ∧
      file.server.id = x.machineName.map fun ch => if ch = '-' then '_' else ch := by
  obtain ⟨-, hdescribes⟩ := StoryDocument.describes_of_assemble? hdocument
  exact ⟨_, StoryDocument.storiesFile?_render (hdescribes.isWord (h.isPlainName hascii)) url,
    hdescribes.title.trans (titleOf_eq settings.group x.name),
    hdescribes.storiesId.trans (storiesIdOf_eq x.machineName)⟩

/-! ## Behind the first command -/

/-- Where a stories file goes is nothing that is later than all that was there before the
templates were generated. -/
theorem OnlyTemplates.modified_le_of_beside (h : OnlyTemplates fs settings force r g)
    (htimely : fs.Timely) (hroot : fs.LeadsTo root d)
    (hfound : ∀ x ∈ r.components, ∃ dir ∈ Site.templateDirs, ∃ l, fs.Finds (join root dir) x l)
    {name : String} (hname : FileName.IsPlainTemplate name) {item : Item}
    (hitem : g.itemAt? (d.dropLast ++ ["storybook", "stories"] ++ [FileName.storiesFile name]) =
      some item) : item.modified ≤ fs.clock := by
  rcases h.item (d.dropLast ++ ["storybook", "stories"] ++ [FileName.storiesFile name]) with
    hold | ⟨z, l, text, hmay, -, hplace | ⟨hplace, -⟩⟩
  · exact htimely _ _ (hold.symm.trans hitem)
  · -- the name of a stories file is not that of a template
    obtain ⟨root', hz⟩ := hmay.found
    have hform := hz.isPlainTemplate.form
    rw [← (List.append_singleton_inj.mp hplace).2, hname.isTemplate_storiesFile] at hform
    exact absurd hform Bool.false_ne_true
  · obtain ⟨root', hz⟩ := hmay.found
    obtain ⟨dir, hdir, l', hz'⟩ := hfound z hmay.registered
    obtain rfl := hz.leads.unique hz'.leads
    obtain ⟨d', dirs, hd', -, rfl, -⟩ := hz'.exists_way (Site.isName_of_mem_templateDirs hdir)
    obtain rfl := hroot.unique hd'
    exact absurd hplace.symm (way_ne_beside hdir d dirs _)

/-- **The stories file of a template that is reported as generated is awaited** as soon as the
directory of the stories files is there.  Templates stay when that is made. -/
theorem exists_awaited_of_generated (htree : fs.IsTree) (htimely : fs.Timely)
    (hdirs : c.componentDirs = Site.templateDirs)
    (hstories : c.storiesDir = Site.standardStoriesDir)
    (hfound : ∀ x ∈ r.components, ∃ dir ∈ c.existingDirs fs, ∃ l, fs.Finds dir x l)
    (hx : x ∈ r.components)
    (hreport : .ok (.generated x.templatePath) ∈
      Attempt.results (r.generateAll settings force fs).1)
    (hmake : (r.generateAll settings force fs).2.makeDirectories c.site.storiesDir = (.ok (), g)) :
    ∃ document root d time, x.document? settings = some document ∧
      (∀ file, c.site.Awaited root d x.templatePath (FileName.template x.machineName)
        document.render time file g) ∧
      ∀ t name, c.site.HasTemplate g t name ↔
        c.site.HasTemplate (r.generateAll settings force fs).2 t name := by
  have hnames : ∀ dir ∈ c.componentDirs, IsName dir := by
    rw [hdirs]
    exact fun dir => Site.isName_of_mem_templateDirs
  have hbelow := Config.exists_finds_join hfound
  rw [hdirs] at hbelow
  obtain ⟨dir, hdir, l, hxl⟩ := hbelow x hx
  obtain ⟨document, time, -, hdocument, hlate, hitem⟩ :=
    exists_itemAt?_of_generated htree htimely hnames hfound hx hxl hreport
  obtain ⟨root, dirs, hroot, hway, rfl, hpath⟩ :=
    hxl.exists_way (Site.isName_of_mem_templateDirs hdir)
  have honly : OnlyTemplates fs settings force r (r.generateAll settings force fs).2 :=
    .generateAll htree (Registry.exists_finds hfound)
  have hplain := hxl.isPlainTemplate
  generalize (r.generateAll settings force fs).2 = behind at *
  have hkeeps := honly.tree.keeps_makeDirectories hmake []
  have hroot' : behind.LeadsTo c.site.root root := honly.leadsTo hroot
  obtain ⟨hstoriesDir, hsame⟩ := honly.tree.leadsTo_standardStoriesDir hstories hroot' hmake
  have htemplate : g.item x.templatePath = .ok ⟨.file (.text document.render), time⟩ := by
    have hthere := (hkeeps.file _ (by simp) _ _).mpr hitem
    rw [Component.templatePath,
      hkeeps.tree.item_join (hkeeps.leadsTo (honly.leadsTo hxl.leads)) hplain.isName hxl.path,
      hthere]
  refine ⟨document, root, _, time, hdocument,
    fun file => ⟨hkeeps.tree, hkeeps.leadsTo hroot', hstoriesDir, ?_, htemplate, ?_⟩, fun t name =>
      (Site.hasTemplate_iff_of_keeps hkeeps honly.tree hroot' fun dir dirs _ _ => by simp).1⟩
  · refine ⟨dir, hdir, dirs, ?_, ?_, hplain.form, isFile_iff.mpr ⟨_, _, htemplate⟩⟩
    · exact List.forall_mem_append.mpr ⟨hway, List.forall_mem_singleton.mpr hplain.isName⟩
    · rw [Component.templatePath, hpath, ← List.cons_append, List.foldl_append]
      rfl
  · intro item hplace
    rw [hsame _ fun hprefix => by simpa using hprefix.length_le] at hplace
    exact Or.inl ((honly.modified_le_of_beside htimely hroot hbelow hplain hplace).trans_lt hlate)

/-! ## Behind both commands -/

/-- The program ends well behind both commands if the only template is that of a component that was
reported as generated, and there is room for its stories file. -/
theorem status_session_of_generated (htree : fs.IsTree) (htimely : fs.Timely)
    (hdirs : c.componentDirs = Site.templateDirs)
    (hstories : c.storiesDir = Site.standardStoriesDir)
    {args args' : List String} {path path' t : String}
    {verbose verbose' force' putUrlIn leaveUrlOut : Bool}
    (hfirst : Command.ofArguments args = .run ⟨path, verbose, .allComponentTemplates force⟩)
    (hload : Config.load fs path = .ok c)
    (hsecond : Command.ofArguments args' =
      .run ⟨path', verbose', .allStoriesFiles force' putUrlIn leaveUrlOut⟩)
    (hload' : Config.load (session args fs).files path' = .ok c)
    (hregistry : (c.registry fs).1 = .ok r) (hx : x ∈ r.components)
    (hreport : .ok (.generated x.templatePath) ∈
      Attempt.results (r.generateAll c.settings force fs).1)
    (hascii : ∀ ch ∈ x.machineName.toList, ch.toNat < 128)
    (hmake : (session args fs).files.makeDirectories c.site.storiesDir = (.ok (), g))
    (htemplates : c.site.templates g = .ok [t])
    (hfault : pathFault? (join c.site.storiesDir (x.machineName ++ ".stories.json")) = none)
    (hroom : ∃ d, g.LeadsTo c.site.storiesDir d ∧
      g.entryAt? (d ++ [x.machineName ++ ".stories.json"]) ≠ some .directory) :
    (session args' (session args fs).files).status = 0 := by
  obtain ⟨r', log, hregistry', hfound⟩ := c.exists_registry_eq htree
  obtain rfl := Except.ok.inj ((congrArg Prod.fst hregistry').symm.trans hregistry)
  have hmake' := hmake
  rw [files_session_of_allComponentTemplates hfirst hload hregistry'] at hmake'
  obtain ⟨document, root, d, time, hdocument, hawaited, -⟩ :=
    exists_awaited_of_generated htree htimely hdirs hstories hfound hx hreport hmake'
  obtain ⟨_, _, l, hxl⟩ := hfound x hx
  have hname := hxl.isPlainTemplate
  rw [status_session_eq_zero_iff hsecond, Command.run, failure_withConfig hload',
    failure_runAllTemplates_eq_none_iff]
  refine ⟨g, _, hmake, htemplates, ?_⟩
  generalize (⟨force', _⟩ : Request) = request
  obtain ⟨file, hfile, -⟩ := hxl.exists_storiesFile hascii hdocument (request.serverUrl.getD "")
  have hawaited := hawaited file
  have hmem := (Site.mem_templates_iff hawaited.tree hawaited.root htemplates).mpr
    ⟨_, hawaited.template, hname⟩
  obtain rfl := List.mem_singleton.mp hmem
  have hread : Site.readStories g x.templatePath (request.serverUrl.getD "") = .ok file :=
    Site.readStories_eq_ok_iff.mpr
      ⟨document.render, readText_eq_ok_iff.mpr ⟨time, hawaited.item⟩, hfile⟩
  rw [← FileName.storiesFile_template] at hfault hroom
  obtain ⟨_, hleads, hroom⟩ := hroom
  have hok := Site.exists_result_generate_eq_ok hawaited.tree hleads hawaited.template hname hfault
    hroom hread
  simpa only [inTurn, List.forall_mem_singleton] using hok

/-- **The two commands fit together.**  Take any directory tree in which nothing is later than
the last change, and any configuration with the standard directories.  Let the templates of all
components be generated, and let no two templates that are there then have the same name.  If
the stories files of all templates are generated next and the program ends well, then every
component whose template was reported as generated, and whose machine name is made of ASCII
characters, has its stories file in the directory of the stories files, under its machine name.
The text that is there is read as a stories file.  Its title is the group without the slashes at
its end, a slash, and the name of the component, and its identifier is the machine name with
each hyphen replaced by an underscore. -/
theorem exists_readText_session (htree : fs.IsTree) (htimely : fs.Timely)
    (hdirs : c.componentDirs = Site.templateDirs)
    (hstories : c.storiesDir = Site.standardStoriesDir)
    {args args' : List String} {path path' : String}
    {verbose verbose' force' putUrlIn leaveUrlOut : Bool}
    (hfirst : Command.ofArguments args = .run ⟨path, verbose, .allComponentTemplates force⟩)
    (hload : Config.load fs path = .ok c)
    (hsecond : Command.ofArguments args' =
      .run ⟨path', verbose', .allStoriesFiles force' putUrlIn leaveUrlOut⟩)
    (hload' : Config.load fs path' = .ok c)
    (hsingle : ∀ t t' name, c.site.HasTemplate (session args fs).files t name →
      c.site.HasTemplate (session args fs).files t' name → t = t')
    (hstatus : (session args' (session args fs).files).status = 0) :
    ∃ r, (c.registry fs).1 = .ok r ∧ ∀ x ∈ r.components,
      .ok (.generated x.templatePath) ∈ Attempt.results (r.generateAll c.settings force fs).1 →
      (∀ ch ∈ x.machineName.toList, ch.toNat < 128) →
      ∃ text file, (session args' (session args fs).files).files.readText
          (join c.site.storiesDir (x.machineName ++ ".stories.json")) = .ok text ∧
        StoriesFile.parse? text = some file ∧
        file.title = String.ofList (c.group.toList.rdropWhile (· = '/')) ++ "/" ++ x.name ∧
        file.server.id = x.machineName.map fun ch => if ch = '-' then '_' else ch := by
  obtain ⟨r, log, hregistry, hfound⟩ := c.exists_registry_eq htree
  refine ⟨r, congrArg Prod.fst hregistry, fun x hx hreport hascii => ?_⟩
  obtain ⟨c', request, g, paths, hload'', hmake, htemplates, hok, hfiles⟩ :=
    exists_of_status_session hsecond hstatus
  rw [hfiles]
  rw [files_session_of_allComponentTemplates hfirst hload hregistry] at hload'' hmake hsingle
  -- the second command has the configuration of the first one
  have honly : OnlyTemplates fs c.settings force r (r.generateAll c.settings force fs).2 :=
    .generateAll htree (Registry.exists_finds hfound)
  obtain rfl : c' = c := honly.config_unique htree hload' hload''
  obtain ⟨document, root, d, time, hdocument, hawaited, hsame⟩ :=
    exists_awaited_of_generated htree htimely hdirs hstories hfound hx hreport hmake
  obtain ⟨_, _, l, hxl⟩ := hfound x hx
  have hname := hxl.isPlainTemplate
  obtain ⟨file, hfile, htitle, hid⟩ :=
    hxl.exists_storiesFile hascii hdocument (request.serverUrl.getD "")
  refine ⟨file.render, file, ?_, file.parse?_eq, htitle, hid⟩
  have hawaited := hawaited file
  have hmem := fun t => Site.mem_templates_iff (t := t) hawaited.tree hawaited.root htemplates
  have hturns : ∀ u ∈ paths, ∃ m, fileName? u = some m ∧ FileName.IsPlainTemplate m ∧
      (m = FileName.template x.machineName → u = x.templatePath) := by
    intro u hu
    obtain ⟨m, hu, hm⟩ := (hmem u).mp hu
    refine ⟨m, hu.fileName?_eq, hm, ?_⟩
    rintro rfl
    exact hsingle _ _ _ ((hsame _ _).mp hu) ((hsame _ _).mp hawaited.template)
  have hthere := hawaited.turns hname hfile hturns hok
    (Or.inl ((hmem _).mpr ⟨_, hawaited.template, hname⟩))
  rwa [hawaited.template.storiesPath_eq, FileName.storiesFile_template] at hthere

/-! ## A site with a component -/

/-- A site with one component, and with a stories file from before. -/
def gallery : FileSystem where
  items := [([], ⟨.directory, 0⟩), (["box"], ⟨.directory, 0⟩),
    (["box", "storybook"], ⟨.directory, 0⟩),
    (["box", "storybook", "stories"], ⟨.directory, 0⟩),
    (["box", "storybook", "stories", "big-card.stories.json"], ⟨.file (.text "before"), 0⟩),
    (["box", "web"], ⟨.directory, 0⟩), (["box", "web", "themes"], ⟨.directory, 0⟩),
    (["box", "web", "themes", "big-card.component.yml"],
      ⟨.file (.text "name: Card\nslots:\n  body:\n    title: Body\n"), 0⟩)]
  working := ["box"]
  clock := 0

/-- The site with the template of the component. -/
def galleryBehind : FileSystem := (session ["generate-all-component-stories"] gallery).files

/-- The site with the template, when the directory of the stories files has been made. -/
def galleryReady : FileSystem := (galleryBehind.makeDirectories Config.standard.site.storiesDir).2

/-- The component is registered, and its template is reported as generated. -/
theorem exists_component_gallery {r : Registry}
    (hr : (Config.standard.registry gallery).1 = .ok r) :
    ∃ x ∈ r.components, x.machineName = "big-card" ∧ x.name = "Card" ∧
      .ok (.generated x.templatePath) ∈
        Attempt.results (r.generateAll Config.standard.settings false gallery).1 := by
  have hfacts : (Config.standard.registry gallery).1.toOption.map (fun r =>
      (r.components.map fun x => (x.machineName, x.name, x.templatePath),
        Attempt.results (r.generateAll Config.standard.settings false gallery).1)) =
      some ([("big-card", "Card", "web/themes/big-card.stories.twig")],
        [.ok (.generated "web/themes/big-card.stories.twig")]) := by
    decide +kernel
  rw [hr] at hfacts
  obtain ⟨hcomponents, hresults⟩ := Prod.mk.inj (Option.some.inj hfacts)
  obtain ⟨x, rest, hx, hfields, -⟩ := List.map_eq_cons_iff.mp hcomponents
  simp only [Prod.mk.injEq] at hfields
  refine ⟨x, by simp [hx], hfields.1, hfields.2.1, ?_⟩
  rw [hfields.2.2, hresults]
  exact List.mem_singleton_self _

/-- What is there behind the command for all components. -/
theorem galleryBehind_facts : galleryBehind.holds "stories.toml" = false ∧
    (∀ e ∈ galleryBehind.items, galleryBehind.Fits e.1 e.2) ∧
    galleryBehind.isDirectory "web" = true ∧
    (Site.templateDirs.flatMap (Config.standard.site.templateFiles galleryBehind)).map fileName? =
      ["big-card.stories.twig"].map some ∧
    (galleryBehind.makeDirectories Config.standard.site.storiesDir).1 = .ok () ∧
    Config.standard.site.templates galleryReady = .ok ["web/themes/big-card.stories.twig"] ∧
    galleryReady.LeadsTo Config.standard.site.storiesDir ["box", "storybook", "stories"] ∧
    galleryReady.entryAt? (["box", "storybook", "stories"] ++ ["big-card" ++ ".stories.json"]) ≠
      some .directory := by
  decide +kernel

/-- There is no file with a configuration. -/
theorem load_gallery : Config.load gallery "stories.toml" = .ok .standard :=
  Config.load_eq_ok_iff.mpr (Or.inl ⟨by decide +kernel, rfl⟩)

/-- The arguments ask for the two commands. -/
theorem arguments_gallery :
    Command.ofArguments ["generate-all-component-stories"] =
      .run ⟨"stories.toml", false, .allComponentTemplates false⟩ ∧
    Command.ofArguments ["generate-all-stories"] =
      .run ⟨"stories.toml", false, .allStoriesFiles false false false⟩ := by
  decide +kernel

/-- The command for all templates ends well. -/
theorem status_gallery (htree : gallery.IsTree) (htimely : gallery.Timely) :
    (session ["generate-all-stories"] galleryBehind).status = 0 := by
  obtain ⟨hfirst, hsecond⟩ := arguments_gallery
  obtain ⟨hmissing, -, -, -, hmade, htemplates, hplace⟩ := galleryBehind_facts
  have hmake : galleryBehind.makeDirectories Config.standard.site.storiesDir =
      (.ok (), galleryReady) := Prod.ext hmade rfl
  have hfault : pathFault? (join Config.standard.site.storiesDir ("big-card" ++ ".stories.json")) =
      none := by
    decide +kernel
  obtain ⟨r, log, hregistry, -⟩ := Config.standard.exists_registry_eq htree
  have hregistry := congrArg Prod.fst hregistry
  obtain ⟨x, hx, hname, -, hreport⟩ := exists_component_gallery hregistry
  have hascii : ∀ ch ∈ x.machineName.toList, ch.toNat < 128 := by
    rw [hname]
    decide
  rw [← hname] at hfault hplace
  have hload := Config.load_eq_ok_iff.mpr (Or.inl ⟨hmissing, rfl⟩)
  exact status_session_of_generated htree htimely rfl rfl hfirst load_gallery hsecond hload
    hregistry hx hreport hascii hmake htemplates hfault ⟨_, hplace⟩

/-- **The stories file of the component is made anew**, with the title and the
identifier of the component. -/
theorem exists_readText_session_gallery : gallery.IsTree ∧ gallery.Timely ∧
    (session ["generate-all-stories"] galleryBehind).status = 0 ∧
    ∃ text file, (session ["generate-all-stories"] galleryBehind).files.readText
        "web/../storybook/stories/big-card.stories.json" = .ok text ∧
      StoriesFile.parse? text = some file ∧ file.title = "Components/SDC/Card" ∧
      file.server.id = "big_card" := by
  have htree : gallery.IsTree := isTree_of_forall_items (by decide +kernel)
  have htimely : gallery.Timely := timely_of_forall_items (by decide +kernel)
  have hstatus := status_gallery htree htimely
  obtain ⟨hfirst, hsecond⟩ := arguments_gallery
  obtain ⟨-, hfits, hroot, hfound, -⟩ := galleryBehind_facts
  have horderly := @Site.orderly_of_found Config.standard.site Set.univ _
    (isTree_of_forall_items hfits) hroot _ hfound (fun _ _ => trivial) (by decide)
  obtain ⟨r, hr, hall⟩ := exists_readText_session htree htimely rfl rfl hfirst load_gallery hsecond
    load_gallery horderly.single hstatus
  obtain ⟨x, hx, hmachine, hname, hreport⟩ := exists_component_gallery hr
  obtain ⟨text, file, htext, hfile, htitle, hid⟩ := hall x hx hreport (by rw [hmachine]; decide)
  refine ⟨htree, htimely, hstatus, text, file, ?_, hfile, ?_, ?_⟩
  · rw [hmachine] at htext
    exact htext
  · rw [htitle, hname]
    decide
  · rw [hid, hmachine, ← String.toList_inj, String.toList_map]
    decide

end ComponentStories
