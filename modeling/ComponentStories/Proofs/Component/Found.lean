import ComponentStories.Command.Run
import ComponentStories.Proofs.FileName
import ComponentStories.Proofs.FileSystem.Change
import ComponentStories.Proofs.FileSystem.Parts
import ComponentStories.Proofs.FileSystem.Walk
import ComponentStories.Proofs.Registry

/-
# Where components are found

In a directory tree a component that is found below a directory has the path of the directory that
its definition stands in, and a template can be written there: its name is not longer than that of
the definition (`FileSystem.Finds`).  The registry of a configuration holds nothing but components
that are found below one of its directories (`Config.exists_registry_eq`).
-/

namespace ComponentStories

open ComponentStories.Path

namespace FileSystem

/-! ## One component -/

/-- A component that is found below a path, in the directory at a location. -/
structure Finds (fs : FileSystem) (root : String) (c : Component) (l : Location) : Prop where
  /-- The directory lies below the path, and its own path is the one above what is in it. -/
  way : ∃ d dirs, fs.LeadsTo root d ∧ (∀ n ∈ dirs, IsName n) ∧ l = d ++ dirs ∧
    ∀ n, IsName n → parent? (join (dirs.foldl join root) n) = some c.path
  /-- The path of the component leads there. -/
  leads : fs.LeadsTo c.path l
  /-- The component is defined by a file in it. -/
  definition : ∃ name source time, FileName.Defines name c.machineName ∧
    fs.itemAt? (l ++ [name]) = some ⟨.file (.text source), time⟩ ∧
    Component.ofSource? source c.id c.machineName c.path = some c
  /-- Its provider is told by the path that is searched. -/
  id : c.id = fs.provider root c.path ++ ":" ++ c.machineName
  /-- A template can be written there. -/
  path : pathFault? c.templatePath = none

variable {fs : FileSystem} {root : String} {c c' : Component} {l : Location}

theorem Finds.isPlainTemplate (h : fs.Finds root c l) :
    FileName.IsPlainTemplate (FileName.template c.machineName) := by
  obtain ⟨name, -, -, hname, -⟩ := h.definition
  exact hname.isPlainTemplate

theorem Finds.isName (h : fs.Finds root c l) : IsName (FileName.template c.machineName) :=
  h.isPlainTemplate.isName

/-- Components that are found below the same path in the same directory have the same path. -/
theorem Finds.path_eq (h : fs.Finds root c l) (h' : fs.Finds root c' l) : c.path = c'.path := by
  obtain ⟨d, dirs, hd, -, rfl, hpath⟩ := h.way
  obtain ⟨d', dirs', hd', -, heq, hpath'⟩ := h'.way
  obtain rfl := hd.unique hd'
  obtain rfl := List.append_cancel_left heq
  have hname : IsName "a" := by decide
  have hc := hpath "a" hname
  have hc' := hpath' "a" hname
  exact Option.some.inj (hc.symm.trans hc')

theorem Finds.exists_leadsTo (h : fs.Finds root c l) : ∃ d, fs.LeadsTo root d ∧ d <+: l := by
  obtain ⟨d, dirs, hd, -, rfl, -⟩ := h.way
  exact ⟨d, hd, List.prefix_append _ _⟩

/-- What a component that is loaded has from its file. -/
theorem loadComponent_eq_ok_iff {path provider : String} :
    fs.loadComponent path provider = .ok c ↔ ∃ machineName source,
      FileName.machineName? path = some machineName ∧ fs.readText path = .ok source ∧
      Component.ofSource? source (provider ++ ":" ++ machineName) machineName
        ((parent? path).getD "") = some c := by
  rw [loadComponent]
  cases FileName.machineName? path with
  | none => simp
  | some machineName =>
    cases fs.readText path with
    | error e => simp
    | ok source =>
      cases h : Component.ofSource? source (provider ++ ":" ++ machineName) machineName
        ((parent? path).getD "") <;> simp [h]

theorem fields_of_ofSource? {source id machineName path : String}
    (h : Component.ofSource? source id machineName path = some c) :
    c.id = id ∧ c.machineName = machineName ∧ c.path = path := by
  obtain ⟨x, -, rfl⟩ := Option.map_eq_some_iff.mp h
  exact ⟨rfl, rfl, rfl⟩

/-- **A component that is loaded from a file below a directory is found there.** -/
theorem IsTree.exists_finds (htree : fs.IsTree) {p : String} (hp : p ∈ fs.componentFiles root)
    (hload : fs.loadComponent p (fs.provider root ((parent? p).getD root)) = .ok c) :
    ∃ l, fs.Finds root c l := by
  obtain ⟨hbelow, hform⟩ := List.mem_filter.mp hp
  obtain ⟨hroot, hfile, names, hne, hnames, rfl⟩ := htree.mem_filesBelow_iff.mp hbelow
  obtain ⟨-, d, hd⟩ := htree.isDirectory_iff.mp hroot
  obtain ⟨machineName, source, hmachine, hread, hsource⟩ := loadComponent_eq_ok_iff.mp hload
  obtain ⟨time, hitem⟩ := readText_eq_ok_iff.mp hread
  obtain ⟨hfault, hitem⟩ := (htree.item_foldl_join_eq_ok_iff hd hne hnames).mp hitem
  obtain ⟨dirs, name, rfl⟩ := (List.eq_nil_or_concat' names).resolve_left hne
  rw [List.forall_mem_append, List.forall_mem_singleton] at hnames
  obtain ⟨hdirs, hname⟩ := hnames
  rw [List.foldl_concat] at *
  rw [← List.append_assoc] at hitem
  have hdefines : FileName.Defines name machineName := by
    rw [fileName?_join _ hname] at hform
    rw [FileName.machineName?_join _ hname] at hmachine
    exact ⟨hname, hform, hmachine⟩
  -- the directory of the file is the one that its path leads to
  have hdirectory : fs.entryAt? (d ++ dirs) = some .directory := by
    refine htree.parent _ name ?_
    rw [entryAt?, hitem]
    exact Option.some_ne_none _
  obtain ⟨parent, hparent, hleads, -, -, hpath⟩ :=
    (htree.leadsTo_foldl_join hd hdirs hdirectory).exists_parent
  rw [hparent name hname, Option.getD_some, Option.getD_some] at hsource
  obtain ⟨hid, rfl, rfl⟩ := fields_of_ofSource? hsource
  refine ⟨d ++ dirs, ⟨d, dirs, hd, hdirs, rfl, hparent⟩, hleads, ?_, hid, ?_⟩
  · rw [← hid] at hsource
    exact ⟨name, source, time, hdefines, hitem, hsource⟩
  · have hnul : '\x00' ∉ name.toList := fun hmem =>
      (pathFault?_eq_none_iff.mp hfault).1 ((toList_end_join _ name).subset hmem)
    exact hpath name _ hname hdefines.isName_template (hdefines.nul_notMem_template hnul)
      hdefines.utf8ByteSize_template_le hfault

/-! ## All components of a directory -/

/-- What a file is loaded as in a search below a directory, if it is loaded. -/
def loaded? (fs : FileSystem) (root p : String) : Option Component :=
  (fs.loadComponent p (fs.provider root ((parent? p).getD root))).toOption

/-- A file is loaded as a component if that is what it defines for its provider. -/
theorem loaded?_eq_some_iff {p : String} : fs.loaded? root p = some c ↔
    fs.loadComponent p (fs.provider root ((parent? p).getD root)) = .ok c := by
  rw [loaded?]
  cases fs.loadComponent p (fs.provider root ((parent? p).getD root)) <;> simp [Except.toOption]

/-- A visit puts in what the file is loaded as, and counts it. -/
theorem foldl_visit (ps : List String) (found : Found) :
    (ps.foldl (Found.visit fs root) found).registry =
        (ps.filterMap (fs.loaded? root)).foldl Registry.insert found.registry ∧
      (ps.foldl (Found.visit fs root) found).count =
        found.count + (ps.filterMap (fs.loaded? root)).length := by
  induction ps generalizing found with
  | nil => exact ⟨rfl, rfl⟩
  | cons p ps ih =>
    obtain ⟨hregistry, hcount⟩ := ih (found.visit fs root p)
    rw [List.foldl_cons, hregistry, hcount]
    cases hload : fs.loadComponent p (fs.provider root ((parent? p).getD root)) with
    | error e =>
      have hnone : fs.loaded? root p = none := by rw [loaded?, hload]; rfl
      rw [Found.visit, hload, List.filterMap_cons_none hnone]
      exact ⟨rfl, rfl⟩
    | ok c =>
      have hsome : fs.loaded? root p = some c := by rw [loaded?, hload]; rfl
      rw [Found.visit, hload, List.filterMap_cons_some hsome, List.length_cons]
      refine ⟨rfl, ?_⟩
      dsimp only
      omega

/-- **A search below a directory puts in what is found there.** -/
theorem exists_scan_eq_ok (htree : fs.IsTree) (hroot : fs.isDirectory root = true) (r : Registry) :
    ∃ (found : Found) (cs : List Component), fs.scan root r = .ok found ∧
      found.registry = cs.foldl Registry.insert r ∧
      ∀ c ∈ cs, ∃ l, fs.Finds root c l := by
  refine ⟨_, (fs.componentFiles root).filterMap (fs.loaded? root), by rw [scan, if_pos hroot],
    (foldl_visit _ _).1, fun c hc => ?_⟩
  obtain ⟨p, hp, hload⟩ := List.mem_filterMap.mp hc
  exact htree.exists_finds hp (loaded?_eq_some_iff.mp hload)

end FileSystem

/-! ## The registry of a configuration -/

variable {fs : FileSystem}

/-- What is found below one of some directories is found below a path. -/
theorem Registry.exists_finds {r : Registry} {dirs : List String}
    (hfound : ∀ x ∈ r.components, ∃ dir ∈ dirs, ∃ l, fs.Finds dir x l) :
    ∀ x ∈ r.components, ∃ root l, fs.Finds root x l := by
  intro x hx
  obtain ⟨dir, -, h⟩ := hfound x hx
  exact ⟨dir, h⟩

/-- What is found below an existing directory of a configuration is found below the root joined
to one of its directories. -/
theorem Config.exists_finds_join {c : Config} {r : Registry}
    (hfound : ∀ x ∈ r.components, ∃ dir ∈ c.existingDirs fs, ∃ l, fs.Finds dir x l) :
    ∀ x ∈ r.components, ∃ dir ∈ c.componentDirs, ∃ l, fs.Finds (Path.join c.root dir) x l := by
  intro x hx
  obtain ⟨_, hexists, l, h⟩ := hfound x hx
  obtain ⟨dir, hdir, rfl⟩ := List.mem_map.mp (List.mem_filter.mp hexists).1
  exact ⟨dir, hdir, l, h⟩

/-- Searches below directories put in what is found below any of them. -/
theorem exists_collect_eq (htree : fs.IsTree) {dirs : List String}
    (hdirs : ∀ dir ∈ dirs, fs.isDirectory dir = true) (r : Registry) (log : List Record) :
    ∃ (cs : List Component) (told : List Record),
      collect fs dirs r log = (.ok (cs.foldl Registry.insert r), told) ∧
      ∀ x ∈ cs, ∃ dir ∈ dirs, ∃ l, fs.Finds dir x l := by
  induction dirs generalizing r log with
  | nil => exact ⟨[], log, rfl, List.forall_mem_nil _⟩
  | cons dir dirs ih =>
    obtain ⟨hdir, hdirs⟩ := List.forall_mem_cons.mp hdirs
    obtain ⟨found, cs, hscan, hcs, hfound⟩ := FileSystem.exists_scan_eq_ok htree hdir r
    rw [collect, hscan]
    obtain ⟨cs', told, hcollect, hfound'⟩ := ih hdirs found.registry
      (log ++ found.log ++
        [⟨.debug, "Loaded " ++ toString found.count ++ " components from " ++ dir⟩])
    refine ⟨cs ++ cs', told, ?_, ?_⟩
    · rw [List.foldl_append, ← hcs]
      exact hcollect
    · intro x hx
      rcases List.mem_append.mp hx with hx | hx
      · exact ⟨dir, List.mem_cons_self, hfound x hx⟩
      · obtain ⟨other, hother, h⟩ := hfound' x hx
        exact ⟨other, List.mem_cons_of_mem dir hother, h⟩

/-- **Every configuration has a registry**, and all components in it are found below directories of
the configuration that exist. -/
theorem Config.exists_registry_eq (htree : fs.IsTree) (c : Config) :
    ∃ r log, c.registry fs = (.ok r, log) ∧
      ∀ x ∈ r.components, ∃ dir ∈ c.existingDirs fs, ∃ l, fs.Finds dir x l := by
  have hdirs : ∀ dir ∈ c.existingDirs fs, fs.isDirectory dir = true :=
    fun dir hdir => (List.mem_filter.mp hdir).2
  obtain ⟨cs, told, hcollect, hfound⟩ := exists_collect_eq htree hdirs Registry.empty []
  have hregistry : (c.registry fs).1 = .ok (Registry.ofComponents cs) := by
    rw [Config.registry, hcollect]
    rfl
  exact ⟨Registry.ofComponents cs, (c.registry fs).2, Prod.ext hregistry rfl,
    fun x hx => hfound x (Registry.mem_of_mem_components hx)⟩

end ComponentStories
