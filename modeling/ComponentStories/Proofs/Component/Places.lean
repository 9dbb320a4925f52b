import ComponentStories.Proofs.Component.Found
import ComponentStories.Proofs.FileSystem.Make

/-
# Where story templates go

The place of a template is the directory of its component and the machine name.  An identifier has
the same machine name in it, so components of different identifiers share a place only if two
directories of the configuration lead to it and name different providers for it (`Contested`).  That
can happen where one of these directories stands below the other.
-/

namespace ComponentStories

open ComponentStories.Path FileSystem

variable {fs : FileSystem} {root root' : String} {x y : Component} {l l' : Location}

/-! ## The place of a template -/

/-- Templates of different components have different names. -/
theorem FileName.template_injective : Function.Injective FileName.template := by
  intro m m' h
  have htext := congrArg String.toList h
  rw [toList_template, toList_template, List.append_left_inj] at htext
  exact String.toList_inj.mp htext

/-- **Templates have the same place** exactly if the components are found in the same directory and
have the same machine name. -/
theorem FileSystem.Finds.resolve_eq_iff (htree : fs.IsTree) (hx : fs.Finds root x l)
    (hy : fs.Finds root' y l') :
    fs.resolve .create x.templatePath = fs.resolve .create y.templatePath ↔
      l = l' ∧ x.machineName = y.machineName := by
  have hplace : ∀ {root c l}, fs.Finds root c l → fs.resolve .create c.templatePath =
      .ok (if fs.entryAt? (l ++ [FileName.template c.machineName]) = none then
        .free (l ++ [FileName.template c.machineName])
        else .taken (l ++ [FileName.template c.machineName])) :=
    fun h => htree.resolve_join h.leads h.isName h.path
  rw [hplace hx, hplace hy]
  constructor
  · intro h
    have heq : l ++ [FileName.template x.machineName] =
        l' ++ [FileName.template y.machineName] := by
      have hok := Except.ok.inj h
      split at hok <;> split at hok
      · exact Place.free.inj hok
      · exact absurd hok (by simp)
      · exact absurd hok (by simp)
      · exact Place.taken.inj hok
    exact (List.append_singleton_inj.mp heq).imp_right fun hname =>
      FileName.template_injective hname
  · rintro ⟨rfl, hname⟩
    rw [hname]

/-- Templates whose paths have the same parts have the same place. -/
theorem FileSystem.Finds.resolve_eq_of_parts (htree : fs.IsTree) (hx : fs.Finds root x l)
    (hy : fs.Finds root' y l') (h : parts x.templatePath = parts y.templatePath) :
    fs.resolve .create x.templatePath = fs.resolve .create y.templatePath := by
  obtain ⟨hdir, hname⟩ := hx.leads.eq_of_parts_join hy.leads hx.isName hy.isName h
  exact (hx.resolve_eq_iff htree hy).mpr ⟨hdir, FileName.template_injective hname⟩

theorem FileSystem.Finds.id_eq (hx : fs.Finds root x l) (hy : fs.Finds root y l)
    (hname : x.machineName = y.machineName) : x.id = y.id := by
  rw [hx.id, hy.id, hx.path_eq hy, hname]

/-- The path of a component that is found below a name that is joined to a path is that of
the names on the way down. -/
theorem FileSystem.Finds.exists_way {dir : String} (hdir : IsName dir)
    (h : fs.Finds (join root dir) x l) : ∃ d dirs, fs.LeadsTo root d ∧
      (∀ n ∈ dirs, IsName n) ∧ l = d ++ dir :: dirs ∧ x.path = (dir :: dirs).foldl join root := by
  obtain ⟨e, dirs, he, hdirs, rfl, hpath⟩ := h.way
  obtain ⟨d, hd, rfl⟩ := he.exists_of_join hdir
  refine ⟨d, dirs, hd, hdirs, List.append_cons d dir dirs |>.symm, ?_⟩
  have hparent := hpath _ h.isName
  have hbare := bare_foldl_join root (List.cons_ne_nil dir dirs)
    (List.forall_mem_cons.mpr ⟨hdir, hdirs⟩)
  rw [← List.foldl_cons, parent?_join_eq _ h.isName, hbare] at hparent
  exact Option.some.inj hparent.symm

/-- Below directories of different names in one directory nothing is found twice. -/
theorem FileSystem.Finds.name_eq {a b : String} (ha : IsName a) (hb : IsName b)
    (hx : fs.Finds (join root a) x l) (hy : fs.Finds (join root b) y l) : a = b := by
  obtain ⟨d, hd, hl⟩ := hx.exists_leadsTo
  obtain ⟨d', hd', hl'⟩ := hy.exists_leadsTo
  obtain ⟨e, he, rfl⟩ := hd.exists_of_join ha
  obtain ⟨e', he', rfl⟩ := hd'.exists_of_join hb
  obtain rfl := he.unique he'
  have hprefix : e ++ [a] <+: e ++ [b] := List.prefix_of_prefix_length_le hl hl' (by simp)
  have heq : e ++ [a] = e ++ [b] := hprefix.eq_of_length (by simp)
  simpa using heq

/-- **Registered components of the same place are the same**, if the directories of the
configuration are names. -/
theorem Config.eq_of_place {c : Config} {r : Registry} (hdirs : ∀ dir ∈ c.componentDirs, IsName dir)
    (hfound : ∀ x ∈ r.components, ∃ dir ∈ c.existingDirs fs, ∃ l, fs.Finds dir x l)
    (hx : x ∈ r.components) (hy : y ∈ r.components) (hxl : fs.Finds root x l)
    (hyl : fs.Finds root' y l) (hname : x.machineName = y.machineName) : x = y := by
  have hdir : ∀ {z : Component} {root}, z ∈ r.components → fs.Finds root z l →
      ∃ dir ∈ c.componentDirs, fs.Finds (join c.root dir) z l := by
    intro z root hz hzl
    obtain ⟨dir, hdir, l', hzl'⟩ := Config.exists_finds_join hfound z hz
    obtain rfl := hzl.leads.unique hzl'.leads
    exact ⟨dir, hdir, hzl'⟩
  obtain ⟨a, ha, hxa⟩ := hdir hx hxl
  obtain ⟨b, hb, hyb⟩ := hdir hy hyl
  obtain rfl := hxa.name_eq (hdirs a ha) (hdirs b hb) hyb
  exact Registry.eq_of_id_eq hx hy (hxa.id_eq hyb hname)

/-! ## Contested directories -/

/-- Two components of the same machine name that different paths find in the same directory,
but for different providers. -/
structure Contested (fs : FileSystem) (roots : List String) (x y : Component) : Prop where
  /-- The machine name is the same. -/
  name : x.machineName = y.machineName
  /-- Two paths find them. -/
  roots : ∃ root ∈ roots, ∃ root' ∈ roots, root ≠ root' ∧
    fs.provider root x.path ≠ fs.provider root' y.path ∧ ∃ l, fs.Finds root x l ∧ fs.Finds root' y l

/-- **Registered components of different identifiers share a place exactly if they are contested**:
every configuration has a registry, and of any two components in it whose identifiers are different
the templates go to the same place if and only if two directories of the configuration find them in
the same directory for different providers.  Else their paths differ, also in their parts. -/
theorem Config.resolve_eq_iff_contested (htree : fs.IsTree) (c : Config) :
    ∃ r, (c.registry fs).1 = .ok r ∧ ∀ x ∈ r.components, ∀ y ∈ r.components, x.id ≠ y.id →
      (fs.resolve .create x.templatePath = fs.resolve .create y.templatePath ↔
        Contested fs (c.existingDirs fs) x y) ∧
      (parts x.templatePath = parts y.templatePath → Contested fs (c.existingDirs fs) x y) := by
  obtain ⟨r, log, hr, hfound⟩ := c.exists_registry_eq htree
  refine ⟨r, congrArg Prod.fst hr, fun x hx y hy hid => ?_⟩
  obtain ⟨root, hroot, l, hx⟩ := hfound x hx
  obtain ⟨root', hroot', l', hy⟩ := hfound y hy
  have hcontested : fs.resolve .create x.templatePath = fs.resolve .create y.templatePath →
      Contested fs (c.existingDirs fs) x y := by
    intro hplace
    obtain ⟨rfl, hname⟩ := (hx.resolve_eq_iff htree hy).mp hplace
    refine ⟨hname, root, hroot, root', hroot', ?_, ?_, l, hx, hy⟩
    · rintro rfl
      exact hid (hx.id_eq hy hname)
    · intro hprovider
      exact hid (by rw [hx.id, hy.id, hprovider, hname])
  refine ⟨⟨hcontested, ?_⟩, fun h => hcontested (hx.resolve_eq_of_parts htree hy h)⟩
  rintro ⟨hname, _, -, _, -, -, -, _, hxm, hym⟩
  exact (hxm.resolve_eq_iff htree hym).mpr ⟨rfl, hname⟩

/-! ## A directory below another one -/

/-- A file system with one component below the directory `themes/x`. -/
def overlapping : FileSystem where
  items := [([], ⟨.directory, 0⟩), (["box"], ⟨.directory, 0⟩), (["box", "web"], ⟨.directory, 0⟩),
    (["box", "web", "themes"], ⟨.directory, 0⟩), (["box", "web", "themes", "x"], ⟨.directory, 0⟩),
    (["box", "web", "themes", "x", "card"], ⟨.directory, 0⟩),
    (["box", "web", "themes", "x", "card", "card.component.yml"],
      ⟨.file (.text "name: Card\n"), 0⟩)]
  working := ["box"]
  clock := 0

/-- The configuration that looks for components in `themes` and in `themes/x`. -/
def overlappingConfig : Config := { Config.standard with componentDirs := ["themes", "themes/x"] }

/-- The registry of this configuration has the component twice, with one path of a template. -/
theorem exists_registry_overlapping : ∃ r x y, (overlappingConfig.registry overlapping).1 = .ok r ∧
    x ∈ r.components ∧ y ∈ r.components ∧ x.id = "themes:card" ∧ y.id = "x:card" ∧
      x.templatePath = "web/themes/x/card/card.stories.twig" ∧ y.templatePath = x.templatePath := by
  have hpaths : (overlappingConfig.registry overlapping).1.toOption.map
      (fun r => r.components.map fun c => (c.id, c.templatePath)) =
        some [("themes:card", "web/themes/x/card/card.stories.twig"),
          ("x:card", "web/themes/x/card/card.stories.twig")] := by
    decide +kernel
  cases hregistry : (overlappingConfig.registry overlapping).1 with
  | error e =>
    rw [hregistry] at hpaths
    exact absurd hpaths (by simp [Except.toOption])
  | ok r =>
    rw [hregistry] at hpaths
    obtain ⟨x, rest, hcomponents, hx, hrest⟩ := List.map_eq_cons_iff.mp (Option.some.inj hpaths)
    obtain ⟨y, rest, rfl, hy, -⟩ := List.map_eq_cons_iff.mp hrest
    rw [Prod.mk.injEq] at hx hy
    exact ⟨r, x, y, rfl, by simp [hcomponents], by simp [hcomponents], hx.1, hy.1, hx.2,
      hy.2.trans hx.2.symm⟩

/-- The component is contested: for one directory it belongs to `themes`,
for the other one to `x`. -/
theorem resolve_eq_iff_contested_overlapping : overlapping.IsTree ∧
    ∃ r, (overlappingConfig.registry overlapping).1 = .ok r ∧ ∃ x ∈ r.components,
      ∃ y ∈ r.components, x.id ≠ y.id ∧
        Contested overlapping (overlappingConfig.existingDirs overlapping) x y := by
  have htree : overlapping.IsTree := isTree_of_forall_items (by decide +kernel)
  obtain ⟨r, x, y, hr, hx, hy, hxid, hyid, -, hpath⟩ := exists_registry_overlapping
  obtain ⟨r', hr', hiff⟩ := Config.resolve_eq_iff_contested htree overlappingConfig
  obtain rfl : r = r' := Except.ok.inj (hr.symm.trans hr')
  have hid : x.id ≠ y.id := by
    rw [hxid, hyid]
    decide
  refine ⟨htree, r, hr, x, hx, y, hy, hid, (hiff x hx y hy hid).1.mp ?_⟩
  rw [hpath]

/-- Its two identifiers are different and their destination is the same. -/
theorem not_templatePath_ne_overlapping : overlapping.IsTree ∧
    ∃ r, (overlappingConfig.registry overlapping).1 = .ok r ∧
      ¬ ∀ x ∈ r.components, ∀ y ∈ r.components, x.id ≠ y.id → x.templatePath ≠ y.templatePath := by
  obtain ⟨r, x, y, hr, hx, hy, hxid, hyid, -, hpath⟩ := exists_registry_overlapping
  refine ⟨isTree_of_forall_items (by decide +kernel), r, hr, fun hne => ?_⟩
  refine hne x hx y hy ?_ hpath.symm
  rw [hxid, hyid]
  decide

end ComponentStories
