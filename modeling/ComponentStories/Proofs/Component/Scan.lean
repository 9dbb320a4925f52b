import ComponentStories.Proofs.Component.Found
import ComponentStories.Proofs.FileSystem.Added
import ComponentStories.Proofs.FileSystem.Order
import ComponentStories.Proofs.Store.Independent
import Mathlib.Data.List.Pairwise
import Mathlib.Data.List.Perm.Basic

/-
# What a search puts into a registry

A search below a directory loads the files that are looked at as definitions, one after the other,
and puts in what it loads.  In a directory tree the files that are loaded do not depend on the order
in which directories tell what is in them.  If no two of them give the same identifier, neither does
the registry behind the search: it has each of the components that are loaded, and for every other
identifier what it had before (`search_exact`).  A file that is not loaded does not matter
(`AddsFile.search_eq`), unless it is the marker of an extension.
-/

namespace ComponentStories

open ComponentStories.Path

/-! ## Insertions of different identifiers -/

namespace Registry

variable {r : Registry} {cs cs' : List Component} {c d : Component} {id : String}

theorem insert_comm (h : c.id ≠ d.id) : (r.insert c).insert d = (r.insert d).insert c :=
  Registry.ext (putSorted_comm h.symm d c r.entries)

/-- **Components of different identifiers may be inserted in any order.** -/
theorem foldl_insert_perm (hperm : cs.Perm cs') (hids : (cs.map Component.id).Nodup) :
    cs.foldl insert r = cs'.foldl insert r := by
  refine hperm.foldl_eq' (fun c hc d hd s => ?_) r
  by_cases heq : c = d
  · rw [heq]
  · exact insert_comm fun hid => heq (List.inj_on_of_nodup_map hids hc hd hid)

/-- What is inserted is found, if nothing else is inserted in its place. -/
theorem find?_foldl_insert_of_mem (hids : (cs.map Component.id).Nodup) (hc : c ∈ cs) :
    (cs.foldl insert r).find? c.id = some c := by
  induction cs generalizing r with
  | nil => exact absurd hc List.not_mem_nil
  | cons d cs ih =>
    rw [List.map_cons, List.nodup_cons] at hids
    rcases List.mem_cons.mp hc with rfl | hc
    · have hothers : ∀ e ∈ cs, e.id ≠ c.id := fun e he heq => hids.1 (heq ▸ List.mem_map_of_mem he)
      rw [List.foldl_cons, find?_foldl_insert_of_ne hothers, find?_insert, if_pos rfl]
    · exact ih hids.2 hc

end Registry

namespace FileSystem

variable {fs fs' : FileSystem} {list list' : Location → List String} {dir p : String}
  {c : Component} {r : Registry}

/-! ## Files that are loaded -/

/-- A file below a directory that is looked at as a definition and loaded as a component. -/
structure Loads (fs : FileSystem) (dir p : String) (c : Component) : Prop where
  /-- The path leads down from the directory. -/
  below : ∃ names, names ≠ [] ∧ (∀ n ∈ names, IsName n) ∧ p = names.foldl join dir
  /-- The name is that of a definition. -/
  form : (fileName? p).any FileName.isComponent = true
  /-- The file is loaded. -/
  load : fs.loadComponent p (fs.provider dir ((parent? p).getD dir)) = .ok c

/-- The identifier of a component that is loaded is made of its provider
and the stem of the file. -/
theorem Loads.exists_id_eq (h : fs.Loads dir p c) : ∃ stem, FileName.machineName? p = some stem ∧
    c.id = fs.provider dir ((parent? p).getD dir) ++ ":" ++ stem := by
  obtain ⟨stem, source, hstem, -, hsource⟩ := loadComponent_eq_ok_iff.mp h.load
  exact ⟨stem, hstem, (fields_of_ofSource? hsource).1⟩

/-- No two files below a directory are loaded for the same identifier. -/
def Distinct (fs : FileSystem) (dir : String) : Prop :=
  ∀ p q c d, fs.Loads dir p c → fs.Loads dir q d → c.id = d.id → p = q

/-! ## The search -/

/-- The paths of the files below a directory that are looked at as definitions, when every
directory is told in some order. -/
def componentFilesIn (fs : FileSystem) (list : Location → List String) (dir : String) :
    List String :=
  (fs.filesBelowIn list dir).filter fun path => (fileName? path).any FileName.isComponent

/-- A search below a directory, when every directory is told in some order. -/
def scanIn (fs : FileSystem) (list : Location → List String) (dir : String) (r : Registry) :
    Except LoadError Found :=
  if fs.isDirectory dir then
    .ok ((fs.componentFilesIn list dir).foldl (Found.visit fs dir) ⟨r, 0, []⟩)
  else .error (.directoryNotFound dir)

theorem scanIn_children : fs.scanIn fs.children = fs.scan := by
  funext dir r
  rw [scanIn, scan, componentFilesIn, componentFiles, filesBelowIn_children]

/-- What a search tells, the number of components or why there is none,
and the registry behind it. -/
def search (fs : FileSystem) (list : Location → List String) (dir : String) (r : Registry) :
    Except LoadError Nat × Registry :=
  match fs.scanIn list dir r with
  | .ok found => (.ok found.count, found.registry)
  | .error e => (.error e, r)

/-- The components that a search loads. -/
def loadedIn (fs : FileSystem) (list : Location → List String) (dir : String) : List Component :=
  (fs.componentFilesIn list dir).filterMap (fs.loaded? dir)

/-- A search puts in what is loaded, and counts it. -/
theorem search_eq (hdir : fs.isDirectory dir = true) : fs.search list dir r =
    (.ok (fs.loadedIn list dir).length, (fs.loadedIn list dir).foldl Registry.insert r) := by
  obtain ⟨hregistry, hcount⟩ :=
    foldl_visit (fs.componentFilesIn list dir) ⟨r, 0, []⟩
  rw [search, scanIn, if_pos hdir]
  dsimp only
  rw [hregistry, hcount, Nat.zero_add]
  rfl

theorem search_of_not_isDirectory (hdir : fs.isDirectory dir = false) :
    fs.search list dir r = (.error (.directoryNotFound dir), r) := by
  rw [search, scanIn, hdir]
  rfl

/-- The files that are loaded are those that the search passes and loads. -/
theorem IsTree.loads_iff (htree : fs.IsTree) (h : fs.Enumerates list)
    (hdir : fs.isDirectory dir = true) :
    fs.Loads dir p c ↔ p ∈ fs.componentFilesIn list dir ∧ fs.loaded? dir p = some c := by
  rw [componentFilesIn, List.mem_filter, h.mem_filesBelowIn_iff, htree.mem_filesBelow_iff,
    loaded?_eq_some_iff]
  constructor
  · rintro ⟨hbelow, hform, hload⟩
    obtain ⟨-, source, -, hread, -⟩ := loadComponent_eq_ok_iff.mp hload
    obtain ⟨time, hitem⟩ := readText_eq_ok_iff.mp hread
    exact ⟨⟨⟨hdir, isFile_iff.mpr ⟨_, time, hitem⟩, hbelow⟩, hform⟩, hload⟩
  · rintro ⟨⟨⟨-, -, hbelow⟩, hform⟩, hload⟩
    exact ⟨hbelow, hform, hload⟩

/-- The components that a search loads are those of the files that are loaded. -/
theorem IsTree.mem_loadedIn_iff (htree : fs.IsTree) (h : fs.Enumerates list)
    (hdir : fs.isDirectory dir = true) : c ∈ fs.loadedIn list dir ↔ ∃ p, fs.Loads dir p c := by
  rw [loadedIn, List.mem_filterMap]
  exact exists_congr fun p => (htree.loads_iff h hdir).symm

/-- No two files are loaded for the same identifier if the components that are loaded have different
ones, and the other way round. -/
theorem IsTree.distinct_iff (htree : fs.IsTree) (h : fs.Enumerates list)
    (hdir : fs.isDirectory dir = true) :
    fs.Distinct dir ↔ ((fs.loadedIn list dir).map Component.id).Nodup := by
  have hfiles : (fs.componentFilesIn list dir).Nodup := (htree.nodup_filesBelowIn h).filter _
  have hloads : ∀ {p c}, fs.Loads dir p c ↔
      p ∈ fs.componentFilesIn list dir ∧ fs.loaded? dir p = some c := htree.loads_iff h hdir
  rw [loadedIn, List.map_filterMap, List.Nodup, List.pairwise_filterMap]
  constructor
  · intro hdistinct
    refine hfiles.imp_of_mem fun {p q} hp hq hne id hid id' hid' heq => hne ?_
    obtain ⟨c, hc, rfl⟩ := Option.map_eq_some_iff.mp hid
    obtain ⟨d, hd, rfl⟩ := Option.map_eq_some_iff.mp hid'
    exact hdistinct p q c d (hloads.mpr ⟨hp, hc⟩) (hloads.mpr ⟨hq, hd⟩) heq
  · intro hpairs p q c d hp hq heq
    obtain ⟨hpmem, hc⟩ := hloads.mp hp
    obtain ⟨hqmem, hd⟩ := hloads.mp hq
    have hsymm : Std.Symm fun p q : String => ∀ id, (fs.loaded? dir p).map Component.id = some id →
        ∀ id', (fs.loaded? dir q).map Component.id = some id' → id ≠ id' :=
      ⟨fun p q hpq id hid id' hid' => (hpq id' hid' id hid).symm⟩
    by_contra hne
    exact hpairs.forall hpmem hqmem hne c.id (by rw [hc]; rfl) d.id (by rw [hd]; rfl) heq

/-- **What a search does is settled by the files that are loaded.** -/
theorem IsTree.search_congr (htree : fs.IsTree) (htree' : fs'.IsTree) (h : fs.Enumerates list)
    (h' : fs'.Enumerates list') (hdir : fs'.isDirectory dir = fs.isDirectory dir)
    (hdistinct : fs.Distinct dir) (hloads : ∀ p c, fs'.Loads dir p c ↔ fs.Loads dir p c) :
    fs'.search list' dir r = fs.search list dir r := by
  by_cases hthere : fs.isDirectory dir = true
  · have hthere' := hdir.trans hthere
    have hdistinct' : fs'.Distinct dir := fun p q c d hp hq =>
      hdistinct p q c d ((hloads p c).mp hp) ((hloads q d).mp hq)
    have hids := (htree.distinct_iff h hthere).mp hdistinct
    have hids' := (htree'.distinct_iff h' hthere').mp hdistinct'
    have hperm : (fs'.loadedIn list' dir).Perm (fs.loadedIn list dir) := by
      refine (List.perm_ext_iff_of_nodup hids'.of_map hids.of_map).mpr fun c => ?_
      rw [htree.mem_loadedIn_iff h hthere, htree'.mem_loadedIn_iff h' hthere']
      exact exists_congr fun p => hloads p c
    rw [search_eq hthere, search_eq hthere', hperm.length_eq,
      Registry.foldl_insert_perm hperm hids']
  · have hnot : fs.isDirectory dir = false := Bool.eq_false_iff.mpr hthere
    rw [search_of_not_isDirectory hnot, search_of_not_isDirectory (hdir.trans hnot)]

/-! ## Files that are not loaded -/

/-- Where the marker of an extension stands: in a directory of its name. -/
def IsMarker (l : Location) : Prop := ∃ d n, l = d ++ [n, n ++ ".info.yml"]

variable {l : Location}

/-- What stands in a directory is a marker if it has the name of the
directory in front of the suffix. -/
theorem isMarker_iff {d : Location} {n m : String} :
    IsMarker (d ++ [n, m]) ↔ m = n ++ ".info.yml" := by
  constructor
  · rintro ⟨d', n', heq⟩
    obtain ⟨-, hends⟩ := List.append_inj' heq rfl
    obtain ⟨rfl, hm⟩ := List.cons.inj hends
    exact (List.cons.inj hm).1
  · rintro rfl
    exact ⟨d, n, rfl⟩

/-- A directory is marked as before if the file that is added is no marker. -/
theorem AddsFile.markedName?_eq (h : AddsFile fs fs' l) (htree : fs.IsTree) (htree' : fs'.IsTree)
    (hmarker : ¬ IsMarker l) : fs'.markedName? = fs.markedName? := by
  funext path
  rw [markedName?, markedName?]
  cases hname : fileName? path with
  | none => rfl
  | some name =>
    have hslash : '/' ∉ (name ++ ".info.yml").toList := by
      rw [String.toList_append, List.mem_append, not_or]
      exact ⟨(of_fileName? hname).2, by decide⟩
    have hlength : 2 < (name ++ ".info.yml").length := by
      rw [String.length_append, show ".info.yml".length = 9 from rfl]
      omega
    obtain ⟨hpiece, hstay, hup⟩ := isPiece_of_length hlength hslash
    have hfile : fs'.isFile (join path (name ++ ".info.yml")) =
        fs.isFile (join path (name ++ ".info.yml")) := by
      refine h.isFile_eq htree htree' fun hlocate => hmarker ?_
      obtain ⟨d, hd⟩ := htree'.exists_of_locate_join hname hpiece hstay hup hlocate
      exact ⟨d, name, hd⟩
    rw [Option.filter_some, Option.filter_some, hfile]

/-- The provider of a component is as before if the file that is added is no marker. -/
theorem AddsFile.provider_eq (h : AddsFile fs fs' l) (htree : fs.IsTree) (htree' : fs'.IsTree)
    (hmarker : ¬ IsMarker l) : fs'.provider = fs.provider := by
  funext root dir
  rw [provider, provider, h.markedName?_eq htree htree' hmarker]

/-- **The same files are loaded** if the file that is added is not loaded and no marker. -/
theorem AddsFile.loads_iff (h : AddsFile fs fs' l) (htree : fs.IsTree) (htree' : fs'.IsTree)
    (hmarker : ¬ IsMarker l) (hnot : ∀ p c, fs'.Loads dir p c → fs'.locate p ≠ .ok l) :
    fs'.Loads dir p c ↔ fs.Loads dir p c := by
  have hprovider := h.provider_eq htree htree' hmarker
  have hload : fs'.locate p ≠ .ok l → ∀ provider,
      (fs'.loadComponent p provider = .ok c ↔ fs.loadComponent p provider = .ok c) := by
    intro hne provider
    simp only [loadComponent_eq_ok_iff, h.readText_eq_ok_iff htree htree' hne]
  constructor
  · intro hloads
    refine ⟨hloads.below, hloads.form, ?_⟩
    rw [← hload (hnot p c hloads), ← hprovider]
    exact hloads.load
  · intro hloads
    refine ⟨hloads.below, hloads.form, ?_⟩
    -- where something stands before, the new file does not
    have hne : fs'.locate p ≠ .ok l := by
      obtain ⟨-, source, -, hread, -⟩ := loadComponent_eq_ok_iff.mp hloads.load
      obtain ⟨m, hm⟩ := readText_eq_ok_iff_standsFor.mp hread
      have hml : m ≠ l := by
        rintro rfl
        exact absurd (h.free.symm.trans hm.2) (by simp)
      rw [((h.standsFor_iff htree htree' hml).mpr hm).1]
      exact fun heq => hml (Except.ok.inj heq)
    rw [hload hne, hprovider]
    exact hloads.load

/-- **A search does not see a file that is not loaded and no marker.** -/
theorem AddsFile.search_eq (h : AddsFile fs fs' l) (htree : fs.IsTree) (htree' : fs'.IsTree)
    (hmarker : ¬ IsMarker l) (hnot : ∀ p c, fs'.Loads dir p c → fs'.locate p ≠ .ok l)
    (hlist : fs.Enumerates list) (hlist' : fs'.Enumerates list') (hdistinct : fs.Distinct dir) :
    fs'.search list' dir r = fs.search list dir r :=
  htree.search_congr htree' hlist hlist' (h.isDirectory_eq htree htree' dir) hdistinct
    fun _ _ => h.loads_iff htree htree' hmarker hnot

/-! ## What is found -/

/-- **A search finds exactly what is loaded**, whatever the order in which directories tell what is
in them.  In a directory tree in which no two files below a directory are loaded for the same
identifier, every search below it gives the same number and leaves the same registry.  The number is
that of the files that are loaded.  Each of them is found behind it under its provider and its stem;
every other identifier has what it had before, and no more identifiers are there.  So it stays when
a file that is not loaded, and is no marker, is added or taken away.  Below a directory that is
missing nothing is found, and the registry is left alone. -/
theorem search_exact (htree : fs.IsTree) (hdir : fs.isDirectory dir = true)
    (hdistinct : fs.Distinct dir) (r : Registry) : ∃ n behind,
      (∀ list, fs.Enumerates list → fs.search list dir r = (.ok n, behind)) ∧
      (fs.scan dir r).map (fun found => (found.count, found.registry)) = .ok (n, behind) ∧
      (∃ files : List String, files.Nodup ∧ (∀ p, p ∈ files ↔ ∃ c, fs.Loads dir p c) ∧
        n = files.length) ∧
      (∀ p c, fs.Loads dir p c → behind.find? c.id = some c ∧
        ∃ stem, FileName.machineName? p = some stem ∧
          c.id = fs.provider dir ((parent? p).getD dir) ++ ":" ++ stem) ∧
      (∀ id, (∀ p c, fs.Loads dir p c → c.id ≠ id) → behind.find? id = r.find? id) ∧
      (∀ id, id ∈ behind.ids ↔ id ∈ r.ids ∨ ∃ p c, fs.Loads dir p c ∧ c.id = id) ∧
      (∀ fs' l list', fs'.IsTree → fs'.Enumerates list' → ¬ IsMarker l →
        (AddsFile fs fs' l ∧ (∀ p c, fs'.Loads dir p c → fs'.locate p ≠ .ok l) ∨
          AddsFile fs' fs l ∧ ∀ p c, fs.Loads dir p c → fs.locate p ≠ .ok l) →
        fs'.search list' dir r = (.ok n, behind)) ∧
      ∀ list missing, fs.isDirectory missing = false →
        fs.search list missing r = (.error (.directoryNotFound missing), r) := by
  obtain ⟨list, hlist⟩ : ∃ list, fs.Enumerates list := ⟨_, fs.enumerates_children⟩
  have hids := (htree.distinct_iff hlist hdir).mp hdistinct
  have hmem : ∀ {c}, c ∈ fs.loadedIn list dir ↔ ∃ p, fs.Loads dir p c :=
    htree.mem_loadedIn_iff hlist hdir
  have hsearch : ∀ {list'}, fs.Enumerates list' → fs.search list' dir r =
      (.ok (fs.loadedIn list dir).length, (fs.loadedIn list dir).foldl Registry.insert r) :=
    fun hlist' => (htree.search_congr htree hlist hlist' rfl hdistinct fun _ _ => Iff.rfl).trans
      (search_eq hdir)
  refine ⟨_, _, fun list' => hsearch, ?_, ?_, fun p c h => ⟨?_, h.exists_id_eq⟩,
    fun id hne => ?_, fun id => ?_, ?_, fun list missing => search_of_not_isDirectory⟩
  · have hscan := hsearch fs.enumerates_children
    rw [search, scanIn_children, scan, if_pos hdir] at hscan
    rw [scan, if_pos hdir]
    obtain ⟨hcount, hregistry⟩ := Prod.mk.inj hscan
    exact congrArg Except.ok (Prod.ext (Except.ok.inj hcount) hregistry)
  · refine ⟨(fs.componentFilesIn list dir).filter fun p => (fs.loaded? dir p).isSome,
      ((htree.nodup_filesBelowIn hlist).filter _).filter _, fun p => ?_, ?_⟩
    · rw [List.mem_filter, Option.isSome_iff_exists, ← exists_and_left]
      exact exists_congr fun c => (htree.loads_iff hlist hdir).symm
    · rw [loadedIn, List.length_filterMap_eq_countP, List.countP_eq_length_filter]
  · exact Registry.find?_foldl_insert_of_mem hids (hmem.mpr ⟨p, h⟩)
  · refine Registry.find?_foldl_insert_of_ne fun c hc => ?_
    obtain ⟨p, hp⟩ := hmem.mp hc
    exact hne p c hp
  · rw [Registry.mem_ids_foldl_insert]
    refine or_congr Iff.rfl ?_
    simp only [hmem, ← exists_and_right]
    exact exists_comm
  · rintro fs' l list' htree' hlist' hmarker (⟨hadds, hnot⟩ | ⟨hadds, hnot⟩)
    · rw [hadds.search_eq htree htree' hmarker hnot hlist hlist' hdistinct, hsearch hlist]
    · have hdistinct' : fs'.Distinct dir := fun p q c d hp hq =>
        hdistinct p q c d ((hadds.loads_iff htree' htree hmarker hnot).mpr hp)
          ((hadds.loads_iff htree' htree hmarker hnot).mpr hq)
      rw [← hadds.search_eq htree' htree hmarker hnot hlist' hlist hdistinct', hsearch hlist]

/-- A directory with two components, one of them of a marked extension, and
a file that is not loaded. -/
def kit : FileSystem where
  items := [([], ⟨.directory, 0⟩), (["box"], ⟨.directory, 0⟩), (["box", "ui"], ⟨.directory, 0⟩),
    (["box", "ui", "card"], ⟨.directory, 0⟩),
    (["box", "ui", "card", "broken.component.yml"], ⟨.file (.text "name: ["), 0⟩),
    (["box", "ui", "card", "card.component.yml"], ⟨.file (.text "name: Card\n"), 0⟩),
    (["box", "ui", "kit"], ⟨.directory, 0⟩),
    (["box", "ui", "kit", "Link.Component.YML"], ⟨.file (.text "name: Link\n"), 0⟩),
    (["box", "ui", "kit", "kit.info.yml"], ⟨.file (.text ""), 0⟩)]
  working := ["box"]
  clock := 0

/-- A registry with an older component of one of their identifiers, and another one. -/
def olderKit : Registry :=
  Registry.ofComponents
    [.bare "ui:card" "Older" "card" "older", .bare "older:menu" "Menu" "menu" "older"]

/-- Told from the end, the directories give both components, and the other one is kept; a definition
that cannot be understood changes nothing when it is added. -/
theorem search_exact_kit : kit.IsTree ∧ kit.isDirectory "ui" = true ∧ kit.Distinct "ui" ∧
    ∃ behind, kit.search (fun l => (kit.children l).reverse) "ui" olderKit = (.ok 2, behind) ∧
      behind.ids = ["kit:Link", "older:menu", "ui:card"] ∧
      (behind.find? "ui:card").map Component.name = some "Card" ∧
      behind.find? "older:menu" = olderKit.find? "older:menu" ∧
      let fs' := kit.change ["box", "ui", "card", "note.component.yml"] (.file (.text "]"))
      fs'.search fs'.children "ui" olderKit = (.ok 2, behind) := by
  have htree : kit.IsTree := isTree_of_forall_items (by decide +kernel)
  have hdir : kit.isDirectory "ui" = true := by decide +kernel
  have hchildren : kit.Enumerates kit.children := kit.enumerates_children
  have hloaded : (kit.loadedIn kit.children "ui").map Component.id = ["ui:card", "kit:Link"] := by
    decide +kernel
  have hdistinct : kit.Distinct "ui" := by
    rw [htree.distinct_iff hchildren hdir, hloaded]
    decide
  obtain ⟨n, behind, hsearch, -, -, -, hother, -, hadded, -⟩ :=
    search_exact htree hdir hdistinct olderKit
  have hreversed := hsearch _ (hchildren.of_perm fun l => (kit.children l).reverse_perm)
  -- the search is run once, for all that is told of it
  have hrun : (fun found : Except LoadError Nat × Registry =>
      (found.1, found.2.ids, (found.2.find? "ui:card").map Component.name))
        (kit.search (fun l => (kit.children l).reverse) "ui" olderKit) =
      (.ok 2, ["kit:Link", "older:menu", "ui:card"], some "Card") := by decide +kernel
  rw [hreversed] at hrun
  simp only [Prod.mk.injEq] at hrun
  obtain ⟨hcount, hids, hcard⟩ := hrun
  obtain rfl : n = 2 := Except.ok.inj hcount
  refine ⟨htree, hdir, hdistinct, behind, hreversed, hids, hcard, hother _ fun p c hloads => ?_, ?_⟩
  · have hmem : c.id ∈ ["ui:card", "kit:Link"] := by
      rw [← hloaded]
      exact List.mem_map_of_mem ((htree.mem_loadedIn_iff hchildren hdir).mpr ⟨p, hloads⟩)
    intro hid
    rw [hid] at hmem
    exact absurd hmem (by decide)
  · intro fs'
    have htree' : fs'.IsTree := isTree_of_forall_items (by decide +kernel)
    have hchildren' : fs'.Enumerates fs'.children := fs'.enumerates_children
    have hmarker : ¬ IsMarker (["box", "ui"] ++ ["card", "note.component.yml"]) :=
      isMarker_iff.not.mpr (by decide)
    refine hadded fs' _ fs'.children htree' hchildren' hmarker
      (Or.inl ⟨addsFile_change (by decide +kernel) _, fun p c hloads => ?_⟩)
    have hall : ∀ p ∈ fs'.componentFilesIn fs'.children "ui", (fs'.loaded? "ui" p).isSome = true →
        fs'.locate p ≠ .ok ["box", "ui", "card", "note.component.yml"] := by decide +kernel
    obtain ⟨hp, hsome⟩ := (htree'.loads_iff hchildren' (by decide +kernel)).mp hloads
    exact hall p hp (by rw [hsome]; rfl)

end FileSystem

end ComponentStories
