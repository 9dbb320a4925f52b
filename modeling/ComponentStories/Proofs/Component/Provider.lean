import ComponentStories.Component.Load
import ComponentStories.FileSystem.Listing
import ComponentStories.Proofs.FileSystem.Added
import ComponentStories.Proofs.FileSystem.Walk
import Mathlib.Order.Lattice.Nat

/-
# Who provides a component

A component stands in a directory that names lead down to from the root of the search.  The deepest
directory on this way that holds a marker of its own name provides it.  Without such a directory it
is the one above the deepest directory `components`, and without such a directory the root
(`Provides`).  Nothing else in the file system matters (`provider_exact`).
-/

namespace ComponentStories.FileSystem

open ComponentStories.Path

variable {fs fs' : FileSystem} {root p : String} {dirs : List String} {d : Location}

/-! ## The order of precedence -/

/-- The path of the marker of a name in a directory on a way. -/
def markerPath (root : String) (dirs : List String) (k : Nat) (name : String) : String :=
  join (level root dirs k) (name ++ ".info.yml")

/-- A directory on a way that holds a marker of its own name. -/
def IsMarked (fs : FileSystem) (root : String) (dirs : List String) (k : Nat) : Prop :=
  ∃ name, ownName? root dirs k = some name ∧ fs.isFile (markerPath root dirs k name) = true

/-- A directory `components` on a way, in one that has a name. -/
def IsComponents (root : String) (dirs : List String) (k : Nat) : Prop :=
  ownName? root dirs k = some "components" ∧ nameAbove? root dirs k ≠ none

/-- Who provides a component at the end of a way. -/
structure Provides (fs : FileSystem) (root : String) (dirs : List String) (provider : String) :
    Prop where
  /-- The deepest marked directory, if there is one. -/
  marked : ∀ k, IsGreatest {k | fs.IsMarked root dirs k} k → ownName? root dirs k = some provider
  /-- Else the directory above the deepest directory `components`, if there is one. -/
  components : (∀ k, ¬ fs.IsMarked root dirs k) →
    ∀ k, IsGreatest {k | IsComponents root dirs k} k → nameAbove? root dirs k = some provider
  /-- Else the root, or `components` if it has no name. -/
  root : (∀ k, ¬ fs.IsMarked root dirs k) → (∀ k, ¬ IsComponents root dirs k) →
    provider = (fileName? root).getD "components"

/-- A deepest directory of a kind stands on the way if any does. -/
theorem exists_isGreatest {C : Nat → Prop}
    (hC : ∀ k, C k → ∃ name, ownName? root dirs k = some name)
    {k : Nat} (hk : C k) : ∃ m, IsGreatest {k | C k} m := by
  have hbound : BddAbove {k | C k} := by
    refine ⟨dirs.length, fun j hj => ?_⟩
    obtain ⟨name, hname⟩ := hC j hj
    exact le_of_ownName? hname
  exact ⟨sSup {k | C k}, Nat.sSup_mem ⟨k, hk⟩ hbound, fun j hj => le_csSup hbound hj⟩

/-- **The order of precedence leaves no choice**, and looks at nothing but the marks. -/
theorem Provides.eq {a b : String} (ha : fs.Provides root dirs a) (hb : fs'.Provides root dirs b)
    (hsame : ∀ k, fs'.IsMarked root dirs k ↔ fs.IsMarked root dirs k) : a = b := by
  by_cases hmarked : ∃ k, fs.IsMarked root dirs k
  · obtain ⟨k, hk⟩ := hmarked
    obtain ⟨m, hm⟩ := exists_isGreatest (fun k hk => hk.imp fun _ => And.left) hk
    have hm' : IsGreatest {k | fs'.IsMarked root dirs k} m := by simpa only [hsame] using hm
    exact Option.some.inj ((ha.marked m hm).symm.trans (hb.marked m hm'))
  have hnone : ∀ k, ¬ fs.IsMarked root dirs k := fun k hk => hmarked ⟨k, hk⟩
  have hnone' : ∀ k, ¬ fs'.IsMarked root dirs k := fun k hk => hnone k ((hsame k).mp hk)
  by_cases hcomponents : ∃ k, IsComponents root dirs k
  · obtain ⟨k, hk⟩ := hcomponents
    obtain ⟨m, hm⟩ := exists_isGreatest (fun k hk => ⟨_, hk.1⟩) hk
    exact Option.some.inj ((ha.components hnone m hm).symm.trans (hb.components hnone' m hm))
  · have hno : ∀ k, ¬ IsComponents root dirs k := fun k hk => hcomponents ⟨k, hk⟩
    rw [ha.root hnone hno, hb.root hnone' hno]

/-! ## The two searches -/

theorem markedName?_level (h : ∀ n ∈ dirs, IsName n) {k : Nat} (hk : k ≤ dirs.length)
    {name : String} :
    fs.markedName? (level root dirs k) = some name ↔
      ownName? root dirs k = some name ∧ fs.isFile (markerPath root dirs k name) = true := by
  rw [markedName?, fileName?_level h hk, Option.filter_eq_some_iff, markerPath]

/-- A directory on a way is marked if it is found by its marker. -/
theorem isMarked_iff (h : ∀ n ∈ dirs, IsName n) {k : Nat} :
    fs.IsMarked root dirs k ↔ k ≤ dirs.length ∧ fs.markedName? (level root dirs k) ≠ none := by
  rw [Option.ne_none_iff_exists', IsMarked]
  constructor
  · rintro ⟨name, hname, hfile⟩
    have hk := le_of_ownName? hname
    exact ⟨hk, name, (markedName?_level h hk).mpr ⟨hname, hfile⟩⟩
  · rintro ⟨hk, name, hname⟩
    exact ⟨name, (markedName?_level h hk).mp hname⟩

/-- A directory on a way is found as one above a directory `components`. -/
theorem nameAboveComponents?_level (h : ∀ n ∈ dirs, IsName n) {k : Nat} (hk : k ≤ dirs.length) :
    nameAboveComponents? (level root dirs k) =
      if ownName? root dirs k = some "components" then nameAbove? root dirs k else none := by
  rw [nameAboveComponents?, fileName?_level h hk, nameAbove?_level h hk]

/-- A directory `components` in one that has a name is found by this name. -/
theorem isComponents_iff (h : ∀ n ∈ dirs, IsName n) {k : Nat} : IsComponents root dirs k ↔
    k ≤ dirs.length ∧ nameAboveComponents? (level root dirs k) ≠ none := by
  rw [IsComponents]
  constructor
  · rintro ⟨hname, habove⟩
    have hk := le_of_ownName? hname
    rw [nameAboveComponents?_level h hk, if_pos hname]
    exact ⟨hk, habove⟩
  · rintro ⟨hk, hfound⟩
    rw [nameAboveComponents?_level h hk] at hfound
    split at hfound
    · exact ⟨‹_›, hfound⟩
    · exact absurd rfl hfound

/-- A search along a way finds what is found in the deepest directory that counts. -/
theorem findSome?_of_isGreatest (root : String) (f : String → Option String) {C : Nat → Prop}
    (hC : ∀ k, C k ↔ k ≤ dirs.length ∧ f (level root dirs k) ≠ none) :
    (∀ k, IsGreatest {k | C k} k → ∀ name, f (level root dirs k) = some name →
      ((List.range (dirs.length + 1)).map (level root dirs)).reverse.findSome? f = some name) ∧
    ((∀ k, ¬ C k) →
      ((List.range (dirs.length + 1)).map (level root dirs)).reverse.findSome? f = none) := by
  constructor
  · rintro k ⟨hk, hgreatest⟩ name hname
    refine (findSome?_levels root dirs _).mpr
      ⟨k, Nat.lt_succ_of_le ((hC k).mp hk).1, hname, fun j hj hkj => ?_⟩
    by_contra hfound
    have hjk : j ≤ k := hgreatest ((hC j).mpr ⟨Nat.le_of_lt_succ hj, hfound⟩)
    omega
  · intro hnone
    rw [List.findSome?_eq_none_iff]
    intro q hq
    obtain ⟨k, hk, rfl⟩ := List.mem_map.mp (List.mem_reverse.mp hq)
    by_contra hfound
    exact hnone k ((hC k).mpr ⟨Nat.le_of_lt_succ (List.mem_range.mp hk), hfound⟩)

/-- **The provider of a component at the end of a way** is told by the order of precedence. -/
theorem provides_provider (h : ∀ n ∈ dirs, IsName n) :
    fs.Provides root dirs (fs.provider root (bare (dirs.foldl join root))) := by
  obtain ⟨hmarked, hunmarked⟩ :=
    findSome?_of_isGreatest root fs.markedName? fun k => isMarked_iff h
  obtain ⟨hcomponents, hno⟩ :=
    findSome?_of_isGreatest root nameAboveComponents? fun k => isComponents_iff h
  rw [provider, ancestorsWithin_way root h]
  constructor
  · intro k hk
    obtain ⟨name, hname, hfile⟩ := hk.1
    rw [hmarked k hk name ((markedName?_level h (le_of_ownName? hname)).mpr ⟨hname, hfile⟩)]
    exact hname
  · intro hnone k hk
    obtain ⟨hname, habove⟩ := hk.1
    obtain ⟨name, hname'⟩ := Option.ne_none_iff_exists'.mp habove
    have hfound : nameAboveComponents? (level root dirs k) = some name := by
      rw [nameAboveComponents?_level h (le_of_ownName? hname), if_pos hname, hname']
    rw [hunmarked hnone, hcomponents k hk name hfound]
    exact hname'
  · intro hnone hnone'
    rw [hunmarked hnone, hno hnone']

/-! ## What stands in the directories -/

/-- Every directory on the way to a file is one. -/
theorem exists_locate_level {file : String} (hroot : root ≠ "") (h : Way root dirs file p)
    {purpose : Purpose} {place : Place} (hp : fs.resolve purpose p = .ok place) (k : Nat) :
    ∃ d, fs.locate (level root dirs k) = .ok d ∧ fs.entryAt? d = some .directory := by
  obtain ⟨hnamed, hfile, rfl⟩ := h
  have htake : ∀ n ∈ dirs.take k, IsName n := fun n hn => hnamed n (List.mem_of_mem_take hn)
  -- the level is the path above any name in it, so its text is at the front of the file's
  obtain ⟨parent, stays, hparent, hstem, -, hempty, -⟩ :=
    parent?_join ((dirs.take k).foldl join root)
  obtain ⟨n, rest, hrest⟩ := List.exists_cons_of_ne_nil (List.concat_ne_nil file (dirs.drop k))
  have hnames : ∀ m ∈ n :: rest, IsName m := by
    rw [← hrest]
    exact List.forall_mem_append.mpr ⟨fun m hm => hnamed m (List.mem_of_mem_drop hm),
      List.forall_mem_singleton.mpr hfile⟩
  obtain ⟨hn, hnames⟩ := List.forall_mem_cons.mp hnames
  obtain ⟨hlevel, hfront⟩ := hparent n hn
  rw [parent?_join_eq _ hn] at hlevel
  obtain rfl : level root dirs k = parent := Option.some.inj hlevel
  have hp' : join (dirs.foldl join root) file =
      rest.foldl join (join ((dirs.take k).foldl join root) n) := by
    rw [← List.foldl_cons, ← hrest, ← List.foldl_append, ← List.append_assoc,
      List.take_append_drop, List.foldl_concat]
  have hsplit : Text.splitAt '/' (join (dirs.foldl join root) file).toList =
      stem (level root dirs k) ++
        (stays ++ ((dirs.drop k).map String.toList ++ [file.toList])) := by
    have hdirs : dirs.map String.toList =
        (dirs.take k).map String.toList ++ (dirs.drop k).map String.toList := by
      rw [← List.map_append, List.take_append_drop]
    rw [splitAt_join _ hfile.isPiece, stem_foldl_join root hnamed, hdirs, ← List.append_assoc
      (stem (level root dirs k)), ← hstem, stem_foldl_join root htake]
    simp only [List.append_assoc]
  refine exists_locate_of_front _ (fun hnone => hroot ?_) ?_ hsplit (by simp) hp
  · have hroot' := toList_front_foldl_join root htake
    rw [hempty hnone] at hroot'
    exact String.toList_eq_nil_iff.mp (List.prefix_nil.mp hroot')
  · rw [hp']
    exact hfront.trans (toList_front_foldl_join _ hnames)

/-- A name that is joined to a path stands for a file if one has this name in the directory that the
path stands for, and no link does. -/
theorem isFile_join_iff {path name : String} (hpath : fs.locate path = .ok d)
    (hdir : fs.entryAt? d = some .directory) (hname : IsName name)
    (hfault : pathFault? (join path name) = none)
    (hlink : ∀ target, fs.entryAt? (d ++ [name]) ≠ some (.link target)) :
    fs.isFile (join path name) = true ↔
      ∃ content, fs.entryAt? (d ++ [name]) = some (.file content) := by
  rw [isFile_iff_standsFor]
  refine exists_congr fun content => ?_
  constructor
  · rintro ⟨l, hl, hfile⟩
    obtain ⟨rfl, -⟩ := (locate_join_eq_ok_iff hpath hdir hname hfault hlink).mp hl
    exact hfile
  · intro hfile
    exact ⟨d ++ [name], (locate_join_eq_ok_iff hpath hdir hname hfault hlink).mpr
      ⟨rfl, hfile.trans_ne (Option.some_ne_none _)⟩, hfile⟩

/-! ## Components that are found -/

/-- **The provider of a component is told by the order of precedence.**  Whatever file is found as a
definition below the root of a search, also over links: it stands in a directory that names lead
down to from the root.  The deepest directory on the way, the root among them, that holds a marker
of its own name provides the component; if there is none it is the directory above the deepest
directory `components` that stands in one with a name; and if there is none either, the root, or
`components` if it has no name.  A directory on the way holds a marker exactly if a file of that
name stands in it, unless the path is too long or a link has the name, which then counts if it leads
to a file.  So no other marker matters: any file system that agrees on the markers of own names on
the way has the same provider. -/
theorem provider_exact (hnamed : fs.Named) (hp : p ∈ fs.componentFiles root) :
    ∃ dirs file, Way root dirs file p ∧
      fs.Provides root dirs (fs.provider root ((parent? p).getD root)) ∧
      (∀ k, ∃ d, fs.locate (level root dirs k) = .ok d ∧ fs.entryAt? d = some .directory ∧
        ∀ marker, IsName marker → pathFault? (join (level root dirs k) marker) = none →
          (∀ target, fs.entryAt? (d ++ [marker]) ≠ some (.link target)) →
          (fs.isFile (join (level root dirs k) marker) = true ↔
            ∃ content, fs.entryAt? (d ++ [marker]) = some (.file content))) ∧
      ∀ fs' : FileSystem, (∀ k, fs'.IsMarked root dirs k ↔ fs.IsMarked root dirs k) →
        fs'.provider root ((parent? p).getD root) = fs.provider root ((parent? p).getD root) := by
  obtain ⟨hbelow, -⟩ := List.mem_filter.mp hp
  obtain ⟨hroot, hfile, dirs, file, hway⟩ := hnamed.exists_of_mem_filesBelow hbelow
  have hparent : (parent? p).getD root = bare (dirs.foldl join root) := by
    rw [hway.eq, parent?_join_eq _ hway.isName, Option.getD_some]
  have hprovides : ∀ fs' : FileSystem,
      fs'.Provides root dirs (fs'.provider root ((parent? p).getD root)) := by
    intro fs'
    rw [hparent]
    exact provides_provider hway.named
  refine ⟨dirs, file, hway, hprovides fs, fun k => ?_, fun fs' hsame => ?_⟩
  · obtain ⟨content, l, hl, -⟩ := isFile_iff_standsFor.mp hfile
    obtain ⟨d, hd, hdir⟩ := exists_locate_level hroot hway (locate_eq_ok_iff.mp hl) k
    exact ⟨d, hd, hdir, fun marker hmarker hfault => isFile_join_iff hd hdir hmarker hfault⟩
  · exact ((hprovides fs).eq (hprovides fs') hsame).symm

/-- A component in a marked extension, with a marker of another name beside it, one in a directory
that is reached over a link, and a marker outside of the directory that is searched. -/
def marked : FileSystem := FileSystem.ofItems [] [
  (["web"], ⟨.directory, 0⟩), (["web", "web.info.yml"], ⟨.file (.text ""), 0⟩),
  (["web", "modules"], ⟨.directory, 0⟩), (["web", "modules", "kit"], ⟨.link "../../srv", 0⟩),
  (["srv"], ⟨.directory, 0⟩), (["srv", "kit.info.yml"], ⟨.file (.text ""), 0⟩),
  (["srv", "components"], ⟨.directory, 0⟩),
  (["srv", "components", "other.info.yml"], ⟨.file (.text ""), 0⟩),
  (["srv", "components", "button.component.yml"], ⟨.file (.text ""), 0⟩)]

/-- The marked directory provides the component, though a directory `components` is nearer. -/
theorem provider_exact_marked :
    let p := "web/modules/kit/components/button.component.yml"
    marked.Named ∧ p ∈ marked.componentFiles "web/modules" ∧
      marked.IsMarked "web/modules" ["kit", "components"] 1 ∧
      IsComponents "web/modules" ["kit", "components"] 2 ∧
      marked.Provides "web/modules" ["kit", "components"] "kit" := by
  intro p
  have hnamed : marked.Named := named_of_forall_items (by decide +kernel)
  have hp : p ∈ marked.componentFiles "web/modules" := by decide +kernel
  obtain ⟨dirs, file, hway, hprovides, -, -⟩ := provider_exact hnamed hp
  obtain ⟨rfl, -⟩ := hway.unique
    (⟨by decide, by decide, rfl⟩ : Way "web/modules" ["kit", "components"] "button.component.yml" p)
  have hkit : marked.provider "web/modules" ((parent? p).getD "web/modules") = "kit" := by
    decide +kernel
  rw [hkit] at hprovides
  exact ⟨hnamed, hp, ⟨"kit", rfl, by decide +kernel⟩, ⟨rfl, by decide⟩, hprovides⟩

end ComponentStories.FileSystem
