import ComponentStories.Proofs.FileSystem.Ancestors
import ComponentStories.Proofs.FileSystem.Change

/-
# Directories that are made

A directory that names below an existing one lead to is made with those above it that are missing.
If that succeeds the names lead there, and nothing is different but on the way down
(`makeDirectories_foldl_join`).
-/

namespace ComponentStories.FileSystem

open ComponentStories.Path

variable {fs fs' : FileSystem} {path n : String} {l d : Location}

/-! ## Up and down -/

/-- The directory above is reached from a path by one more piece. -/
theorem IsTree.leadsTo_up (htree : fs.IsTree) (h : fs.LeadsTo path d) :
    fs.LeadsTo (join path "..") d.dropLast := by
  have habove : fs.entryAt? d.dropLast = some .directory := by
    rcases List.eq_nil_or_concat' d with rfl | ⟨above, name, rfl⟩
    · exact h.directory_right
    · rw [List.dropLast_concat]
      exact htree.parent _ _ (h.directory_right.trans_ne (Option.some_ne_none _))
  rw [leadsTo_iff_leads_stem, stem_join path isPiece_up, List.map_append, leads_append, start,
    isAbsolute_join path isPiece_up]
  exact ⟨d, leadsTo_iff_leads_stem.mp h, h.directory_right, habove, rfl⟩

/-- A name that is joined to a path leads into the directory that the path leads to. -/
theorem LeadsTo.exists_of_join (hn : IsName n) (h : fs.LeadsTo (join path n) d) :
    ∃ e, fs.LeadsTo path e ∧ d = e ++ [n] := by
  rw [leadsTo_iff_leads_stem, stem_join path hn.isPiece, List.map_append, leads_append, start,
    isAbsolute_join path hn.isPiece] at h
  obtain ⟨e, he, hlast⟩ := h
  rw [List.map_singleton, String.ofList_toList, leads_singleton hn] at hlast
  exact ⟨e, leadsTo_iff_leads_stem.mpr he, hlast.2.2⟩

/-! ## One directory -/

/-- A directory is made at a name in a directory that nothing stands at. -/
theorem IsTree.makeDirectory_join (htree : fs.IsTree) (h : fs.LeadsTo path d) (hn : IsName n)
    (hfault : pathFault? (join path n) = none) : fs.makeDirectory (join path n) =
      if fs.entryAt? (d ++ [n]) = none then .ok (fs.change (d ++ [n]) .directory)
      else .error .alreadyExists := by
  rw [makeDirectory, withoutEndSlashes_join path hn, htree.resolve_join h hn hfault]
  by_cases hnone : fs.entryAt? (d ++ [n]) = none
  · rw [if_pos hnone, if_pos hnone]
  · rw [if_neg hnone, if_neg hnone]

/-- A directory is made, or it was there already. -/
def Made (fs : FileSystem) (path : String) (fs' : FileSystem) : Prop :=
  fs.makeDirectory path = .ok fs' ∨ fs' = fs ∧ fs.isDirectory path = true

/-- **One directory more is the only thing that is different** but for the
time of the one it stands in. -/
theorem IsTree.leadsTo_of_made (htree : fs.IsTree) (h : fs.LeadsTo path d) (hn : IsName n)
    (hfault : pathFault? (join path n) = none) (hmade : fs.Made (join path n) fs') :
    fs'.LeadsTo (join path n) (d ++ [n]) ∧
      ∀ l, ¬ l <+: d ++ [n] → fs'.itemAt? l = fs.itemAt? l := by
  rcases hmade with hmake | ⟨rfl, hdirectory⟩
  · have hkeeps := htree.keeps_makeDirectory hmake []
    rw [htree.makeDirectory_join h hn hfault] at hmake
    split at hmake
    · obtain rfl := Except.ok.inj hmake
      refine ⟨hkeeps.tree.leadsTo_join (hkeeps.leadsTo h) hn ?_, fun l hl => ?_⟩
      · exact entryAt?_change_self _ _ _
      refine itemAt?_change_of_ne _ ?_ fun _ => ?_
      · rintro rfl
        exact hl (List.prefix_refl _)
      · rw [List.dropLast_concat]
        rintro rfl
        exact hl (List.prefix_append _ _)
    · exact absurd hmake (by simp)
  · obtain ⟨-, e, he⟩ := htree.isDirectory_iff.mp hdirectory
    obtain ⟨d', hd', rfl⟩ := he.exists_of_join hn
    obtain rfl := h.unique hd'
    exact ⟨he, fun _ _ => rfl⟩

/-! ## All directories on the way -/

/-- A path is a directory when those above it have been made, unless there is none
above it that is missing. -/
theorem made_of_makeDirectoriesOf {above : List String} (hne : path ≠ "")
    (h : fs.makeDirectoriesOf (path :: above) = (.ok (), fs')) :
    fs.Made path fs' ∨ fs.makeDirectory path = .error .notFound ∧
      ∃ g, fs.makeDirectoriesOf above = (.ok (), g) ∧ g.Made path fs' := by
  have hempty : path.isEmpty = false := by
    rw [Bool.eq_false_iff, ne_eq, String.isEmpty_iff]
    exact hne
  have hsettle : ∀ (g : FileSystem) (e : IoError),
      (if g.isDirectory path then Except.ok () else Except.error e, g) = (.ok (), fs') →
        g.Made path fs' := by
    intro g e hg
    obtain ⟨hok, rfl⟩ := Prod.mk.inj hg
    split at hok
    · exact Or.inr ⟨rfl, ‹_›⟩
    · exact absurd hok (by simp)
  rw [makeDirectoriesOf, hempty, if_neg Bool.false_ne_true] at h
  dsimp only at h
  split at h
  · obtain ⟨-, rfl⟩ := Prod.mk.inj h
    exact Or.inl (Or.inl ‹_›)
  · refine Or.inr ⟨‹_›, ?_⟩
    split at h
    · exact absurd (Prod.mk.inj h).1 (by simp)
    rename_i g hg
    refine ⟨g, hg, ?_⟩
    split at h
    · obtain ⟨-, rfl⟩ := Prod.mk.inj h
      exact Or.inl ‹_›
    · exact hsettle g _ h
  · exact Or.inl (hsettle fs _ h)

/-- What is made has a path. -/
theorem Made.pathFault?_eq_none (hn : IsName n) (h : fs.Made (join path n) fs') :
    pathFault? (join path n) = none := by
  rcases h with hmake | ⟨-, hdirectory⟩
  · cases hfault : pathFault? (join path n) with
    | none => rfl
    | some e =>
      rw [makeDirectory, withoutEndSlashes_join path hn, resolve, hfault] at hmake
      exact absurd hmake (by simp)
  · cases hfault : pathFault? (join path n) with
    | none => rfl
    | some e =>
      rw [isDirectory, item, locate, resolve, hfault] at hdirectory
      exact absurd hdirectory Bool.false_ne_true

/-- What is made at names stands in a directory. -/
theorem Made.directory (htree : fs.IsTree) (h : fs.LeadsTo path d) {names : List String}
    (hnames : ∀ m ∈ names, IsName m) (hn : IsName n)
    (hmade : fs.Made (join (names.foldl join path) n) fs') :
    fs.entryAt? (d ++ names) = some .directory := by
  have hfault := hmade.pathFault?_eq_none hn
  have hway : ∀ m ∈ names ++ [n], IsName m :=
    List.forall_mem_append.mpr ⟨hnames, List.forall_mem_singleton.mpr hn⟩
  have hne : names ++ [n] ≠ [] := List.concat_ne_nil _ _
  have hpath : join (names.foldl join path) n = (names ++ [n]).foldl join path := by
    rw [List.foldl_concat]
  rcases hmade with hmake | ⟨-, hdirectory⟩
  · rw [makeDirectory, withoutEndSlashes_join _ hn] at hmake
    split at hmake
    · exact absurd hmake (by simp)
    · exact absurd hmake (by simp)
    rename_i m hresolve
    rw [hpath] at hresolve hfault
    obtain ⟨jump, hfollow⟩ := h.exists_resolve_foldl_join hne hway hfault
    rw [hfollow] at hresolve
    have hslash : ∀ p ∈ names ++ [n], '/' ∉ p.toList := fun p hp => (hway p hp).slash
    obtain ⟨e, n', hm, he, -⟩ := htree.exists_of_followWith_free hslash hresolve
    rw [htree.eq_of_followWith_names h.directory_right hway hresolve, ← List.append_assoc] at hm
    rw [(List.append_singleton_inj.mp hm).1]
    exact he
  · rw [isDirectory] at hdirectory
    split at hdirectory
    · rename_i time hitem
      rw [hpath, htree.item_foldl_join_eq_ok_iff h hne hway, ← List.append_assoc] at hitem
      refine htree.parent _ n ?_
      rw [entryAt?, hitem.2]
      exact Option.some_ne_none _
    · exact absurd hdirectory Bool.false_ne_true

/-- **Directories that names lead to are made**: afterwards the names lead there, and nothing is
different but on the way down. -/
theorem IsTree.makeDirectories_foldl_join (htree : fs.IsTree) (h : fs.LeadsTo path d)
    {names : List String} (hne : names ≠ []) (hnames : ∀ m ∈ names, IsName m)
    (hmake : fs.makeDirectories (names.foldl join path) = (.ok (), fs')) :
    fs'.LeadsTo (names.foldl join path) (d ++ names) ∧
      ∀ l, ¬ l <+: d ++ names → fs'.itemAt? l = fs.itemAt? l := by
  induction names using List.reverseRecOn generalizing fs' with
  | nil => exact absurd rfl hne
  | append_singleton names n ih =>
    rw [List.forall_mem_append, List.forall_mem_singleton] at hnames
    obtain ⟨hnames, hn⟩ := hnames
    rw [List.foldl_concat] at hmake ⊢
    rw [← List.append_assoc]
    rw [makeDirectories, ancestors_join _ hn] at hmake
    rcases made_of_makeDirectoriesOf (join_ne_empty _ hn) hmake with
      hmade | ⟨hmissing, g, hg, hmade⟩
    · have hdirectory := hmade.directory htree h hnames hn
      exact htree.leadsTo_of_made (htree.leadsTo_foldl_join h hnames hdirectory) hn
        (hmade.pathFault?_eq_none hn) hmade
    -- the directory in front was missing, so there is a name in front, and it has been made
    have hfault := hmade.pathFault?_eq_none hn
    by_cases hnil : names = []
    · rw [hnil, List.foldl_nil] at hmissing hfault
      rw [htree.makeDirectory_join h hn hfault] at hmissing
      split at hmissing <;> exact absurd hmissing (by simp)
    rw [bare_foldl_join _ hnil hnames] at hg
    have hkeeps := htree.keeps_makeDirectories hg []
    obtain ⟨hleads, hitems⟩ := ih hnil hnames hg
    obtain ⟨hleads', hitems'⟩ := hkeeps.tree.leadsTo_of_made hleads hn hfault hmade
    refine ⟨hleads', fun l hl => (hitems' l hl).trans (hitems l fun hprefix => hl ?_)⟩
    exact hprefix.trans (List.prefix_append _ _)

end ComponentStories.FileSystem
