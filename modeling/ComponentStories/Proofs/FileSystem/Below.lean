import ComponentStories.Proofs.FileSystem.Tree

/-
# Names below a directory that is reached over links

A path may come over links before it reaches a location below which there are none.  Names that are
joined to it are followed from that location on (`exists_resolve_foldl_join`), so they stand for
what is at the location followed by the names (`IsTreeBelow.locate_foldl_join_eq_ok_iff`).  Over
links too the front of a path that leads somewhere stands for a directory
(`exists_locate_of_front`).
-/

namespace ComponentStories.FileSystem

open ComponentStories.Path

variable {fs : FileSystem} {l d : Location} {ps qs e : List String} {path : String}
  {jump : Location → String → List String → Except IoError Place}

/-! ## Following on -/

/-- Empty pieces are followed to where they begin. -/
theorem eq_of_followWith_empty {purpose : Purpose} (he : ∀ p ∈ e, p = "")
    (h : followWith fs purpose jump l e = .ok (.taken d)) : l = d := by
  induction e with
  | nil => exact Place.taken.inj (Except.ok.inj h)
  | cons piece rest ih =>
    obtain ⟨hpiece, hrest⟩ := List.forall_mem_cons.mp he
    obtain ⟨-, ⟨-, h⟩ | ⟨hup, -⟩ | ⟨hdown, -⟩⟩ := followWith_cons_eq_ok_iff.mp h
    · exact ih hrest h
    · exact absurd (hpiece.symm.trans hup) (by decide)
    · exact absurd (Or.inl hpiece) hdown.stay

/-- Pieces behind those that reach a location are followed from there, if this is so behind every
link on the way.  Empty pieces at the end reach nothing else. -/
theorem exists_followWith_append (he : ∀ p ∈ e, p = "")
    (hjump : ∀ m target rest, jump m target (rest ++ e) = .ok (.taken d) →
      ∃ jump', jump m target (rest ++ qs) = followWith fs .reach jump' d qs)
    (h : followWith fs .reach jump l (ps ++ e) = .ok (.taken d)) :
    ∃ jump', followWith fs .reach jump l (ps ++ qs) = followWith fs .reach jump' d qs := by
  induction ps generalizing l with
  | nil =>
    obtain rfl := eq_of_followWith_empty he h
    exact ⟨jump, rfl⟩
  | cons piece rest ih =>
    rw [List.cons_append] at h ⊢
    obtain ⟨hl, ⟨hstay, hrest⟩ | ⟨rfl, hrest⟩ | ⟨hdown, hname⟩⟩ := followWith_cons_eq_ok_iff.mp h
    · rw [followWith_stay hl hstay]
      exact ih hrest
    · rw [followWith_up hl]
      exact ih hrest
    rw [followWith_down hl (hdown.of_ne_create (by decide) _)]
    rcases followName_eq_ok_iff.mp hname with
      ⟨-, -, hfree⟩ | ⟨target, hlink, hjumps⟩ | ⟨entry, hentry, hother, hon⟩
    · exact absurd hfree (by simp)
    · rw [if_neg fun hend => absurd hend.2 (by decide)] at hjumps
      rw [followName_link hlink fun hend => absurd hend.2 (by decide)]
      exact hjump _ _ _ hjumps
    · rw [followName_entry hentry hother]
      exact ih hon

/-- **Pieces behind those that reach a location are followed from there**,
whatever links are on the way. -/
theorem exists_follow_append (qs : List String) (he : ∀ p ∈ e, p = "") {n : Nat}
    (h : fs.follow .reach n l (ps ++ e) = .ok (.taken d)) :
    ∃ jump, fs.follow .reach n l (ps ++ qs) = followWith fs .reach jump d qs := by
  induction n generalizing l ps with
  | zero => exact exists_followWith_append he (fun _ _ _ hlink => absurd hlink (by simp)) h
  | succ n ih =>
    refine exists_followWith_append he (fun m target rest hlink => ?_) h
    rw [← List.append_assoc] at hlink ⊢
    exact ih hlink

/-- Pieces in front of others that are followed on the way reach a directory, if this is so
behind every link on the way. -/
theorem exists_followWith_front {purpose : Purpose} {place : Place}
    {jump' : Location → String → List String → Except IoError Place} (hqs : qs ≠ [])
    (hjump : ∀ m target rest, jump m target (rest ++ qs) = .ok place →
      ∃ d, jump' m target rest = .ok (.taken d) ∧ fs.entryAt? d = some .directory)
    (h : followWith fs purpose jump l (ps ++ qs) = .ok place) :
    ∃ d, followWith fs .reach jump' l ps = .ok (.taken d) ∧ fs.entryAt? d = some .directory := by
  induction ps generalizing l with
  | nil =>
    obtain ⟨q, rest, rfl⟩ := List.exists_cons_of_ne_nil hqs
    exact ⟨l, rfl, (followWith_cons_eq_ok_iff.mp h).1⟩
  | cons piece rest ih =>
    have hmore : rest ++ qs ≠ [] := List.append_ne_nil_of_right_ne_nil _ hqs
    rw [List.cons_append] at h
    obtain ⟨hl, ⟨hstay, hrest⟩ | ⟨rfl, hrest⟩ | ⟨hdown, hname⟩⟩ := followWith_cons_eq_ok_iff.mp h
    · rw [followWith_stay hl hstay]
      exact ih hrest
    · rw [followWith_up hl]
      exact ih hrest
    rw [followWith_down hl (hdown.of_ne_create (by decide) _)]
    rcases followName_eq_ok_iff.mp hname with
      ⟨-, hend, -⟩ | ⟨target, hlink, hjumps⟩ | ⟨entry, hentry, hother, hon⟩
    · exact absurd hend hmore
    · rw [if_neg fun hend => hmore hend.1] at hjumps
      rw [followName_link hlink fun hend => absurd hend.2 (by decide)]
      exact hjump _ _ _ hjumps
    · rw [followName_entry hentry hother]
      exact ih hon

/-- **Pieces in front of others that are followed on the way reach a directory.** -/
theorem exists_follow_front {purpose : Purpose} {place : Place} (hqs : qs ≠ []) {n : Nat}
    (h : fs.follow purpose n l (ps ++ qs) = .ok place) :
    ∃ d, fs.follow .reach n l ps = .ok (.taken d) ∧ fs.entryAt? d = some .directory := by
  induction n generalizing l ps with
  | zero => exact exists_followWith_front hqs (fun _ _ _ hlink => absurd hlink (by simp)) h
  | succ n ih =>
    refine exists_followWith_front hqs (fun m target rest hlink => ?_) h
    rw [← List.append_assoc] at hlink
    exact ih hlink

/-- The front of a path that leads somewhere, up to some slash, stands for a directory. -/
theorem exists_locate_of_front (front : String) {rest : List (List Char)} {purpose : Purpose}
    {place : Place} (hne : front ≠ "") (hfront : front.toList <+: path.toList)
    (hsplit : Text.splitAt '/' path.toList = stem front ++ rest) (hrest : rest ≠ [])
    (h : fs.resolve purpose path = .ok place) :
    ∃ d, fs.locate front = .ok d ∧ fs.entryAt? d = some .directory := by
  rw [resolve] at h
  split at h
  · exact absurd h (by simp)
  have hfault := pathFault?_eq_none_of_front hne hfront ‹_›
  have hstart : start path fs.working = start front fs.working := by
    rw [start, start, isAbsolute_of_front hne hfront]
  rw [hstart, pieces, hsplit, List.map_append] at h
  obtain ⟨d, hd, hdir⟩ := exists_follow_front (by simpa using hrest) h
  refine ⟨d, ?_, hdir⟩
  rw [locate_eq_ok_iff, resolve, hfault, pieces]
  rcases splitAt_eq_stem front with hcase | hcase
  · -- an empty piece at the end stays in the directory
    rw [← List.append_nil (List.map _ _)] at hd
    obtain ⟨jump, hjump⟩ := exists_follow_append [""] (List.forall_mem_nil _) hd
    rw [hcase, List.map_append]
    refine hjump.trans ?_
    rw [followWith_stay hdir (Or.inl rfl), followWith]
  · rw [hcase]
    exact hd

/-- Names that are joined to a path are followed from the location that it stands for. -/
theorem exists_resolve_foldl_join (hpath : fs.locate path = .ok d) {names : List String}
    (hne : names ≠ []) (hnames : ∀ n ∈ names, IsName n)
    (hfault : pathFault? (names.foldl join path) = none) :
    ∃ jump, fs.resolve .reach (names.foldl join path) = followWith fs .reach jump d names := by
  rw [locate_eq_ok_iff, resolve] at hpath
  split at hpath
  · exact absurd hpath (by simp)
  rw [resolve, hfault, pieces_foldl_join path hne hnames, start_foldl_join path hnames]
  rw [pieces] at hpath
  rcases splitAt_eq_stem path with hsplit | hsplit
  · rw [hsplit, List.map_append] at hpath
    exact exists_follow_append _ (by decide) hpath
  · rw [hsplit, ← List.append_nil (List.map _ _)] at hpath
    exact exists_follow_append _ (List.forall_mem_nil _) hpath

/-! ## One name -/

/-- A name in a directory is followed to what stands there, if that is no link. -/
theorem followWith_name {purpose : Purpose} {n : String} (hd : fs.entryAt? d = some .directory)
    (hn : IsName n) (hlink : ∀ target, fs.entryAt? (d ++ [n]) ≠ some (.link target)) :
    followWith fs purpose jump d [n] =
      .ok (if fs.entryAt? (d ++ [n]) = none then .free (d ++ [n]) else .taken (d ++ [n])) := by
  rw [followWith_names hd hn (List.forall_mem_nil _) hlink, if_pos rfl]
  split <;> rfl

/-- A name that is joined to a path stands for what has this name in the directory that the path
stands for, if that is no link. -/
theorem locate_join_eq_ok_iff {n : String} (hpath : fs.locate path = .ok d)
    (hd : fs.entryAt? d = some .directory) (hn : IsName n)
    (hfault : pathFault? (join path n) = none)
    (hlink : ∀ target, fs.entryAt? (d ++ [n]) ≠ some (.link target)) :
    fs.locate (join path n) = .ok l ↔ l = d ++ [n] ∧ fs.entryAt? l ≠ none := by
  obtain ⟨jump, hresolve⟩ := exists_resolve_foldl_join hpath (List.cons_ne_nil n [])
    (List.forall_mem_singleton.mpr hn) hfault
  rw [List.foldl_cons, List.foldl_nil, followWith_name hd hn hlink] at hresolve
  rw [FileSystem.locate_eq_ok_iff, hresolve]
  by_cases hentry : fs.entryAt? (d ++ [n]) = none
  · rw [if_pos hentry]
    refine iff_of_false (by simp) ?_
    rintro ⟨rfl, hne⟩
    exact hne hentry
  · rw [if_neg hentry, Except.ok.injEq, Place.taken.injEq]
    constructor
    · rintro rfl
      exact ⟨rfl, hentry⟩
    · rintro ⟨rfl, -⟩
      rfl

/-! ## Names without links -/

/-- Names are followed from any location to the entry that they name, if there is one. -/
theorem IsTreeBelow.followWith_names_iff (hbelow : fs.IsTreeBelow d) {names : List String}
    (hne : names ≠ []) (hnames : ∀ n ∈ names, IsName n) :
    followWith fs .reach jump d names = .ok (.taken l) ↔ l = d ++ names ∧ fs.entryAt? l ≠ none := by
  by_cases hdir : fs.entryAt? d = some .directory
  · exact hbelow.followWith_names hdir hnames
  · refine iff_of_false ?_ ?_
    · obtain ⟨n, rest, rfl⟩ := List.exists_cons_of_ne_nil hne
      exact fun h => hdir (followWith_cons_eq_ok_iff.mp h).1
    · rintro ⟨rfl, hentry⟩
      exact hdir (hbelow.directory_of_append hne hentry)

/-- **Names that are joined to a path stand for what is at its location followed by the names**, if
there are no links below it. -/
theorem IsTreeBelow.locate_foldl_join_eq_ok_iff (hbelow : fs.IsTreeBelow d)
    (hpath : fs.locate path = .ok d) {names : List String} (hne : names ≠ [])
    (hnames : ∀ n ∈ names, IsName n) :
    fs.locate (names.foldl join path) = .ok l ↔
      pathFault? (names.foldl join path) = none ∧ l = d ++ names ∧ fs.entryAt? l ≠ none := by
  rw [FileSystem.locate_eq_ok_iff]
  cases hfault : pathFault? (names.foldl join path) with
  | some error =>
    rw [resolve, hfault]
    simp
  | none =>
    obtain ⟨jump, hresolve⟩ := exists_resolve_foldl_join hpath hne hnames hfault
    rw [hresolve, hbelow.followWith_names_iff hne hnames]
    simp

/-- The item that names that are joined to a path stand for. -/
theorem IsTreeBelow.item_foldl_join_eq_ok_iff (hbelow : fs.IsTreeBelow d)
    (hpath : fs.locate path = .ok d) {names : List String} (hne : names ≠ [])
    (hnames : ∀ n ∈ names, IsName n) {i : Item} :
    fs.item (names.foldl join path) = .ok i ↔
      pathFault? (names.foldl join path) = none ∧ fs.itemAt? (d ++ names) = some i :=
  item_eq_ok_iff_of_locate fun _ => hbelow.locate_foldl_join_eq_ok_iff hpath hne hnames

end ComponentStories.FileSystem
