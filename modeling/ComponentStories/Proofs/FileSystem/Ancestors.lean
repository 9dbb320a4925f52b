import ComponentStories.Proofs.FileSystem.Parts

/-
# The paths above a path

The path above one that a name is joined to is the path itself, without the pieces at its end that
lead nowhere (`bare`), and so the paths above it are the bare one and those above that
(`ancestors_join`).  Every path above has fewer parts.  So of the paths above one that names lead
down to, those up to the root of the way are the ways of fewer names (`ancestorsWithin_way`).
-/

namespace ComponentStories.Path

variable {path piece name root : String} {lead : Lead} {pieces : List (List Char)}

/-! ## Beginnings and pieces -/

/-- Pieces that can follow a beginning: none is divided, and the first does
not belong to the beginning. -/
structure Follows (lead : Lead) (pieces : List (List Char)) : Prop where
  /-- No piece is divided. -/
  slash : ∀ p ∈ pieces, '/' ∉ p
  /-- Without a beginning of its own a path begins with a piece that leads somewhere. -/
  first : lead = .plain → ∀ p ∈ pieces.head?, isStay p = false

/-- Pieces at the front can follow what all of them follow. -/
theorem Follows.of_front {front : List (List Char)} (h : Follows lead pieces)
    (hfront : front <+: pieces) : Follows lead front where
  slash p hp := h.slash p (hfront.subset hp)
  first hplain p hp := by
    obtain ⟨rest, rfl⟩ := hfront
    refine h.first hplain p ?_
    rw [List.head?_append, Option.mem_def.mp hp]
    rfl

/-- A path is laid out as the beginning and the pieces that it is made of. -/
theorem layout_ofLayout (h : Follows lead pieces) (hne : pieces ≠ []) :
    layout (ofLayout lead pieces) = (lead, pieces) := by
  have hsplit : Text.splitAt '/' (ofLayout lead pieces).toList = leadPieces lead ++ pieces := by
    rw [toList_ofLayout lead hne]
    refine Text.splitAt_join (List.append_ne_nil_of_right_ne_nil _ hne) fun p hp => ?_
    rcases List.mem_append.mp hp with hp | hp
    · exact slash_notMem_leadPieces hp
    · exact h.slash p hp
  obtain ⟨first, rest, rfl⟩ := List.exists_cons_of_ne_nil hne
  rw [layout, hsplit]
  cases lead with
  | root => rfl
  | here => rfl
  | plain =>
    have hstay := h.first rfl first rfl
    rw [isStay, Bool.or_eq_false_iff, beq_eq_false_iff_ne, beq_eq_false_iff_ne] at hstay
    simp [leadPieces, hstay]

/-- The pieces of a path follow its beginning, unless it is nothing. -/
theorem follows_layout (hne : path ≠ "") : Follows (layout path).1 (layout path).2 where
  slash p hp := by
    refine Text.notMem_of_mem_splitAt (s := path.toList) ?_
    rw [splitAt_eq_layout]
    exact List.mem_append_right _ hp
  first hplain p hp := by
    have hsplit := splitAt_eq_layout path
    obtain ⟨rest, hpieces⟩ := List.head?_eq_some_iff.mp hp
    rw [hplain, hpieces, leadPieces, List.nil_append] at hsplit
    rw [isStay, Bool.or_eq_false_iff, beq_eq_false_iff_ne, beq_eq_false_iff_ne]
    constructor
    · rintro rfl
      cases rest with
      | nil =>
        have htext := @Text.join_splitAt '/' path.toList
        rw [hsplit] at htext
        exact hne (String.toList_eq_nil_iff.mp htext.symm)
      | cons second rest =>
        rw [layout, hsplit] at hplain
        exact Lead.noConfusion hplain
    · rintro rfl
      rw [layout, hsplit] at hplain
      exact Lead.noConfusion hplain

theorem parts_ofLayout (h : Follows lead pieces) : parts (ofLayout lead pieces) =
    leadParts lead ++ (pieces.filter fun p => !isStay p).map Part.ofPiece := by
  by_cases hne : pieces = []
  · rw [hne]
    cases lead <;> decide
  · rw [parts, layout_ofLayout h hne]

/-! ## Pieces at the end that lead nowhere -/

/-- The path without the pieces at its end that lead nowhere. -/
def bare (path : String) : String :=
  ofLayout (layout path).1 ((layout path).2.rdropWhile isStay)

@[simp] theorem bare_empty : bare "" = "" := by decide

theorem filter_rdropWhile (pieces : List (List Char)) :
    (pieces.rdropWhile isStay).filter (fun p => !isStay p) = pieces.filter fun p => !isStay p := by
  have hstays : (pieces.rtakeWhile isStay).filter (fun p => !isStay p) = [] := by
    rw [List.filter_eq_nil_iff]
    intro p hp
    simp [List.mem_rtakeWhile_imp hp]
  conv_rhs => rw [← List.rdropWhile_append_rtakeWhile (p := isStay) (l := pieces)]
  rw [List.filter_append, hstays, List.append_nil]

@[simp] theorem parts_bare (path : String) : parts (bare path) = parts path := by
  by_cases hne : path = ""
  · rw [hne, bare_empty]
  · rw [bare, parts_ofLayout ((follows_layout hne).of_front (List.rdropWhile_prefix _ _)),
      filter_rdropWhile]
    rfl

@[simp] theorem fileName?_bare (path : String) : fileName? (bare path) = fileName? path := by
  rw [fileName?, parts_bare, fileName?]

@[simp] theorem bare_join (path : String) (h : IsName name) :
    bare (join path name) = join path name := by
  obtain ⟨lead, pieces, -, -, hlayout⟩ := layout_join path
  have hkeep : (pieces ++ [name.toList]).rdropWhile isStay = pieces ++ [name.toList] := by
    rw [List.rdropWhile_concat_neg _ _ _ (by simp [h.isStay])]
  conv_rhs => rw [← ofLayout_layout (join path name)]
  rw [bare, hlayout name h, hkeep]

theorem bare_foldl_join (path : String) {names : List String} (hne : names ≠ [])
    (h : ∀ n ∈ names, IsName n) : bare (names.foldl join path) = names.foldl join path := by
  obtain ⟨init, last, rfl⟩ := (List.eq_nil_or_concat' names).resolve_left hne
  rw [List.foldl_concat, bare_join _ (h last (List.mem_append_right _ List.mem_cons_self))]

/-- The pieces in front of a name that is joined to a path are those of the path, but
for those that lead nowhere. -/
theorem exists_layout_join (path : String) :
    ∃ pieces, (∀ name, IsName name →
        layout (join path name) = ((layout path).1, pieces ++ [name.toList])) ∧
      pieces.rdropWhile isStay = (layout path).2.rdropWhile isStay := by
  obtain ⟨lead, pieces, hstem, -, hlayout⟩ := layout_join path
  have hname : IsName "a" := by decide
  have hlead : lead = (layout path).1 := by
    have hfst := layout_join_fst path hname.isPiece hname.isStay
    rwa [hlayout "a" hname] at hfst
  subst hlead
  refine ⟨pieces, hlayout, ?_⟩
  have hsplit := splitAt_eq_layout path
  rcases splitAt_eq_stem path with hcase | hcase
  · rw [hcase, hstem, List.append_assoc, List.append_cancel_left_eq] at hsplit
    rw [← hsplit, List.rdropWhile_concat_pos _ _ _ rfl]
  · rw [hcase, hstem, List.append_cancel_left_eq] at hsplit
    rw [← hsplit]

/-! ## The paths above -/

/-- Pieces that lead nowhere have no paths above of their own. -/
theorem above_dropWhile (lead : Lead) (ps : List (List Char)) :
    above lead (ps.dropWhile isStay) = above lead ps := by
  induction ps with
  | nil => rfl
  | cons p ps ih =>
    by_cases hstay : isStay p = true
    · rw [List.dropWhile_cons_of_pos hstay, ih, above, if_pos hstay]
    · rw [List.dropWhile_cons_of_neg hstay]

/-- The paths above a bare path are those above the path. -/
theorem tail_ancestors_bare (path : String) :
    (ancestors (bare path)).tail = (ancestors path).tail := by
  by_cases hne : path = ""
  · rw [hne, bare_empty]
  have hfollows := (follows_layout hne).of_front (List.rdropWhile_prefix isStay _)
  have habove : ∀ pieces : List (List Char),
      above (layout path).1 (pieces.rdropWhile isStay).reverse =
      above (layout path).1 pieces.reverse := by
    intro pieces
    rw [List.rdropWhile, List.reverse_reverse, above_dropWhile]
  rw [ancestors, ancestors, List.tail_cons, List.tail_cons, ← habove (layout path).2, bare]
  by_cases hnil : (layout path).2.rdropWhile isStay = []
  · rw [hnil]
    cases (layout path).1 <;> decide
  · rw [layout_ofLayout hfollows hnil]

@[simp] theorem parent?_bare (path : String) : parent? (bare path) = parent? path := by
  rw [parent?, tail_ancestors_bare, parent?]

/-- **The paths above one that a name is joined to** are the path without the pieces at its end that
lead nowhere, and those above it. -/
theorem ancestors_join (path : String) (h : IsName name) :
    ancestors (join path name) = join path name :: ancestors (bare path) := by
  obtain ⟨pieces, hlayout, hbare⟩ := exists_layout_join path
  have hcons : ancestors (bare path) = bare path :: (ancestors (bare path)).tail := rfl
  have habove : above (layout path).1 pieces.reverse =
      above (layout path).1 (layout path).2.reverse := by
    rw [← above_dropWhile, ← above_dropWhile _ (layout path).2.reverse]
    exact congrArg _ (List.reverse_injective hbare)
  rw [hcons, tail_ancestors_bare, ancestors, hlayout name h, ancestors, bare, ← hbare]
  simp [above, h.isStay, List.rdropWhile, habove]

theorem parent?_join_eq (path : String) (h : IsName name) :
    parent? (join path name) = some (bare path) := by
  rw [parent?, ancestors_join path h]
  rfl

/-- The nearest path above some pieces has fewer parts than these. -/
theorem length_parts_of_mem_head_above {q : String} {ps : List (List Char)}
    (h : Follows lead ps.reverse) (hq : q ∈ (above lead ps).head?) : (parts q).length <
      (leadParts lead).length + (ps.filter fun p => !isStay p).length := by
  induction ps with
  | nil =>
    cases lead with
    | here =>
      obtain rfl : "" = q := Option.some.inj hq
      decide
    | root => exact absurd hq (by simp [above])
    | plain => exact absurd hq (by simp [above])
  | cons p ps ih =>
    rw [List.reverse_cons] at h
    have hfront := h.of_front (List.prefix_append _ _)
    by_cases hstay : isStay p = true
    · rw [above, if_pos hstay] at hq
      rw [List.filter_cons_of_neg (by simp [hstay])]
      exact ih hfront hq
    · rw [above, if_neg hstay] at hq
      obtain rfl := Option.some.inj hq
      have hbare : (ps.dropWhile isStay).reverse = ps.reverse.rdropWhile isStay := by
        rw [List.rdropWhile, List.reverse_reverse]
      rw [hbare, parts_ofLayout (hfront.of_front (List.rdropWhile_prefix _ _)), filter_rdropWhile,
        List.filter_cons_of_pos (by simp [hstay]), List.length_append, List.length_map,
        List.filter_reverse, List.length_reverse, List.length_cons]
      omega

/-- **The path above has fewer parts.** -/
theorem length_parts_of_parent? {p q : String} (h : parent? p = some q) :
    (parts q).length < (parts p).length := by
  have hne : p ≠ "" := by
    rintro rfl
    rw [show parent? "" = none by decide] at h
    exact absurd h (by simp)
  have hfollows := follows_layout hne
  rw [← List.reverse_reverse (layout p).2] at hfollows
  have hlength := length_parts_of_mem_head_above hfollows h
  rwa [List.filter_reverse, List.length_reverse, ← List.length_map (f := Part.ofPiece),
    ← List.length_append] at hlength

/-! ## The paths above, up to a root -/

/-- **At the root of a way the search for the paths above ends.** -/
theorem ancestorsWithin_bare (root : String) : ancestorsWithin (bare root) root = [bare root] := by
  have hcons : ancestors (bare root) = bare root :: (ancestors (bare root)).tail := rfl
  have htail : (ancestors (bare root)).tail.takeWhile (fun p => startsWith p root) = [] := by
    rw [List.takeWhile_eq_nil_iff]
    intro hpos hstart
    have hparent : parent? (bare root) = some (ancestors (bare root)).tail[0] := by
      rw [parent?, List.head?_eq_getElem?, List.getElem?_eq_getElem hpos]
    have hlength := length_parts_of_parent? hparent
    rw [startsWith, List.isPrefixOf_iff_prefix] at hstart
    rw [parts_bare] at hlength
    exact absurd hstart.length_le (Nat.not_le.mpr hlength)
  rw [ancestorsWithin, hcons]
  refine (List.takeWhile_cons_of_pos ?_).trans (congrArg _ htail)
  rw [startsWith, parts_bare, List.isPrefixOf_iff_prefix]

theorem ancestorsWithin_join (h : IsName name) (hstart : startsWith (join path name) root = true) :
    ancestorsWithin (join path name) root =
      join path name :: ancestorsWithin (bare path) root := by
  rw [ancestorsWithin, ancestors_join path h]
  exact List.takeWhile_cons_of_pos hstart

/-! ## Ways down -/

/-- The path of a file in a directory that names lead down to from a root. -/
structure Way (root : String) (dirs : List String) (file path : String) : Prop where
  /-- The directories on the way have names. -/
  named : ∀ n ∈ dirs, IsName n
  /-- The file has a name. -/
  isName : IsName file
  /-- The path is made of the names. -/
  eq : path = join (dirs.foldl join root) file

/-- A path is at the end of at most one way from a root. -/
theorem Way.unique {dirs dirs' : List String} {file file' : String} (h : Way root dirs file path)
    (h' : Way root dirs' file' path) : dirs = dirs' ∧ file = file' := by
  have hsplit : ∀ {dirs file}, Way root dirs file path →
      Text.splitAt '/' path.toList = stem root ++ (dirs.map String.toList ++ [file.toList]) := by
    intro dirs file hway
    rw [hway.eq, splitAt_join _ hway.isName.isPiece, stem_foldl_join root hway.named,
      List.append_assoc]
  have heq := List.append_cancel_left ((hsplit h).symm.trans (hsplit h'))
  obtain ⟨hdirs, hfile⟩ := List.append_singleton_inj.mp heq
  exact ⟨List.map_injective_iff.mpr (fun _ _ => String.toList_inj.mp) hdirs,
    String.toList_inj.mp hfile⟩

/-- The parts of a way are those of its root, and its names. -/
theorem parts_foldl_join (root : String) {dirs : List String} (h : ∀ n ∈ dirs, IsName n) :
    parts (dirs.foldl join root) = parts root ++ dirs.map Part.name := by
  induction dirs generalizing root with
  | nil => simp
  | cons n dirs ih =>
    obtain ⟨hn, hdirs⟩ := List.forall_mem_cons.mp h
    rw [List.foldl_cons, ih _ hdirs, parts_join root hn.isPiece hn.isStay hn.ne_up, List.map_cons,
      List.append_assoc]
    rfl

/-- The directory on a way down that some names lead to: the root, where there are none. -/
def level (root : String) (dirs : List String) (k : Nat) : String :=
  bare ((dirs.take k).foldl join root)

/-- **The paths above one that names lead down to**, up to the root of the way,
are the ways of fewer names. -/
theorem ancestorsWithin_way (root : String) {dirs : List String} (h : ∀ n ∈ dirs, IsName n) :
    ancestorsWithin (bare (dirs.foldl join root)) root =
      ((List.range (dirs.length + 1)).map (level root dirs)).reverse := by
  induction dirs using List.reverseRecOn with
  | nil => exact ancestorsWithin_bare root
  | append_singleton dirs n ih =>
    have hparts := parts_foldl_join root h
    rw [List.forall_mem_append, List.forall_mem_singleton] at h
    obtain ⟨hdirs, hn⟩ := h
    have hlevel : ∀ k ∈ List.range (dirs.length + 1),
        level root (dirs ++ [n]) k = level root dirs k := by
      intro k hk
      rw [List.mem_range] at hk
      rw [level, List.take_append_of_le_length (Nat.le_of_lt_succ hk), level]
    have hlast : level root (dirs ++ [n]) (dirs.length + 1) = join (dirs.foldl join root) n := by
      rw [level, List.take_of_length_le (by simp), List.foldl_concat, bare_join _ hn]
    have hstart : startsWith (join (dirs.foldl join root) n) root = true := by
      rw [List.foldl_concat] at hparts
      rw [startsWith, hparts, List.isPrefixOf_iff_prefix]
      exact List.prefix_append _ _
    rw [List.foldl_concat, bare_join _ hn, ancestorsWithin_join hn hstart, ih hdirs,
      List.length_append, List.length_singleton, List.range_succ (n := dirs.length + 1),
      List.map_append, List.reverse_append, List.map_congr_left hlevel, List.map_singleton, hlast]
    rfl

/-! ## The names on a way -/

/-- The name of the directory on a way that `k` names lead to: that of the root,
or the last of these names. -/
def ownName? (root : String) (dirs : List String) : Nat → Option String
  | 0 => fileName? root
  | k + 1 => dirs[k]?

/-- The name of the directory above it. -/
def nameAbove? (root : String) (dirs : List String) : Nat → Option String
  | 0 => (parent? root).bind fileName?
  | k + 1 => ownName? root dirs k

/-- No directory behind the end of a way has a name. -/
theorem le_of_ownName? {dirs : List String} {k : Nat} (h : ownName? root dirs k = some name) :
    k ≤ dirs.length := by
  cases k with
  | zero => exact Nat.zero_le _
  | succ k =>
    obtain ⟨hk, -⟩ := List.getElem?_eq_some_iff.mp h
    exact hk

variable {dirs : List String} {k : Nat}

/-- The directory that names lead to is the last of them in the one before. -/
theorem level_succ (root : String) (h : ∀ n ∈ dirs, IsName n) (hk : k < dirs.length) :
    IsName dirs[k] ∧ level root dirs (k + 1) = join ((dirs.take k).foldl join root) dirs[k] := by
  have hname := h _ (List.getElem_mem hk)
  rw [level, List.take_add_one, List.getElem?_eq_getElem hk, Option.toList_some, List.foldl_concat,
    bare_join _ hname]
  exact ⟨hname, rfl⟩

theorem fileName?_level (h : ∀ n ∈ dirs, IsName n) (hk : k ≤ dirs.length) :
    fileName? (level root dirs k) = ownName? root dirs k := by
  cases k with
  | zero => exact fileName?_bare root
  | succ k =>
    obtain ⟨hname, hlevel⟩ := level_succ root h hk
    rw [hlevel, fileName?_join _ hname, ownName?, List.getElem?_eq_getElem hk]

/-- The path above a directory on a way has the name of the directory above. -/
theorem nameAbove?_level (h : ∀ n ∈ dirs, IsName n) (hk : k ≤ dirs.length) :
    (parent? (level root dirs k)).bind fileName? = nameAbove? root dirs k := by
  cases k with
  | zero => rw [level, List.take_zero, List.foldl_nil, parent?_bare, nameAbove?]
  | succ k =>
    obtain ⟨hname, hlevel⟩ := level_succ root h hk
    rw [hlevel, parent?_join_eq _ hname, nameAbove?, ← fileName?_level h (Nat.le_of_lt hk), level]
    rfl

/-- What is found first on the paths above one that names lead down to, up to the root of the way,
is found in the directory that the most names lead to. -/
theorem findSome?_levels {α : Type} {f : String → Option α} {a : α} (root : String)
    (dirs : List String) (n : Nat) :
    ((List.range n).map (level root dirs)).reverse.findSome? f = some a ↔
      ∃ k < n, f (level root dirs k) = some a ∧ ∀ j < n, k < j → f (level root dirs j) = none := by
  induction n with
  | zero => simp
  | succ n ih =>
    rw [List.range_succ, List.map_append, List.reverse_append, List.map_singleton,
      List.reverse_singleton, List.singleton_append, List.findSome?_cons]
    cases hlast : f (level root dirs n) with
    | some b =>
      dsimp only
      rw [Option.some.injEq]
      constructor
      · rintro rfl
        exact ⟨n, Nat.lt_succ_self n, hlast, fun j hj hnj => by omega⟩
      · rintro ⟨k, hk, hfound, hbehind⟩
        -- nothing is found behind `k`, but something is found at `n`
        have hkn : k = n := by
          by_contra hne
          exact absurd ((hbehind n (Nat.lt_succ_self n) (by omega)).symm.trans hlast) (by simp)
        rw [hkn, hlast] at hfound
        exact Option.some.inj hfound
    | none =>
      dsimp only
      rw [ih]
      constructor
      · rintro ⟨k, hk, hfound, hbehind⟩
        refine ⟨k, Nat.lt_succ_of_lt hk, hfound, fun j hj hkj => ?_⟩
        rcases Nat.lt_succ_iff_lt_or_eq.mp hj with hj | rfl
        · exact hbehind j hj hkj
        · exact hlast
      · rintro ⟨k, hk, hfound, hbehind⟩
        have hkn : k ≠ n := by
          rintro rfl
          exact absurd (hlast.symm.trans hfound) (by simp)
        exact ⟨k, by omega, hfound, fun j hj => hbehind j (Nat.lt_succ_of_lt hj)⟩

end ComponentStories.Path
