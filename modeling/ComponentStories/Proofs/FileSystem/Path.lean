import ComponentStories.FileSystem.Access
import ComponentStories.Proofs.Text.Split
import Mathlib.Data.List.DropRight
import Mathlib.Data.List.Infix

/-
# Paths that lead down

A path that a name is joined to has the pieces of the path, but for an empty one at its end, and the
name (`splitAt_join`).  Its file name is the name, and the path above it has these pieces without
the ones at their end that lead nowhere (`parent?_join`).
-/

namespace ComponentStories

/-! ## Names -/

/-- A text that can be the name of something in a directory. -/
structure Path.IsName (name : String) : Prop where
  /-- It is not nothing. -/
  ne_empty : name ≠ ""
  /-- It is not the directory. -/
  ne_here : name ≠ "."
  /-- It is not the directory above. -/
  ne_up : name ≠ ".."
  /-- It does not divide a path. -/
  slash : '/' ∉ name.toList
  /-- It is not too long. -/
  size : name.utf8ByteSize ≤ FileSystem.nameLimit

namespace Path

instance (name : String) : Decidable (IsName name) :=
  decidable_of_iff (name ≠ "" ∧ name ≠ "." ∧ name ≠ ".." ∧ '/' ∉ name.toList ∧
      name.utf8ByteSize ≤ FileSystem.nameLimit)
    ⟨fun ⟨h₁, h₂, h₃, h₄, h₅⟩ => ⟨h₁, h₂, h₃, h₄, h₅⟩,
      fun ⟨h₁, h₂, h₃, h₄, h₅⟩ => ⟨h₁, h₂, h₃, h₄, h₅⟩⟩

/-- A text that can be a piece of a path: a name, or what stands for a directory. -/
structure IsPiece (piece : String) : Prop where
  /-- It is not nothing. -/
  ne_empty : piece ≠ ""
  /-- It does not divide a path. -/
  slash : '/' ∉ piece.toList

variable {name name' piece : String}

theorem IsName.isPiece (h : IsName name) : IsPiece name := ⟨h.ne_empty, h.slash⟩

theorem isPiece_up : IsPiece ".." := ⟨by decide, by decide⟩

theorem IsPiece.toList_ne_nil (h : IsPiece piece) : piece.toList ≠ [] := by
  intro hnil
  exact h.ne_empty (String.toList_eq_nil_iff.mp hnil)

theorem IsPiece.isAbsolute (h : IsPiece piece) : isAbsolute piece = false := by
  rw [Path.isAbsolute, beq_eq_false_iff_ne]
  intro hhead
  exact h.slash (List.mem_of_mem_head? hhead)

theorem IsName.toList_ne_nil (h : IsName name) : name.toList ≠ [] := h.isPiece.toList_ne_nil

theorem IsName.isStay (h : IsName name) : isStay name.toList = false := by
  have hhere : name.toList ≠ ['.'] := fun heq => h.ne_here (String.toList_inj.mp heq)
  simp [Path.isStay, h.toList_ne_nil, hhere]

theorem IsName.isAbsolute (h : IsName name) : isAbsolute name = false := h.isPiece.isAbsolute

/-! ## The pieces of a path that is joined to -/

/-- The pieces of a path that names can follow: all but an empty one at the end. -/
def stem (path : String) : List (List Char) :=
  if (Text.splitAt '/' path.toList).getLast? = some [] then (Text.splitAt '/' path.toList).dropLast
  else Text.splitAt '/' path.toList

theorem slash_notMem_stem {path : String} {piece : List Char} (h : piece ∈ stem path) :
    '/' ∉ piece := by
  rw [stem] at h
  split at h
  · exact Text.notMem_of_mem_splitAt (List.dropLast_subset _ h)
  · exact Text.notMem_of_mem_splitAt h

/-- The pieces of a path are those that names can follow, and perhaps an empty one. -/
theorem splitAt_eq_stem (path : String) :
    Text.splitAt '/' path.toList = stem path ++ [[]] ∨
      Text.splitAt '/' path.toList = stem path := by
  rw [stem]
  split
  · rename_i h
    left
    exact (List.dropLast_append_getLast? [] h).symm
  · exact Or.inr rfl

/-- Only nothing has no pieces that names can follow. -/
theorem stem_eq_nil_iff {path : String} : stem path = [] ↔ path = "" := by
  constructor
  · intro h
    have htext := @Text.join_splitAt '/' path.toList
    rcases splitAt_eq_stem path with hsplit | hsplit
    · rw [hsplit, h] at htext
      exact String.toList_eq_nil_iff.mp htext.symm
    · exact absurd (hsplit.trans h) (Text.splitAt_ne_nil _)
  · rintro rfl
    decide

/-- A piece that is joined to a path whose last piece is empty follows its text. -/
theorem toList_join_of_empty {path : String} {init : List (List Char)}
    (hpath : Text.splitAt '/' path.toList = init ++ [[]]) (h : IsPiece piece) :
    (join path piece).toList = path.toList ++ piece.toList := by
  obtain ⟨-, -, htext⟩ := Text.splitAt_eq_iff.mp hpath
  have hend : (path.isEmpty || path.toList.getLast? == some '/') = true := by
    by_cases hinit : init = []
    · rw [hinit] at htext
      have hnil : path.toList = [] := htext.symm
      rw [String.toList_eq_nil_iff.mp hnil]
      rfl
    · rw [Text.join_append _ hinit (List.cons_ne_nil _ _)] at htext
      rw [← htext]
      simp [Text.join]
  rw [join, h.isAbsolute, if_neg Bool.false_ne_true, if_pos hend, String.toList_append]

/-- A piece that is joined to a path whose last piece is not empty follows a slash. -/
theorem toList_join_of_ne {path : String} {init : List (List Char)} {last : List Char}
    (hpath : Text.splitAt '/' path.toList = init ++ [last]) (hlast : last ≠ [])
    (h : IsPiece piece) : (join path piece).toList = path.toList ++ '/' :: piece.toList := by
  obtain ⟨-, hslash, htext⟩ := Text.splitAt_eq_iff.mp hpath
  -- the path ends as its last piece does
  obtain ⟨front, hfront⟩ : ∃ front, path.toList = front ++ last := by
    by_cases hinit : init = []
    · exact ⟨[], by rw [← htext, hinit]; rfl⟩
    · rw [Text.join_append _ hinit (List.cons_ne_nil _ _)] at htext
      exact ⟨_, htext.symm⟩
  have hend : (path.isEmpty || path.toList.getLast? == some '/') = false := by
    have hne : path.toList ≠ [] := by
      rw [hfront]
      exact List.append_ne_nil_of_right_ne_nil _ hlast
    have hempty : path.isEmpty = false := by
      rw [Bool.eq_false_iff, ne_eq, String.isEmpty_iff, ← String.toList_eq_nil_iff]
      exact hne
    rw [hempty, Bool.false_or, beq_eq_false_iff_ne, hfront, List.getLast?_append_of_ne_nil _ hlast]
    intro heq
    exact hslash last (List.mem_append_right _ List.mem_cons_self) (List.mem_of_getLast? heq)
  rw [join, h.isAbsolute, if_neg Bool.false_ne_true, hend, if_neg Bool.false_ne_true,
    String.toList_append, String.toList_append, List.append_assoc]
  rfl

/-- **A piece that is joined to a path comes behind its pieces.** -/
theorem splitAt_join (path : String) (h : IsPiece piece) :
    Text.splitAt '/' (join path piece).toList = stem path ++ [piece.toList] := by
  rw [Text.splitAt_eq_iff]
  refine ⟨List.concat_ne_nil _ _, ?_, ?_⟩
  · intro t ht
    rcases List.mem_append.mp ht with ht | ht
    · exact slash_notMem_stem ht
    · rw [List.mem_singleton.mp ht]
      exact h.slash
  obtain ⟨init, last, hpath⟩ := List.eq_nil_or_concat'
    (Text.splitAt '/' path.toList) |>.resolve_left (Text.splitAt_ne_nil _)
  obtain ⟨-, -, htext⟩ := Text.splitAt_eq_iff.mp hpath
  by_cases hlast : last = []
  · subst hlast
    have hstem : stem path = init := by simp [stem, hpath]
    rw [toList_join_of_empty hpath h, hstem, ← htext]
    by_cases hinit : init = []
    · rw [hinit]
      rfl
    · rw [Text.join_append _ hinit (List.cons_ne_nil _ _),
        Text.join_append _ hinit (List.cons_ne_nil _ _)]
      simp [Text.join]
  · have hstem : stem path = init ++ [last] := by simp [stem, hpath, hlast]
    have hne : init ++ [last] ≠ [] := List.concat_ne_nil _ _
    rw [toList_join_of_ne hpath hlast h, hstem, ← htext,
      Text.join_append _ hne (List.cons_ne_nil _ _), List.append_assoc]
    rfl

/-- A path that a piece is joined to is made of the pieces of the path and this one. -/
theorem toList_join (path : String) (h : IsPiece piece) :
    (join path piece).toList = Text.join ['/'] (stem path ++ [piece.toList]) := by
  rw [← splitAt_join path h, Text.join_splitAt]

theorem stem_join (path : String) (h : IsPiece piece) :
    stem (join path piece) = stem path ++ [piece.toList] := by
  rw [stem, splitAt_join path h, if_neg]
  rw [List.getLast?_concat, Option.some.injEq]
  exact h.toList_ne_nil

/-- Names that are joined to a path come behind its pieces. -/
theorem stem_foldl_join (path : String) {names : List String} (h : ∀ n ∈ names, IsName n) :
    stem (names.foldl join path) = stem path ++ names.map String.toList := by
  induction names generalizing path with
  | nil => simp
  | cons n names ih =>
    obtain ⟨hn, hnames⟩ := List.forall_mem_cons.mp h
    rw [List.foldl_cons, ih _ hnames, stem_join path hn.isPiece, List.map_cons, List.append_assoc]
    rfl

/-! ## How a path that is joined to begins -/

/-- The text of a path is at the front when a piece is joined to it. -/
theorem toList_front_join (path : String) (h : IsPiece piece) :
    path.toList <+: (join path piece).toList := by
  rw [join, h.isAbsolute, if_neg Bool.false_ne_true]
  split
  · rw [String.toList_append]
    exact List.prefix_append _ _
  · rw [String.toList_append, String.toList_append, List.append_assoc]
    exact List.prefix_append _ _

/-- The text of what is joined to a path is at the end. -/
theorem toList_end_join (base path : String) : path.toList <:+ (join base path).toList := by
  rw [join]
  split
  · exact List.suffix_refl _
  · split
    · rw [String.toList_append]
      exact List.suffix_append _ _
    · rw [String.toList_append, String.toList_append]
      exact List.suffix_append _ _

/-- The text of a path is at the front when names are joined to it. -/
theorem toList_front_foldl_join (path : String) {names : List String} (h : ∀ n ∈ names, IsName n) :
    path.toList <+: (names.foldl join path).toList := by
  induction names generalizing path with
  | nil => exact List.prefix_refl _
  | cons n names ih =>
    obtain ⟨hn, hnames⟩ := List.forall_mem_cons.mp h
    exact (toList_front_join path hn.isPiece).trans (ih _ hnames)

theorem join_ne_empty (path : String) (h : IsName name) : join path name ≠ "" := by
  intro heq
  have hsplit := splitAt_join path h.isPiece
  rw [heq] at hsplit
  have hlast := congrArg List.getLast? hsplit
  rw [List.getLast?_concat] at hlast
  exact h.toList_ne_nil (Option.some.inj hlast).symm

/-- Two pieces with a slash between them are joined one after the other. -/
theorem join_append (path : String) (h : IsPiece piece) {rest : String}
    (hrest : isAbsolute rest = false) :
    join path (piece ++ "/" ++ rest) = join (join path piece) rest := by
  obtain ⟨c, s, hpiece⟩ := List.exists_cons_of_ne_nil h.toList_ne_nil
  have hboth : isAbsolute (piece ++ "/" ++ rest) = false := by
    have hhead := h.isAbsolute
    rw [isAbsolute, hpiece] at hhead
    rw [isAbsolute, String.toList_append, String.toList_append, hpiece]
    exact hhead
  -- the path ends as the piece does behind it
  have hend : ∀ front : String,
      ((front ++ piece).isEmpty || (front ++ piece).toList.getLast? == some '/') = false := by
    intro front
    have hempty : (front ++ piece).isEmpty = false := by
      rw [Bool.eq_false_iff, ne_eq, String.isEmpty_iff, ← String.toList_eq_nil_iff,
        String.toList_append, hpiece]
      exact List.append_ne_nil_of_right_ne_nil _ (List.cons_ne_nil _ _)
    rw [hempty, Bool.false_or, beq_eq_false_iff_ne, String.toList_append,
      List.getLast?_append_of_ne_nil _ h.toList_ne_nil]
    exact fun hlast => h.slash (List.mem_of_getLast? hlast)
  rw [join, hboth, join, hrest, join, h.isAbsolute]
  simp only [Bool.false_eq_true, if_false]
  split
  · rw [hend, if_neg Bool.false_ne_true, ← String.append_assoc, ← String.append_assoc]
  · rw [hend, if_neg Bool.false_ne_true, ← String.append_assoc, ← String.append_assoc]

theorem isAbsolute_of_front {front path : String} (hne : front ≠ "")
    (h : front.toList <+: path.toList) : isAbsolute front = isAbsolute path := by
  obtain ⟨c, s, hfront⟩ := List.exists_cons_of_ne_nil (mt String.toList_eq_nil_iff.mp hne)
  obtain ⟨t, ht⟩ := h
  rw [isAbsolute, isAbsolute, ← ht, hfront]
  rfl

/-- A path begins at the root when a piece is joined to it if it does so itself. -/
theorem isAbsolute_join (path : String) (h : IsPiece piece) :
    isAbsolute (join path piece) = isAbsolute path := by
  by_cases hpath : path = ""
  · have hjoin : join path piece = piece := by
      rw [join, h.isAbsolute, if_neg Bool.false_ne_true, hpath]
      exact String.empty_append
    rw [hjoin, hpath, h.isAbsolute]
    rfl
  · exact (isAbsolute_of_front hpath (toList_front_join path h)).symm

/-- The pieces that a beginning is made of. -/
def leadPieces : Lead → List (List Char)
  | .root => [[]]
  | .here => [['.']]
  | .plain => []

/-- The beginning of a path that names are joined to is made of its first piece, if that is a
special one.  It does not depend on the name. -/
theorem layout_join (path : String) :
    ∃ lead pieces, stem path = leadPieces lead ++ pieces ∧
      (lead = .plain → ∀ first ∈ pieces.head?, isStay first = false) ∧
      ∀ name, IsName name → layout (join path name) = (lead, pieces ++ [name.toList]) := by
  cases hstem : stem path with
  | nil =>
    refine ⟨.plain, [], rfl, fun _ first hfirst => absurd hfirst (by simp), fun name h => ?_⟩
    have hhere : name.toList ≠ ['.'] := fun heq => h.ne_here (String.toList_inj.mp heq)
    rw [layout, splitAt_join path h.isPiece, hstem]
    simp [h.toList_ne_nil, hhere]
  | cons first rest =>
    by_cases hroot : first = []
    · refine ⟨.root, rest, by rw [hroot]; rfl, fun hplain => absurd hplain (by decide),
        fun name h => ?_⟩
      rw [layout, splitAt_join path h.isPiece, hstem, hroot]
      cases rest <;> rfl
    by_cases hdot : first = ['.']
    · refine ⟨.here, rest, by rw [hdot]; rfl, fun hplain => absurd hplain (by decide),
        fun name h => ?_⟩
      rw [layout, splitAt_join path h.isPiece, hstem, hdot]
      rfl
    · refine ⟨.plain, first :: rest, rfl, fun _ f hf => ?_, fun name h => ?_⟩
      · obtain rfl : first = f := Option.some.inj hf
        simp [isStay, hroot, hdot]
      · rw [layout, splitAt_join path h.isPiece, hstem]
        simp [hroot, hdot]

/-- **The file name of a path that a name is joined to is the name.** -/
theorem fileName?_join (path : String) (h : IsName name) :
    fileName? (join path name) = some name := by
  obtain ⟨lead, pieces, -, -, hlayout⟩ := layout_join path
  have hup : name.toList ≠ ['.', '.'] := fun heq => h.ne_up (String.toList_inj.mp heq)
  have hpart : Part.ofPiece name.toList = .name name := by
    rw [Part.ofPiece, if_neg hup, String.ofList_toList]
  have hlast : (parts (join path name)).getLast? = some (.name name) := by
    rw [parts, hlayout name h]
    simp [h.isStay, hpart]
  rw [fileName?, hlast]
  rfl

theorem fileName?_of_isName (h : IsName name) : fileName? name = some name := by
  have hjoin : join "" name = name := by
    rw [join, h.isAbsolute, if_neg Bool.false_ne_true]
    exact String.empty_append
  rw [← fileName?_join "" h, hjoin]

/-! ## The path above -/

/-- A path is made of its beginning and its pieces. -/
theorem ofLayout_layout (path : String) : ofLayout (layout path).1 (layout path).2 = path := by
  have htext := @Text.join_splitAt '/' path.toList
  rw [layout]
  split
  · rename_i h
    rw [h] at htext
    exact String.toList_inj.mp (String.toList_ofList.trans htext)
  · rename_i h
    rw [h] at htext
    exact String.toList_inj.mp (String.toList_ofList.trans htext)
  · exact String.toList_inj.mp (String.toList_ofList.trans htext)

/-- Pieces with a beginning are at the front of more pieces with it. -/
theorem toList_ofLayout_front (lead : Lead) (as bs : List (List Char)) :
    (ofLayout lead as).toList <+: (ofLayout lead (as ++ bs)).toList := by
  cases lead with
  | root =>
    rw [ofLayout, ofLayout, String.toList_ofList, String.toList_ofList, List.cons_prefix_cons]
    exact ⟨rfl, Text.join_prefix_join_append _ as bs⟩
  | here =>
    rw [ofLayout, ofLayout, String.toList_ofList, String.toList_ofList]
    exact Text.join_prefix_join_append _ (['.'] :: as) bs
  | plain =>
    rw [ofLayout, ofLayout, String.toList_ofList, String.toList_ofList]
    exact Text.join_prefix_join_append _ as bs

/-- The text of a path with pieces is made of all its pieces. -/
theorem toList_ofLayout (lead : Lead) {pieces : List (List Char)} (h : pieces ≠ []) :
    (ofLayout lead pieces).toList = Text.join ['/'] (leadPieces lead ++ pieces) := by
  cases lead with
  | root =>
    rw [ofLayout, String.toList_ofList, leadPieces, List.singleton_append, Text.join_cons _ _ h]
    rfl
  | here => rw [ofLayout, String.toList_ofList]; rfl
  | plain => rw [ofLayout, String.toList_ofList]; rfl

theorem slash_notMem_leadPieces {lead : Lead} {piece : List Char} (h : piece ∈ leadPieces lead) :
    '/' ∉ piece := by
  cases lead <;> simp [leadPieces] at h <;> simp [h]

/-- The pieces of a path that is made of pieces. -/
theorem stem_ofLayout (lead : Lead) {pieces : List (List Char)} (hslash : ∀ p ∈ pieces, '/' ∉ p)
    (hend : ∀ last ∈ pieces.getLast?, last ≠ []) :
    stem (ofLayout lead pieces) = leadPieces lead ++ pieces := by
  by_cases hne : pieces = []
  · rw [hne]
    cases lead <;> decide
  · have hsplit : Text.splitAt '/' (ofLayout lead pieces).toList = leadPieces lead ++ pieces := by
      rw [toList_ofLayout lead hne]
      refine Text.splitAt_join (List.append_ne_nil_of_right_ne_nil _ hne) ?_
      intro p hp
      rcases List.mem_append.mp hp with hp | hp
      · exact slash_notMem_leadPieces hp
      · exact hslash p hp
    rw [stem, hsplit, List.getLast?_append_of_ne_nil _ hne, if_neg]
    intro hlast
    exact hend [] hlast rfl

/-- A path that is made of pieces does not end in slashes, if it is not the root. -/
theorem withoutEndSlashes_ofLayout (lead : Lead) {pieces : List (List Char)}
    (hslash : ∀ p ∈ pieces, '/' ∉ p) (hend : ∀ last ∈ pieces.getLast?, last ≠ []) :
    FileSystem.withoutEndSlashes (ofLayout lead pieces) = ofLayout lead pieces := by
  by_cases hne : pieces = []
  · rw [hne]
    cases lead <;> decide
  obtain ⟨init, last, rfl⟩ := (List.eq_nil_or_concat' pieces).resolve_left hne
  have hlast : last ≠ [] := hend last List.getLast?_concat
  have htext : (ofLayout lead (init ++ [last])).toList.getLast? = last.getLast? := by
    rw [toList_ofLayout lead hne, ← List.append_assoc, Text.getLast?_join_concat _ _ hlast]
  have hkeep : Text.dropEndWhile (· == '/') (ofLayout lead (init ++ [last])).toList =
      (ofLayout lead (init ++ [last])).toList := by
    refine List.rdropWhile_eq_self_iff.mpr fun hl heq => ?_
    have hmem : '/' ∈ last := by
      apply List.mem_of_getLast?
      rw [← htext, List.getLast?_eq_some_getLast hl, beq_iff_eq.mp heq]
    exact hslash last (List.mem_append_right _ List.mem_cons_self) hmem
  rw [FileSystem.withoutEndSlashes, hkeep]
  split
  · rename_i hnil
    rw [hnil, eq_comm, List.getLast?_nil, List.getLast?_eq_none_iff] at htext
    exact absurd htext hlast
  · exact String.ofList_toList

/-- **The path above one that a name is joined to** does not depend on the name.  Its text is at the
front of that one, it has the pieces of the path without the ones at the end that lead nowhere, and
no slashes at its end; it is nothing only if the path is. -/
theorem parent?_join (path : String) :
    ∃ parent stays, (∀ name, IsName name → parent? (join path name) = some parent ∧
      parent.toList <+: (join path name).toList) ∧ stem path = stem parent ++ stays ∧
      (∀ piece ∈ stays, isStay piece = true) ∧ (parent = "" → path = "") ∧
      FileSystem.withoutEndSlashes parent = parent := by
  obtain ⟨lead, pieces, hstem, hplain, hlayout⟩ := layout_join path
  have hpieces : pieces.rdropWhile isStay ++ pieces.rtakeWhile isStay = pieces :=
    List.rdropWhile_append_rtakeWhile
  have hslash : ∀ p ∈ pieces.rdropWhile isStay, '/' ∉ p := by
    intro p hp
    have hmem : p ∈ stem path := by
      rw [hstem]
      exact List.mem_append_right _ ((List.rdropWhile_prefix _ _).subset hp)
    exact slash_notMem_stem hmem
  have hend : ∀ last ∈ (pieces.rdropWhile isStay).getLast?, last ≠ [] := by
    rintro last hlast rfl
    obtain ⟨hne, heq⟩ := List.mem_getLast?_eq_getLast hlast
    exact List.rdropWhile_last_not _ _ hne (by rw [← heq]; rfl)
  have hparent := stem_ofLayout lead hslash hend
  refine ⟨ofLayout lead (pieces.rdropWhile isStay), pieces.rtakeWhile isStay,
    fun name h => ⟨?_, ?_⟩, ?_, ?_, ?_, ?_⟩
  · rw [parent?, ancestors, hlayout name h]
    simp [above, h.isStay, List.rdropWhile]
  · rw [← ofLayout_layout (join path name), hlayout name h]
    refine (List.IsPrefix.trans ?_ (toList_ofLayout_front lead pieces [name.toList]))
    have hfront := toList_ofLayout_front lead (pieces.rdropWhile isStay) (pieces.rtakeWhile isStay)
    rwa [hpieces] at hfront
  · rw [hparent, List.append_assoc, hpieces, hstem]
  · intro p hp
    exact List.mem_rtakeWhile_imp hp
  · intro hnone
    have hempty : stem "" = [] := by decide
    rw [hnone, hempty, eq_comm, List.append_eq_nil_iff, List.rdropWhile_eq_nil_iff] at hparent
    obtain ⟨hlead, hstays⟩ := hparent
    have hnil : pieces = [] := by
      cases pieces with
      | nil => rfl
      | cons first rest =>
        have hfirst := hplain (by cases lead <;> first | rfl | exact absurd hlead (by decide))
          first rfl
        rw [hstays first List.mem_cons_self] at hfirst
        exact absurd hfirst (by decide)
    rw [hlead, hnil, List.append_nil] at hstem
    exact stem_eq_nil_iff.mp hstem
  · exact withoutEndSlashes_ofLayout lead hslash hend

/-- A path that a name is joined to does not end in slashes. -/
theorem withoutEndSlashes_join (path : String) (h : IsName name) :
    FileSystem.withoutEndSlashes (join path name) = join path name := by
  obtain ⟨lead, pieces, hstem, -, hlayout⟩ := layout_join path
  have htext := ofLayout_layout (join path name)
  rw [hlayout name h] at htext
  have hkeep : FileSystem.withoutEndSlashes (ofLayout lead (pieces ++ [name.toList])) =
      ofLayout lead (pieces ++ [name.toList]) := by
    refine withoutEndSlashes_ofLayout lead (List.forall_mem_append.mpr ⟨fun p hp => ?_, ?_⟩) ?_
    · exact slash_notMem_stem (by rw [hstem]; exact List.mem_append_right _ hp)
    · exact List.forall_mem_singleton.mpr h.slash
    · rw [List.getLast?_concat]
      exact fun last hlast => Option.some.inj hlast ▸ h.toList_ne_nil
  rwa [htext] at hkeep

end Path

/-! ## Texts that are paths -/

namespace FileSystem

/-- A text is a path if it is not nothing, not too long, and no character in it ends paths. -/
theorem pathFault?_eq_none_iff {path : String} :
    pathFault? path = none ↔
      '\x00' ∉ path.toList ∧ path ≠ "" ∧ path.utf8ByteSize ≤ pathLimit := by
  rw [pathFault?, List.contains_eq_mem]
  by_cases hnul : '\x00' ∈ path.toList
  · simp [hnul]
  by_cases hempty : path = ""
  · simp [hempty]
  · simp [hnul, hempty]

/-- A text at the front of a path is a path. -/
theorem pathFault?_eq_none_of_front {front path : String} (hne : front ≠ "")
    (h : front.toList <+: path.toList) (hpath : pathFault? path = none) :
    pathFault? front = none := by
  obtain ⟨rest, hrest⟩ := h
  have htext : path = front ++ String.ofList rest := by
    rw [← String.toList_inj, String.toList_append, String.toList_ofList, hrest]
  rw [pathFault?_eq_none_iff] at hpath ⊢
  obtain ⟨hnul, -, hsize⟩ := hpath
  refine ⟨?_, hne, ?_⟩
  · rw [← hrest, List.mem_append, not_or] at hnul
    exact hnul.1
  · rw [htext, String.utf8ByteSize_append] at hsize
    omega

/-- A name that is not longer can be joined to a path, also when the pieces at the end
of the path are left out. -/
theorem pathFault?_join_of_stem {path front n n' : String} {rest : List (List Char)}
    (hstem : Path.stem path = Path.stem front ++ rest) (hn : Path.IsName n) (hn' : Path.IsName n')
    (hnul : '\x00' ∉ n'.toList) (hsize : n'.utf8ByteSize ≤ n.utf8ByteSize)
    (h : pathFault? (Path.join path n) = none) : pathFault? (Path.join front n') = none := by
  obtain ⟨lead, hlead⟩ := Text.exists_join_append_eq ['/'] (Path.stem front)
  have htext : (Path.join path n).toList = lead ++ Text.join ['/'] (rest ++ [n.toList]) := by
    rw [Path.toList_join path hn.isPiece, hstem, List.append_assoc,
      hlead _ (List.concat_ne_nil _ _)]
  have htext' : (Path.join front n').toList = lead ++ n'.toList := by
    rw [Path.toList_join front hn'.isPiece, hlead _ (List.cons_ne_nil _ _)]
    rfl
  obtain ⟨between, hbetween⟩ := Text.exists_join_append_eq ['/'] rest
  rw [hbetween _ (List.cons_ne_nil _ _)] at htext
  have hpath : Path.join path n = String.ofList lead ++ (String.ofList between ++ n) := by
    rw [← String.toList_inj, htext]
    simp [Text.join]
  have hfront : Path.join front n' = String.ofList lead ++ n' := by
    rw [← String.toList_inj, htext']
    simp
  rw [pathFault?_eq_none_iff] at h ⊢
  obtain ⟨hnul₀, -, hsize₀⟩ := h
  refine ⟨?_, Path.join_ne_empty front hn', ?_⟩
  · rw [htext', List.mem_append, not_or]
    rw [htext, List.mem_append, not_or] at hnul₀
    exact ⟨hnul₀.1, hnul⟩
  · rw [hpath, String.utf8ByteSize_append, String.utf8ByteSize_append] at hsize₀
    rw [hfront, String.utf8ByteSize_append]
    omega

end FileSystem

end ComponentStories
