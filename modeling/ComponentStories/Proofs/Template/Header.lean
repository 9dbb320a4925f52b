import ComponentStories.Proofs.Json.Shape
import ComponentStories.Proofs.Template.Opening

/-
# Reading a header

The title in a header is a quoted text.  The reader looks for the quote that closes it and decodes
what stands between the quotes.  A text that was written quoted is found whole, up to its own
closing quote (`titleRest?_escapeAll_append`), and is decoded to itself (`decodeTitle_encode`), so a
header that is written at the front is read as it was written, whatever follows it
(`header?_append`).
-/

namespace ComponentStories.Template

open ComponentStories.Text

/-! ## The closing quote -/

/-- A character that neither closes nor escapes is passed over. -/
theorem titleRest?_cons {c : Char} (hq : c ≠ '"') (he : c ≠ '\\') (s : List Char) :
    titleRest? (c :: s) = (titleRest? s).map (c :: ·) := by
  rw [titleRest?]
  · exact hq
  · exact fun h => absurd h he
  · exact fun _ _ h => absurd h he

theorem titleRest?_escape {e : Char} (he : e ≠ '\n') (s : List Char) :
    titleRest? ('\\' :: e :: s) = (titleRest? s).map fun t => '\\' :: e :: t := by
  rw [titleRest?, if_neg he]

/-- Characters that neither close nor escape are passed over. -/
theorem titleRest?_append {a : List Char} (hq : '"' ∉ a) (he : '\\' ∉ a) (s : List Char) :
    titleRest? (a ++ s) = (titleRest? s).map (a ++ ·) := by
  induction a with
  | nil => exact Option.map_id'.symm
  | cons c a ih =>
    rw [List.mem_cons, not_or] at hq he
    rw [List.cons_append, titleRest?_cons (Ne.symm hq.1) (Ne.symm he.1), ih hq.2 he.2,
      Option.map_map]
    rfl

/-- A written character is passed over. -/
theorem titleRest?_escape_append (c : Char) (s : List Char) :
    titleRest? (Quoted.escape c ++ s) = (titleRest? s).map (Quoted.escape c ++ ·) := by
  rcases Quoted.escape_eq c with ⟨hc, hq, he, -⟩ | ⟨e, u, hc, he, hu⟩
  · rw [hc]
    exact titleRest?_cons hq he s
  · have hline : e ≠ '\n' := by
      rintro rfl
      exact absurd he (by decide)
    have hquote : '"' ∉ u := fun h => absurd (hu _ h) (by decide)
    have hback : '\\' ∉ u := fun h => absurd (hu _ h) (by decide)
    rw [hc, List.cons_append, List.cons_append, titleRest?_escape hline,
      titleRest?_append hquote hback, Option.map_map]
    rfl

/-- **The quote that closes a written text is found**: none of the text's
own quotes is taken for it. -/
theorem titleRest?_escapeAll_append (s r : List Char) :
    titleRest? (Quoted.escapeAll s ++ '"' :: r) = some (Quoted.escapeAll s ++ ['"']) := by
  induction s with
  | nil => rfl
  | cons c s ih =>
    have hsplit : ∀ t, Quoted.escapeAll (c :: s) ++ t =
        Quoted.escape c ++ (Quoted.escapeAll s ++ t) := by
      intro t
      rw [Quoted.escapeAll, List.flatMap_cons, List.append_assoc]
      rfl
    rw [hsplit, hsplit, titleRest?_escape_append, ih]
    rfl

/-! ## The title -/

theorem decodeTitle_encode (s : List Char) : decodeTitle (Quoted.encode s) = s := by
  have h := Quoted.decode_encode s []
  rw [List.append_nil] at h
  rw [decodeTitle, h]

/-- A quoted title is read back, whatever follows it. -/
theorem title?_encode_append (s r : List Char) : title? (Quoted.encode s ++ r) = some s := by
  have hsplit : Quoted.encode s ++ r = '"' :: (Quoted.escapeAll s ++ '"' :: r) := by
    rw [Quoted.encode, List.cons_append, List.cons_append, List.append_assoc]
    rfl
  rw [hsplit, title?, titleRest?_escapeAll_append, Option.map_some]
  exact congrArg some (decodeTitle_encode s)

/-- A character that is no quote and no backslash is read as itself, if it is no control. -/
theorem pieces_cons {c : Char} (hq : c ≠ '"') (he : c ≠ '\\') (s : List Char) :
    Quoted.pieces (c :: s) =
      if c.toNat < 0x20 then none
      else (Quoted.pieces s).map fun x => (Quoted.Piece.char c :: x.1, x.2) := by
  rw [Quoted.pieces]
  · cases Quoted.pieces s with
    | none => rfl
    | some x => rfl
  · exact hq
  · exact fun h => absurd h he
  · exact fun _ _ _ _ _ h => absurd h he
  · exact fun _ _ h => absurd h he

/-- Text without quotes and backslashes is read as its characters, if it is read. -/
theorem eq_of_pieces_append {a r : List Char} (hq : '"' ∉ a) (he : '\\' ∉ a)
    {x : List Quoted.Piece × List Char} (h : Quoted.pieces (a ++ '"' :: r) = some x) :
    x = (a.map Quoted.Piece.char, r) := by
  induction a generalizing x with
  | nil =>
    rw [List.nil_append, Quoted.pieces] at h
    exact (Option.some.inj h).symm
  | cons c a ih =>
    rw [List.mem_cons, not_or] at hq he
    rw [List.cons_append, pieces_cons (Ne.symm hq.1) (Ne.symm he.1)] at h
    split at h
    · exact absurd h (by simp)
    · obtain ⟨y, hy, rfl⟩ := Option.map_eq_some_iff.mp h
      rw [ih hq.2 he.2 hy, List.map_cons]

theorem joinPieces_map_char (s : List Char) :
    Quoted.joinPieces (s.map Quoted.Piece.char) = some s := by
  induction s with
  | nil => rfl
  | cons c s ih => rw [List.map_cons, Quoted.joinPieces, ih, Option.map_some]

/-- A title without quotes and backslashes stands for itself.  One that holds a control is no quoted
text, and is what stands between the quotes. -/
theorem decodeTitle_of_notMem {a : List Char} (hq : '"' ∉ a) (he : '\\' ∉ a) :
    decodeTitle ('"' :: (a ++ ['"'])) = a := by
  rw [decodeTitle, Quoted.decode, Option.bind_eq_bind]
  cases h : Quoted.pieces (a ++ ['"']) with
  | some x =>
    rw [eq_of_pieces_append hq he h, Option.bind_some]
    dsimp only
    rw [joinPieces_map_char]
    rfl
  | none =>
    have hother : ∀ c ∈ a, (c == '"') = false := by
      intro c hc
      rw [beq_eq_false_iff_ne]
      rintro rfl
      exact hq hc
    exact trimWhile_append (l := ['"']) (r := ['"']) (by decide) (by decide)
      (fun c hc => hother c (List.mem_of_mem_head? hc))
      (fun c hc => hother c (List.mem_reverse.mp (List.mem_of_mem_head? hc)))

/-- A title without quotes and backslashes is read as it stands between double quotes. -/
theorem title?_append_of_notMem {a : List Char} (hq : '"' ∉ a) (he : '\\' ∉ a) (r : List Char) :
    title? ('"' :: (a ++ '"' :: r)) = some a := by
  have hclose : titleRest? ('"' :: r) = some ['"'] := rfl
  rw [title?, titleRest?_append hq he, hclose, Option.map_some, Option.map_some,
    decodeTitle_of_notMem hq he]

/-! ## The header -/

/-- The opening of a tag as it is written in documents. -/
theorem opens_written (keyword : List Char) {id : List Char} (hid : IsWord id) :
    Opens keyword id ("\x7b% ".toList ++ (keyword ++ ([' '] ++ (id ++ " with \x7b".toList)))) :=
  Opens.intro [] [' '] [' '] [' '] [' '] (Or.inl rfl) (by decide) ⟨by decide, by decide⟩ hid
    ⟨by decide, by decide⟩ (by decide)

/-- The header that begins at the front of a text is the first one. -/
theorem header?_eq_of_headerHere? {s : List Char} {x : List Char × List Char}
    (h : headerHere? s = some x) : header? s = some x := by
  cases s with
  | nil =>
    have hnone : headerHere? [] = none := rfl
    rw [hnone] at h
    exact absurd h (by simp)
  | cons c s => rw [header?, h, Option.some_or]

/-- A header at the front is read with the title that is read behind its key. -/
theorem header?_append_title {id : List Char} (hid : IsWord id) {title r : List Char}
    (htitle : title? ('"' :: r) = some title) :
    header? ("\x7b% stories ".toList ++ (id ++ (" with \x7b title: ".toList ++ '"' :: r))) =
      some (id, title) := by
  have hopens : Opens "stories".toList id
      ("\x7b% stories ".toList ++ (id ++ " with \x7b".toList)) :=
    opens_written "stories".toList hid
  have hwith : " with \x7b title: ".toList = " with \x7b".toList ++ " title: ".toList := by decide
  have hopen := openTag?_append isWord_stories hopens (" title: ".toList ++ '"' :: r)
  have hblank : skipBlanks (" title: ".toList ++ '"' :: r) = "title:".toList ++ (' ' :: '"' :: r) :=
    rfl
  have hquote : skipBlanks (' ' :: '"' :: r) = '"' :: r := rfl
  rw [List.append_assoc, List.append_assoc] at hopen
  apply header?_eq_of_headerHere?
  -- the tag is opened, and behind its brace stands the key of the title
  rw [hwith, List.append_assoc, headerHere?, hopen, Option.bind_eq_bind, Option.bind_some]
  dsimp only
  rw [hblank, dropLead?_append, Option.bind_eq_bind, Option.bind_some, hquote, htitle]
  rfl

/-- **A header at the front is read**: its identifier and its title are those that were written. -/
theorem header?_append {id : List Char} (hid : IsWord id) (title r : List Char) :
    header? ("\x7b% stories ".toList ++ (id ++ (" with \x7b title: ".toList ++
      (Quoted.encode title ++ r)))) = some (id, title) :=
  header?_append_title hid (title?_encode_append title r)

end ComponentStories.Template
