import ComponentStories.FileName.Bytes
import ComponentStories.Proofs.FileName
import ComponentStories.Proofs.FileSystem.Parts
import ComponentStories.Proofs.Text.Utf8

/-
# Machine names of paths in bytes

The name at the end of a path is found in its bytes, whatever these are
(`Path.fileNameBytes?_eq_some_iff`), and in those of a text it is the name at the end of the text
(`Path.fileNameBytes?_bytes`).  The machine name that stands in it is told without dividing the name
inside a character (`FileName.exists_machineNameOf_eq_ok`).
-/

namespace ComponentStories

open Utf8 (encode_of_lt)

/-! ## The name at the end -/

namespace Path

/-- The name at the end of a path, in bytes.  It is not empty and neither of the pieces
that lead nowhere and up. -/
structure EndsInName (path name : List UInt8) : Prop where
  /-- No slash is in the name. -/
  slash : slashByte ∉ name
  /-- The name is not empty. -/
  ne_nil : name ≠ []
  /-- The name is not that of the directory itself. -/
  ne_here : name ≠ [dotByte]
  /-- The name is not that of the directory above. -/
  ne_up : name ≠ [dotByte, dotByte]
  /-- The name begins the path or stands behind a slash.  Behind it there is nothing but slashes,
  each with or without a dot behind it. -/
  place : ∃ (front : List UInt8) (stays : List (List UInt8)),
    path = front ++ name ++ stays.flatMap (slashByte :: ·) ∧
      (front = [] ∨ ∃ dirs, front = dirs ++ [slashByte]) ∧
      ∀ stay ∈ stays, stay = [] ∨ stay = [dotByte]

theorem isStayBytes_iff {piece : List UInt8} :
    isStayBytes piece = true ↔ piece = [] ∨ piece = [dotByte] := by
  rw [isStayBytes, Bool.or_eq_true, beq_iff_eq, beq_iff_eq]

/-- No piece holds a slash. -/
theorem slash_notMem_of_mem_splitOn {path piece : List UInt8} (h : piece ∈ path.splitOn slashByte) :
    slashByte ∉ piece := by
  induction path generalizing piece with
  | nil =>
    rw [List.splitOn_nil, List.mem_singleton] at h
    rw [h]
    exact List.not_mem_nil
  | cons b path ih =>
    rw [List.splitOn_cons_eq_if_modifyHead] at h
    split at h
    · rcases List.mem_cons.mp h with rfl | h
      · exact List.not_mem_nil
      · exact ih h
    · rename_i hb
      obtain ⟨first, rest, heq⟩ := List.exists_cons_of_ne_nil (List.splitOn_ne_nil slashByte path)
      rw [heq] at h ih
      rcases List.mem_cons.mp h with rfl | h
      · rw [List.mem_cons, not_or]
        exact ⟨fun hslash => hb (beq_iff_eq.mpr hslash.symm), ih List.mem_cons_self⟩
      · exact ih (List.mem_cons_of_mem first h)

/-- Pieces that are joined are the first one and the others, each behind a slash. -/
theorem intercalate_cons (piece : List UInt8) (pieces : List (List UInt8)) :
    [slashByte].intercalate (piece :: pieces) = piece ++ pieces.flatMap (slashByte :: ·) := by
  induction pieces generalizing piece with
  | nil => simp
  | cons next pieces ih =>
    rw [List.intercalate_cons_cons, ih, List.flatMap_cons, List.append_assoc, List.singleton_append,
      List.cons_append]

/-- The pieces in front of a slash stand in front of those behind it. -/
theorem intercalate_append {as bs : List (List UInt8)} (ha : as ≠ []) (hb : bs ≠ []) :
    [slashByte].intercalate (as ++ bs) =
      [slashByte].intercalate as ++ [slashByte] ++ [slashByte].intercalate bs := by
  obtain ⟨a, as, rfl⟩ := List.exists_cons_of_ne_nil ha
  obtain ⟨b, bs, rfl⟩ := List.exists_cons_of_ne_nil hb
  rw [List.cons_append, intercalate_cons, intercalate_cons, intercalate_cons, List.flatMap_append,
    List.flatMap_cons]
  simp

/-- The pieces of a path that ends in a name, from the name on. -/
theorem splitOn_name_append {name : List UInt8} (hname : slashByte ∉ name)
    {stays : List (List UInt8)} (hstays : ∀ stay ∈ stays, stay = [] ∨ stay = [dotByte]) :
    (name ++ stays.flatMap (slashByte :: ·)).splitOn slashByte = name :: stays := by
  rw [← intercalate_cons]
  refine List.splitOn_intercalate slashByte (List.forall_mem_cons.mpr ⟨hname, ?_⟩)
    (List.cons_ne_nil _ _)
  intro stay hstay
  rcases hstays stay hstay with rfl | rfl <;> decide

/-- The pieces of a path that lead somewhere, in bytes. -/
def stepsOfBytes (path : List UInt8) : List (List UInt8) :=
  (path.splitOn slashByte).filter fun p => !isStayBytes p

/-- The name at the end is the last piece that leads somewhere, if that does not lead up. -/
theorem fileNameBytes?_eq_some_iff_steps {path name : List UInt8} :
    fileNameBytes? path = some name ↔
    (∃ init, stepsOfBytes path = init ++ [name]) ∧ name ≠ [dotByte, dotByte] := by
  rw [fileNameBytes?, Option.filter_eq_some_iff, List.getLast?_eq_some_iff, decide_eq_true_eq]
  rfl

/-- The last piece that leads somewhere is the one with only pieces behind it that lead nowhere. -/
theorem exists_stepsOfBytes_eq_iff {path name : List UInt8} :
    (∃ init, stepsOfBytes path = init ++ [name]) ↔
      isStayBytes name = false ∧ ∃ dirs stays, path.splitOn slashByte = dirs ++ name :: stays ∧
        ∀ stay ∈ stays, stay = [] ∨ stay = [dotByte] := by
  constructor
  · rintro ⟨init, hinit⟩
    obtain ⟨front, rest, hpieces, -, hrest⟩ := List.filter_eq_append_iff.mp hinit
    obtain ⟨between, stays, hsplit, -, hname, hstays⟩ := List.filter_eq_cons_iff.mp hrest
    rw [hsplit, ← List.append_assoc] at hpieces
    refine ⟨by simpa using hname, front ++ between, stays, hpieces, fun stay hstay => ?_⟩
    rw [← isStayBytes_iff]
    simpa using List.filter_eq_nil_iff.mp hstays stay hstay
  · rintro ⟨hname, dirs, stays, hpieces, hstays⟩
    have hbehind : stays.filter (fun p => !isStayBytes p) = [] := by
      refine List.filter_eq_nil_iff.mpr fun stay hstay => ?_
      rw [isStayBytes_iff.mpr (hstays stay hstay)]
      decide
    refine ⟨dirs.filter fun p => !isStayBytes p, ?_⟩
    rw [stepsOfBytes, hpieces, List.filter_append, List.filter_cons_of_pos (by rw [hname]; rfl),
      hbehind]

/-- The pieces in front of a name make up the path to it. -/
theorem exists_splitOn_eq_iff {path name : List UInt8} (hname : slashByte ∉ name)
    {stays : List (List UInt8)} (hstays : ∀ stay ∈ stays, stay = [] ∨ stay = [dotByte]) :
    (∃ dirs, path.splitOn slashByte = dirs ++ name :: stays) ↔
      ∃ front, path = front ++ name ++ stays.flatMap (slashByte :: ·) ∧
        (front = [] ∨ ∃ dirs, front = dirs ++ [slashByte]) := by
  constructor
  · rintro ⟨dirs, hpieces⟩
    have hpath : [slashByte].intercalate (path.splitOn slashByte) = path :=
      List.intercalate_splitOn slashByte
    rw [hpieces] at hpath
    by_cases hdirs : dirs = []
    · refine ⟨[], ?_, Or.inl rfl⟩
      rw [← hpath, hdirs, List.nil_append, List.nil_append, intercalate_cons]
    · refine ⟨[slashByte].intercalate dirs ++ [slashByte], ?_, Or.inr ⟨_, rfl⟩⟩
      rw [← hpath, intercalate_append hdirs (List.cons_ne_nil _ _), intercalate_cons,
        List.append_assoc _ name]
  · rintro ⟨front, rfl, hfront⟩
    have hlast := splitOn_name_append hname hstays
    rcases hfront with rfl | ⟨dirs, rfl⟩
    · exact ⟨[], hlast⟩
    · refine ⟨dirs.splitOn slashByte, ?_⟩
      rw [← hlast, ← List.splitOn_append_cons_self]
      simp

/-- **The name that is found at the end of a path** is the one that the path ends in. -/
theorem fileNameBytes?_eq_some_iff {path name : List UInt8} :
    fileNameBytes? path = some name ↔ EndsInName path name := by
  rw [fileNameBytes?_eq_some_iff_steps, exists_stepsOfBytes_eq_iff, Bool.eq_false_iff, ne_eq,
    isStayBytes_iff, not_or]
  constructor
  · rintro ⟨⟨⟨hnil, hhere⟩, dirs, stays, hpieces, hstays⟩, hup⟩
    have hslash : slashByte ∉ name := by
      have hmem : name ∈ path.splitOn slashByte := by
        rw [hpieces]
        exact List.mem_append_right _ List.mem_cons_self
      exact slash_notMem_of_mem_splitOn hmem
    obtain ⟨front, hpath, hfront⟩ := (exists_splitOn_eq_iff hslash hstays).mp ⟨dirs, hpieces⟩
    exact ⟨hslash, hnil, hhere, hup, front, stays, hpath, hfront, hstays⟩
  · rintro ⟨hslash, hnil, hhere, hup, front, stays, hpath, hfront, hstays⟩
    obtain ⟨dirs, hpieces⟩ := (exists_splitOn_eq_iff hslash hstays).mpr ⟨front, hpath, hfront⟩
    exact ⟨⟨⟨hnil, hhere⟩, dirs, stays, hpieces, hstays⟩, hup⟩

/-! ## Paths that are texts -/

/-- The bytes of characters. -/
def encode (s : List Char) : List UInt8 := s.flatMap String.utf8EncodeChar

theorem encode_injective : Function.Injective encode := by
  intro s t h
  have hbytes : Text.bytes (String.ofList s) = Text.bytes (String.ofList t) := by
    rw [Text.bytes_eq, Text.bytes_eq, String.toList_ofList, String.toList_ofList]
    exact h
  exact String.ofList_injective (Text.bytes_inj.mp hbytes)

theorem slash_notMem_encode {s : List Char} (h : '/' ∉ s) : slashByte ∉ encode s := by
  intro hmem
  obtain ⟨c, hc, hbyte⟩ := List.mem_flatMap.mp hmem
  have hcode : c.toNat = '/'.toNat := Utf8.toNat_eq_of_mem_encode (by decide) hbyte
  obtain rfl : c = '/' := Char.toNat_inj.mp hcode
  exact h hc

/-- The bytes of joined pieces are the joined bytes of the pieces. -/
theorem encode_join (pieces : List (List Char)) :
    encode (Text.join ['/'] pieces) = [slashByte].intercalate (pieces.map encode) := by
  induction pieces with
  | nil => rfl
  | cons piece pieces ih =>
    by_cases hnil : pieces = []
    · rw [hnil, List.map_singleton, List.intercalate_singleton]
      rfl
    · have hslash : encode ['/'] = [slashByte] := by decide
      rw [Text.join_cons _ _ hnil, List.map_cons,
        List.intercalate_cons_of_ne_nil (by simpa using hnil),
        ← ih, ← hslash]
      simp [encode]

/-- The pieces of the bytes of a text are the bytes of its pieces. -/
theorem splitOn_bytes (path : String) :
    (Text.bytes path).splitOn slashByte = (Text.splitAt '/' path.toList).map encode := by
  have htext : Text.bytes path =
      [slashByte].intercalate ((Text.splitAt '/' path.toList).map encode) := by
    rw [← encode_join, Text.join_splitAt, Text.bytes_eq]
    rfl
  rw [htext]
  refine List.splitOn_intercalate slashByte (List.forall_mem_map.mpr fun piece hpiece => ?_) ?_
  · exact slash_notMem_encode (Text.notMem_of_mem_splitAt hpiece)
  · simpa using Text.splitAt_ne_nil path.toList

/-- The steps of the bytes of a text are the bytes of its steps. -/
theorem stepsOfBytes_bytes (path : String) :
    stepsOfBytes (Text.bytes path) = (steps path).map encode := by
  have hstay : ∀ piece : List Char, isStayBytes (encode piece) = isStay piece := by
    intro piece
    have hnil : encode piece = [] ↔ piece = [] := encode_injective.eq_iff (b := [])
    have hdot : encode piece = [dotByte] ↔ piece = ['.'] := encode_injective.eq_iff (b := ['.'])
    rw [Bool.eq_iff_iff, isStayBytes_iff, hnil, hdot, isStay, Bool.or_eq_true, beq_iff_eq,
      beq_iff_eq]
  rw [stepsOfBytes, splitOn_bytes, List.filter_map, steps]
  congr 1
  exact List.filter_congr fun piece _ => by rw [Function.comp_apply, hstay]

/-- **The name at the end of a text is found in its bytes.** -/
theorem fileNameBytes?_bytes (path name : String) :
    fileNameBytes? (Text.bytes path) = some (Text.bytes name) ↔ fileName? path = some name := by
  have hname : Text.bytes name = encode name.toList := Text.bytes_eq name
  have hup : Text.bytes name = [dotByte, dotByte] ↔ name = ".." := @Text.bytes_inj name ".."
  rw [fileNameBytes?_eq_some_iff_steps, fileName?_eq_some_iff, stepsOfBytes_bytes, ne_eq, hup,
    hname]
  refine and_congr_left fun _ => ⟨?_, ?_⟩
  · rintro ⟨init, h⟩
    obtain ⟨front, last, hsteps, -, hlast⟩ := List.map_eq_append_iff.mp h
    obtain ⟨piece, rfl, hpiece⟩ := List.map_eq_singleton_iff.mp hlast
    exact ⟨front, by rw [hsteps, encode_injective hpiece]⟩
  · rintro ⟨init, h⟩
    exact ⟨init.map encode, by rw [h, List.map_append, List.map_singleton]⟩

end Path

/-! ## The name of the component -/

namespace FileName

variable {name m : String}

/-- A character whose lower case is in the suffix is one byte. -/
theorem length_encode_of_toLower {c : Char} (h : c.toLower ∈ componentSuffix) :
    (String.utf8EncodeChar c).length = 1 := by
  have hbasic : ∀ a ∈ componentSuffix, a.toNat < 0x80 := by decide
  have hlower := hbasic _ h
  have hc : c.toNat < 0x80 := by
    by_cases hupper : c.val ≥ 'A'.val ∧ c.val ≤ 'Z'.val
    · have hle : c.val.toNat ≤ 'Z'.val.toNat := UInt32.le_iff_toNat_le.mp hupper.2
      exact lt_of_le_of_lt hle (by decide)
    · have hsame : c.toLower = c := dif_neg hupper
      rwa [hsame] at hlower
  rw [encode_of_lt hc, List.length_singleton]

/-- The suffix has as many bytes in letters of any case. -/
theorem length_bytes_of_lower {suffix : String}
    (h : suffix.toList.map Char.toLower = componentSuffix) :
    (Text.bytes suffix).length = suffixSize := by
  have hone : ∀ s : List Char, (∀ c ∈ s, c.toLower ∈ componentSuffix) →
      (Path.encode s).length = s.length := by
    intro s hs
    induction s with
    | nil => rfl
    | cons c s ih =>
      obtain ⟨hc, hs⟩ := List.forall_mem_cons.mp hs
      have hcons : Path.encode (c :: s) = String.utf8EncodeChar c ++ Path.encode s := rfl
      rw [hcons, List.length_append, length_encode_of_toLower hc, ih hs, List.length_cons,
        Nat.add_comm]
  have hsize : componentSuffix.length = suffixSize := by decide
  rw [Text.bytes_eq, ← hsize, ← h, List.length_map]
  exact hone suffix.toList fun c hc => h ▸ List.mem_map_of_mem hc

theorem length_bytes_ne_zero (h : m ≠ "") : (Text.bytes m).length ≠ 0 := by
  rw [ne_eq, List.length_eq_zero_iff]
  exact fun hnil => h (Text.bytes_inj.mp hnil)

/-- **The machine name of a name stands in its bytes** in front of the last ones,
as many as the suffix has. -/
theorem stemOf_bytes_of_hasStem (h : HasStem name m) : stemOf (Text.bytes name) = .ok (some m) := by
  obtain ⟨suffix, rfl, hne, hlower⟩ := h
  have hread : Utf8.decode? (Text.bytes (m ++ suffix)) = some (m ++ suffix) :=
    Utf8.decode?_eq_some_iff.mpr rfl
  have hlength : (Text.bytes (m ++ suffix)).length = (Text.bytes m).length + suffixSize := by
    rw [Text.bytes_append, List.length_append, length_bytes_of_lower hlower]
  have hlong : ¬ (Text.bytes m).length + suffixSize ≤ suffixSize := by
    have := length_bytes_ne_zero hne
    omega
  have hdivide : Utf8.divide (Text.bytes (m ++ suffix)) (Text.bytes m).length = .ok (m, suffix) :=
    Utf8.divide_bytes_eq_ok_iff.mpr ⟨rfl, rfl⟩
  have hboundary := Utf8.isBoundary_bytes_iff.mpr ⟨m, suffix, hdivide⟩
  rw [stemOf, hlength, Nat.add_sub_cancel, hread, hboundary, decide_eq_false hlong, hdivide]
  show Except.ok (if suffix.toList.map Char.toLower = componentSuffix then some m else none) = _
  rw [if_pos hlower]

/-- A name without a machine name tells none, and is not refused. -/
theorem stemOf_bytes_of_forall_not (h : ∀ m, ¬ HasStem name m) :
    stemOf (Text.bytes name) = .ok none := by
  rw [stemOf]
  split
  · rfl
  · rename_i hguard
    rw [Bool.or_eq_true, Bool.or_eq_true, not_or, not_or, decide_eq_true_eq, not_le,
      Bool.not_eq_true, Bool.not_eq_true, Bool.not_eq_false'] at hguard
    obtain ⟨⟨-, hlong⟩, hboundary⟩ := hguard
    obtain ⟨front, rest, hdivide⟩ := Utf8.isBoundary_bytes_iff.mp hboundary
    obtain ⟨rfl, hlength⟩ := Utf8.divide_bytes_eq_ok_iff.mp hdivide
    have hne : front ≠ "" := by
      rintro rfl
      have hempty : (Text.bytes "").length = 0 := rfl
      omega
    have hother : ¬ rest.toList.map Char.toLower = componentSuffix :=
      fun hlower => h front ⟨rest, rfl, hne, hlower⟩
    rw [hdivide]
    show Except.ok (if rest.toList.map Char.toLower = componentSuffix then some front else none) = _
    rw [if_neg hother]

theorem stemOf_of_decode?_eq_none {bytes : List UInt8} (h : Utf8.decode? bytes = none) :
    stemOf bytes = .ok none := by
  rw [stemOf, h]
  rfl

/-- **A path in bytes is never refused**, and tells the machine name of the text at its end. -/
theorem exists_machineNameOf_eq_ok (path : List UInt8) : ∃ found, machineNameOf path = .ok found ∧
    ∀ m, found = some m ↔
      ∃ name, Path.fileNameBytes? path = some (Text.bytes name) ∧ HasStem name m := by
  rw [machineNameOf]
  cases hbytes : Path.fileNameBytes? path with
  | none => exact ⟨none, rfl, fun m => ⟨nofun, fun ⟨_, h, _⟩ => nomatch h⟩⟩
  | some bytes =>
    dsimp only
    cases hread : Utf8.decode? bytes with
    | none =>
      refine ⟨none, stemOf_of_decode?_eq_none hread, fun m => ⟨nofun, ?_⟩⟩
      rintro ⟨name, hname, -⟩
      rw [Utf8.decode?_eq_some_iff.mpr (Option.some.inj hname)] at hread
      cases hread
    | some name =>
      obtain rfl := Utf8.decode?_eq_some_iff.mp hread
      have hsame : ∀ other : String,
          some (Text.bytes name) = some (Text.bytes other) → name = other :=
        fun other h => Text.bytes_inj.mp (Option.some.inj h)
      by_cases hstem : ∃ m, HasStem name m
      · obtain ⟨m, hm⟩ := hstem
        refine ⟨some m, stemOf_bytes_of_hasStem hm, fun m' => ⟨?_, ?_⟩⟩
        · rintro ⟨⟩
          exact ⟨name, rfl, hm⟩
        · rintro ⟨other, hother, hm'⟩
          obtain rfl := hsame other hother
          rw [hm.unique hm']
      · rw [not_exists] at hstem
        refine ⟨none, stemOf_bytes_of_forall_not hstem, fun m => ⟨nofun, ?_⟩⟩
        rintro ⟨other, hother, hm⟩
        obtain rfl := hsame other hother
        exact absurd hm (hstem m)

/-- **The machine name of a path is told exactly by the name at its end.**  Whatever the bytes of a
path, the name at its end is never divided inside a character.  A machine name is told exactly if
the name at the end of the path is a text, and is the machine name, which is not empty and keeps its
letters as they are, and the suffix in basic letters of either case.  There is at most one such
machine name, and the reading of paths that are texts tells the same one. -/
theorem machineNameOf_exact :
    (∀ path : List UInt8, ∃ found, machineNameOf path = .ok found ∧
      ∀ m, found = some m ↔ ∃ name, Path.EndsInName path (Text.bytes name) ∧ HasStem name m) ∧
    (∀ (path : List UInt8) (name name' m m' : String), Path.EndsInName path (Text.bytes name) →
      HasStem name m → Path.EndsInName path (Text.bytes name') → HasStem name' m' → m = m') ∧
    ∀ path : String, machineNameOf (Text.bytes path) = .ok (machineName? path) := by
  simp only [← Path.fileNameBytes?_eq_some_iff]
  refine ⟨exists_machineNameOf_eq_ok, ?_, fun path => ?_⟩
  · intro path name name' m m' hname hm hname' hm'
    obtain rfl := Text.bytes_inj.mp (Option.some.inj (hname.symm.trans hname'))
    exact hm.unique hm'
  · obtain ⟨found, hfound, hiff⟩ := exists_machineNameOf_eq_ok (Text.bytes path)
    have hsame : found = machineName? path := by
      ext m
      rw [hiff, machineName?_eq_some_iff]
      simp only [Path.fileNameBytes?_bytes]
    rw [hfound, hsame]

/-- The bytes of a path in a directory whose name is no text, with slashes and a dot at its end. -/
def straying : List UInt8 := [0xFF, Path.slashByte] ++ Text.bytes "Grün.Component.YML//./"

/-- The machine name at the end of the path is told, the one of a name that would be divided inside
a character is not, nor is that of a name that is no text. -/
theorem machineNameOf_exact_straying :
    machineNameOf straying = .ok (some "Grün") ∧
    Path.EndsInName straying (Text.bytes "Grün.Component.YML") ∧
    HasStem "Grün.Component.YML" "Grün" ∧
    (∀ name m, Path.EndsInName straying (Text.bytes name) → HasStem name m → "Grün" = m) ∧
    machineNameOf (Text.bytes "€component.yml") = .ok none ∧
    machineNameOf ([0xFF] ++ Text.bytes ".component.yml") = .ok none := by
  obtain ⟨hread, hunique, htext⟩ := machineNameOf_exact
  have hends : Path.EndsInName straying (Text.bytes "Grün.Component.YML") :=
    Path.fileNameBytes?_eq_some_iff.mp (by decide +kernel)
  have hstem : HasStem "Grün.Component.YML" "Grün" := ⟨".Component.YML", rfl, by decide, by decide⟩
  obtain ⟨found, hfound, hiff⟩ := hread straying
  have hsome : found = some "Grün" := (hiff "Grün").mpr ⟨_, hends, hstem⟩
  refine ⟨hsome ▸ hfound, hends, hstem,
    fun name m h hm => hunique _ _ _ _ _ hends hstem h hm, ?_, ?_⟩
  · rw [htext]
    have hnone : machineName? "€component.yml" = none := by decide +kernel
    rw [hnone]
  · decide +kernel

end FileName

end ComponentStories
