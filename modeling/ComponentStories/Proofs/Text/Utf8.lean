import ComponentStories.Proofs.Text.Bytes
import ComponentStories.Text.Utf8
import Mathlib.Data.List.Forall2

/-
# Texts and their bytes

The bytes of a text are read back as the text, and no other bytes are read as it
(`decode?_eq_some_iff`).  A text can be divided exactly at its boundaries, the offsets where a
character begins and its end (`isBoundary_bytes_iff`), and its parts then make it up
(`divide_bytes_eq_ok_iff`).
-/

namespace ComponentStories.Utf8

/-! ## One character -/

/-- The bytes behind a first byte lie within their bounds. -/
def Within (bounds : List (Nat × Nat)) (behind : List Nat) : Prop :=
  List.Forall₂ (fun bound n => bound.1 ≤ n ∧ n ≤ bound.2) bounds behind

theorem follow?_two {b : Nat} (hb : 0xC2 ≤ b) (hb' : b < 0xE0) : follow? b = some [tail] := by
  rw [follow?, if_neg (by omega), if_neg (by omega), if_pos hb']

/-- What may follow the first byte of three: nothing that two bytes would
do for, and no surrogate. -/
theorem follow?_three {b : Nat} (hb : 0xE0 ≤ b) (hb' : b < 0xF0) : follow? b =
    some [(if b = 0xE0 then 0xA0 else 0x80, if b = 0xED then 0x9F else 0xBF), tail] := by
  rw [follow?, if_neg (by omega), if_neg (by omega), if_neg (by omega)]
  by_cases hfirst : b = 0xE0
  · subst hfirst
    rfl
  · by_cases hsurrogate : b = 0xED
    · subst hsurrogate
      rfl
    · rw [if_neg hfirst, if_neg hsurrogate, if_pos hb', if_neg hfirst, if_neg hsurrogate]
      rfl

/-- What may follow the first byte of four: nothing that three bytes would do for, and nothing
behind the last character. -/
theorem follow?_four {b : Nat} (hb : 0xF0 ≤ b) (hb' : b < 0xF5) : follow? b =
    some [(if b = 0xF0 then 0x90 else 0x80, if b = 0xF4 then 0x8F else 0xBF), tail, tail] := by
  rw [follow?, if_neg (by omega), if_neg (by omega), if_neg (by omega), if_neg (by omega),
    if_neg (by omega), if_neg (by omega)]
  by_cases hfirst : b = 0xF0
  · subst hfirst
    rfl
  · by_cases hlast : b = 0xF4
    · subst hlast
      rfl
    · rw [if_neg hfirst, if_pos (by omega), if_neg hfirst, if_neg hlast]
      rfl

/-- A first byte begins one, two, three or four bytes. -/
theorem lt_of_follow? {b : Nat} {bounds : List (Nat × Nat)} (h : follow? b = some bounds) :
    b < 0x80 ∨ 0xC2 ≤ b ∧ b < 0xF5 := by
  by_contra hnone
  rw [follow?, if_neg (by omega)] at h
  by_cases hsmall : b < 0xC2
  · rw [if_pos hsmall] at h
    cases h
  · rw [if_neg hsmall, if_neg (by omega), if_neg (by omega), if_neg (by omega), if_neg (by omega),
      if_neg (by omega), if_neg (by omega), if_neg (by omega)] at h
    cases h

theorem digit_mem_tail (n : Nat) : tail.1 ≤ n % 0x40 + 0x80 ∧ n % 0x40 + 0x80 ≤ tail.2 := by
  have hlow : tail.1 = 0x80 := rfl
  have hhigh : tail.2 = 0xBF := rfl
  omega

/-- **The bytes of a character** are a first byte and bytes within the bounds that it sets, and they
tell the code point of the character. -/
theorem exists_encode_eq (c : Char) : ∃ b behind bounds,
    String.utf8EncodeChar c = UInt8.ofNat b :: behind.map UInt8.ofNat ∧
      (∀ n ∈ b :: behind, n < 256) ∧ follow? b = some bounds ∧ Within bounds behind ∧
      codePoint b behind = c.toNat := by
  have hvalid : c.toNat < 0xD800 ∨ 0xDFFF < c.toNat ∧ c.toNat < 0x110000 := c.valid
  have hval : c.val.toNat = c.toNat := rfl
  simp only [String.utf8EncodeChar, hval]
  generalize c.toNat = v at hvalid
  rcases Nat.lt_or_ge 0x7F v with h1 | h1
  · rw [if_neg (by omega)]
    rcases Nat.lt_or_ge 0x7FF v with h2 | h2
    · rw [if_neg (by omega)]
      rcases Nat.lt_or_ge 0xFFFF v with h3 | h3
      · rw [if_neg (by omega)]
        refine ⟨v / 262144 % 0x08 + 0xF0, [v / 4096 % 0x40 + 0x80, v / 64 % 0x40 + 0x80,
          v % 0x40 + 0x80], _, rfl, by simp; omega, follow?_four (by omega) (by omega),
          .cons ?_ (.cons (digit_mem_tail _) (.cons (digit_mem_tail _) .nil)), ?_⟩
        · dsimp only
          split <;> split <;> omega
        · show (((v / 262144 % 0x08 + 0xF0) % 8 * 64 + (v / 4096 % 0x40 + 0x80) % 64) * 64 +
            (v / 64 % 0x40 + 0x80) % 64) * 64 + (v % 0x40 + 0x80) % 64 = v
          omega
      · rw [if_pos h3]
        refine ⟨v / 4096 % 0x10 + 0xE0, [v / 64 % 0x40 + 0x80, v % 0x40 + 0x80], _, rfl,
          by simp; omega, follow?_three (by omega) (by omega),
            .cons ?_ (.cons (digit_mem_tail _) .nil), ?_⟩
        · dsimp only
          split <;> split <;> omega
        · show ((v / 4096 % 0x10 + 0xE0) % 16 * 64 + (v / 64 % 0x40 + 0x80) % 64) * 64 +
            (v % 0x40 + 0x80) % 64 = v
          omega
    · rw [if_pos h2]
      refine ⟨v / 64 % 0x20 + 0xC0, [v % 0x40 + 0x80], [tail], rfl, by simp; omega,
        follow?_two (by omega) (by omega), .cons (digit_mem_tail v) .nil, ?_⟩
      show (v / 64 % 0x20 + 0xC0) % 32 * 64 + (v % 0x40 + 0x80) % 64 = v
      omega
  · rw [if_pos h1]
    refine ⟨v, [], [], rfl, by simp; omega, ?_, .nil, rfl⟩
    rw [follow?, if_pos (by omega)]

/-- The code point of a character that is made of a code point. -/
theorem toNat_ofNat {v : Nat} (h : v < 0xD800 ∨ 0xDFFF < v ∧ v < 0x110000) :
    (Char.ofNat v).val.toNat = v := by
  have hvalid : v.isValidChar := h
  rw [Char.ofNat, dif_pos hvalid]
  rfl

/-- Two bytes in their bounds are those of a character. -/
theorem encode_two {b n : Nat} (hb : 0xC2 ≤ b) (hb' : b < 0xE0) (hn : 0x80 ≤ n) (hn' : n ≤ 0xBF) :
    String.utf8EncodeChar (Char.ofNat (codePoint b [n])) = [b, n].map UInt8.ofNat := by
  have hv : codePoint b [n] = b % 32 * 64 + n % 64 := rfl
  rw [hv]
  generalize hcode : b % 32 * 64 + n % 64 = v
  have hb1 : v / 64 % 0x20 + 0xC0 = b := by omega
  have hn1 : v % 0x40 + 0x80 = n := by omega
  simp only [String.utf8EncodeChar, toNat_ofNat (v := v) (by omega)]
  rw [if_neg (by omega), if_pos (by omega), hb1, hn1]
  rfl

/-- Three bytes in their bounds are those of a character. -/
theorem encode_three {b n p : Nat} (hb : 0xE0 ≤ b) (hb' : b < 0xF0)
    (hn : (if b = 0xE0 then 0xA0 else 0x80) ≤ n) (hn' : n ≤ if b = 0xED then 0x9F else 0xBF)
    (hp : 0x80 ≤ p) (hp' : p ≤ 0xBF) :
    String.utf8EncodeChar (Char.ofNat (codePoint b [n, p])) = [b, n, p].map UInt8.ofNat := by
  -- neither below the characters of three bytes nor among the surrogates
  have hfirst : b = 0xE0 → 0xA0 ≤ n := fun h => by rwa [if_pos h] at hn
  have hsurrogate : b = 0xED → n ≤ 0x9F := fun h => by rwa [if_pos h] at hn'
  have hrange : 0x80 ≤ n ∧ n ≤ 0xBF := by
    split at hn <;> split at hn' <;> omega
  have hv : codePoint b [n, p] = (b % 16 * 64 + n % 64) * 64 + p % 64 := rfl
  rw [hv]
  generalize hcode : (b % 16 * 64 + n % 64) * 64 + p % 64 = v
  have hb1 : v / 4096 % 0x10 + 0xE0 = b := by omega
  have hn1 : v / 64 % 0x40 + 0x80 = n := by omega
  have hp1 : v % 0x40 + 0x80 = p := by omega
  simp only [String.utf8EncodeChar, toNat_ofNat (v := v) (by omega)]
  rw [if_neg (by omega), if_neg (by omega), if_pos (by omega), hb1, hn1, hp1]
  rfl

/-- Four bytes in their bounds are those of a character. -/
theorem encode_four {b n p q : Nat} (hb : 0xF0 ≤ b) (hb' : b < 0xF5)
    (hn : (if b = 0xF0 then 0x90 else 0x80) ≤ n) (hn' : n ≤ if b = 0xF4 then 0x8F else 0xBF)
    (hp : 0x80 ≤ p) (hp' : p ≤ 0xBF) (hq : 0x80 ≤ q) (hq' : q ≤ 0xBF) :
    String.utf8EncodeChar (Char.ofNat (codePoint b [n, p, q])) = [b, n, p, q].map UInt8.ofNat := by
  -- neither below the characters of four bytes nor behind the last one
  have hfirst : b = 0xF0 → 0x90 ≤ n := fun h => by rwa [if_pos h] at hn
  have hlast : b = 0xF4 → n ≤ 0x8F := fun h => by rwa [if_pos h] at hn'
  have hrange : 0x80 ≤ n ∧ n ≤ 0xBF := by
    split at hn <;> split at hn' <;> omega
  have hv : codePoint b [n, p, q] = ((b % 8 * 64 + n % 64) * 64 + p % 64) * 64 + q % 64 := rfl
  rw [hv]
  generalize hcode : ((b % 8 * 64 + n % 64) * 64 + p % 64) * 64 + q % 64 = v
  have hb1 : v / 262144 % 0x08 + 0xF0 = b := by omega
  have hn1 : v / 4096 % 0x40 + 0x80 = n := by omega
  have hp1 : v / 64 % 0x40 + 0x80 = p := by omega
  have hq1 : v % 0x40 + 0x80 = q := by omega
  simp only [String.utf8EncodeChar, toNat_ofNat (v := v) (by omega)]
  rw [if_neg (by omega), if_neg (by omega), if_neg (by omega), hb1, hn1, hp1, hq1]
  rfl

/-- **A first byte and bytes within the bounds that it sets are those of a character.** -/
theorem encode_codePoint {b : Nat} {bounds : List (Nat × Nat)} {behind : List Nat}
    (h : follow? b = some bounds) (hbehind : Within bounds behind) :
    String.utf8EncodeChar (Char.ofNat (codePoint b behind)) =
      UInt8.ofNat b :: behind.map UInt8.ofNat := by
  rcases lt_of_follow? h with h1 | ⟨hb, hb'⟩
  · rw [follow?, if_pos h1] at h
    obtain rfl := Option.some.inj h
    cases hbehind
    have hv : codePoint b [] = b := rfl
    rw [hv]
    simp only [String.utf8EncodeChar, toNat_ofNat (v := b) (by omega)]
    rw [if_pos (by omega)]
    rfl
  rcases Nat.lt_or_ge b 0xE0 with h2 | h2
  · rw [follow?_two hb h2] at h
    obtain rfl := Option.some.inj h
    obtain _ | ⟨hn, _ | _⟩ := hbehind
    exact encode_two hb h2 hn.1 hn.2
  rcases Nat.lt_or_ge b 0xF0 with h3 | h3
  · rw [follow?_three h2 h3] at h
    obtain rfl := Option.some.inj h
    obtain _ | ⟨hn, _ | ⟨hp, _ | _⟩⟩ := hbehind
    exact encode_three h2 h3 hn.1 hn.2 hp.1 hp.2
  · rw [follow?_four h3 hb'] at h
    obtain rfl := Option.some.inj h
    obtain _ | ⟨hn, _ | ⟨hp, _ | ⟨hq, _ | _⟩⟩⟩ := hbehind
    exact encode_four h3 hb' hn.1 hn.2 hp.1 hp.2 hq.1 hq.2

theorem encode_of_lt {c : Char} (h : c.toNat < 0x80) :
    String.utf8EncodeChar c = [UInt8.ofNat c.toNat] := by
  have hval : c.val.toNat = c.toNat := rfl
  simp only [String.utf8EncodeChar, hval]
  rw [if_pos (by omega)]

/-- A byte of the basic characters is in the bytes of its own character only. -/
theorem toNat_eq_of_mem_encode {c : Char} {b : UInt8} (hb : b.toNat < 0x80)
    (h : b ∈ String.utf8EncodeChar c) : c.toNat = b.toNat := by
  have hhigh : ∀ {n : Nat}, 0x80 ≤ n → n < 256 → b ≠ UInt8.ofNat n := by
    rintro n hle hlt rfl
    rw [UInt8.toNat_ofNat_of_lt' hlt] at hb
    omega
  have hval : c.val.toNat = c.toNat := rfl
  simp only [String.utf8EncodeChar, hval] at h
  generalize c.toNat = v at h
  split at h
  · rw [List.mem_singleton.mp h, UInt8.toNat_ofNat_of_lt' (show v < 256 by omega)]
  · -- all bytes of a longer one are higher
    refine absurd h ?_
    split
    · simp only [List.mem_cons, List.not_mem_nil, or_false, not_or]
      exact ⟨hhigh (by omega) (by omega), hhigh (by omega) (by omega)⟩
    · split
      · simp only [List.mem_cons, List.not_mem_nil, or_false, not_or]
        exact ⟨hhigh (by omega) (by omega), hhigh (by omega) (by omega),
          hhigh (by omega) (by omega)⟩
      · simp only [List.mem_cons, List.not_mem_nil, or_false, not_or]
        exact ⟨hhigh (by omega) (by omega), hhigh (by omega) (by omega),
          hhigh (by omega) (by omega), hhigh (by omega) (by omega)⟩

/-! ## Reading a text -/

/-- Bytes within their bounds are taken, whatever stands behind them. -/
theorem within_append {bounds : List (Nat × Nat)} {behind : List Nat} (h : Within bounds behind)
    (hbyte : ∀ n ∈ behind, n < 256) (rest : List UInt8) :
    within bounds (behind.map UInt8.ofNat ++ rest) = behind := by
  induction h with
  | nil => cases rest <;> rfl
  | @cons bound n bounds behind hn _ ih =>
    obtain ⟨hlt, hbehind⟩ := List.forall_mem_cons.mp hbyte
    have hnat : (UInt8.ofNat n).toNat = n := UInt8.toNat_ofNat_of_lt' hlt
    rw [List.map_cons, List.cons_append, within, hnat, if_pos hn, ih hbehind]

/-- As many bytes as there are bounds lie within these and are at the front. -/
theorem exists_append_of_within {bounds : List (Nat × Nat)} {bytes : List UInt8}
    (h : (within bounds bytes).length = bounds.length) :
    Within bounds (within bounds bytes) ∧
      ∃ rest, bytes = (within bounds bytes).map UInt8.ofNat ++ rest := by
  induction bounds generalizing bytes with
  | nil => exact ⟨by cases bytes <;> exact .nil, bytes, by cases bytes <;> rfl⟩
  | cons bound bounds ih =>
    obtain ⟨lo, hi⟩ := bound
    cases bytes with
    | nil => cases h
    | cons b bytes =>
      rw [within] at h ⊢
      split at h
      · rename_i hb
        obtain ⟨hwithin, rest, hrest⟩ := ih (Nat.succ.inj h)
        rw [if_pos hb]
        refine ⟨.cons hb hwithin, rest, ?_⟩
        rw [List.map_cons, UInt8.ofNat_toNat, List.cons_append, ← hrest]
      · cases h

/-- Bytes that belong to a character before them are passed over. -/
theorem decodeFrom_length_append (front rest : List UInt8) :
    decodeFrom front.length (front ++ rest) = decodeFrom 0 rest := by
  induction front with
  | nil => rfl
  | cons b front ih => exact ih

/-- The bytes of a character are read as the character. -/
theorem decodeFrom_encode_append (c : Char) (rest : List UInt8) :
    decodeFrom 0 (String.utf8EncodeChar c ++ rest) = some c :: decodeFrom 0 rest := by
  obtain ⟨b, behind, bounds, hencode, hbyte, hfollow, hwithin, hcode⟩ := exists_encode_eq c
  obtain ⟨hb, hbehind⟩ := List.forall_mem_cons.mp hbyte
  have hnat : (UInt8.ofNat b).toNat = b := UInt8.toNat_ofNat_of_lt' hb
  have hpass := decodeFrom_length_append (behind.map UInt8.ofNat) rest
  rw [List.length_map] at hpass
  rw [hencode, List.cons_append, decodeFrom, hnat, hfollow]
  dsimp only
  rw [within_append hwithin hbehind, if_pos hwithin.length_eq.symm, hcode, Char.ofNat_toNat, hpass]

/-- **A character that is read stands there with all its bytes**, and the
rest is read behind them. -/
theorem exists_encode_append_of_decodeFrom {bytes : List UInt8} {c : Char} {cs : List (Option Char)}
    (h : decodeFrom 0 bytes = some c :: cs) :
    ∃ rest, bytes = String.utf8EncodeChar c ++ rest ∧ decodeFrom 0 rest = cs := by
  cases bytes with
  | nil => cases h
  | cons b bytes =>
    rw [decodeFrom] at h
    split at h
    · cases h
    · rename_i bounds hfollow
      obtain ⟨hc, hcs⟩ := List.cons.inj h
      obtain ⟨hlength, hc⟩ := Option.ite_none_right_eq_some.mp hc
      obtain rfl := Option.some.inj hc
      obtain ⟨hwithin, rest, hrest⟩ := exists_append_of_within hlength
      refine ⟨rest, ?_, ?_⟩
      · rw [encode_codePoint hfollow hwithin, UInt8.ofNat_toNat, List.cons_append, ← hrest]
      · have hpass := decodeFrom_length_append ((within bounds bytes).map UInt8.ofNat) rest
        rw [List.length_map, ← hrest] at hpass
        rw [← hpass, hcs]

/-- Bytes are read as characters only exactly if they are the bytes of the characters. -/
theorem decodeFrom_eq_map_some_iff {bytes : List UInt8} {s : List Char} :
    decodeFrom 0 bytes = s.map some ↔ bytes = s.flatMap String.utf8EncodeChar := by
  constructor
  · intro h
    induction s generalizing bytes with
    | nil =>
      cases bytes with
      | nil => rfl
      | cons b bytes =>
        rw [decodeFrom] at h
        split at h <;> cases h
    | cons c s ih =>
      obtain ⟨rest, rfl, hrest⟩ := exists_encode_append_of_decodeFrom h
      rw [List.flatMap_cons, ih hrest]
  · rintro rfl
    induction s with
    | nil => rfl
    | cons c s ih => rw [List.flatMap_cons, decodeFrom_encode_append, ih, List.map_cons]

/-- Values that are all there are collected. -/
theorem mapM_id_eq_some_iff {α : Type} {l : List (Option α)} {as : List α} :
    l.mapM id = some as ↔ l = as.map some := by
  induction l generalizing as with
  | nil => cases as <;> simp
  | cons a l ih =>
    cases a with
    | none => cases as <;> simp
    | some a =>
      rw [List.mapM_cons]
      constructor
      · intro h
        obtain ⟨b, hb, hrest⟩ := Option.bind_eq_some_iff.mp h
        obtain ⟨bs, hbs, has⟩ := Option.bind_eq_some_iff.mp hrest
        obtain rfl : a = b := Option.some.inj hb
        obtain rfl : a :: bs = as := Option.some.inj has
        rw [ih.mp hbs, List.map_cons]
      · intro h
        cases as with
        | nil => cases h
        | cons b as =>
          obtain ⟨hb, hbs⟩ := List.cons.inj h
          obtain rfl := Option.some.inj hb
          exact Option.bind_eq_some_iff.mpr
            ⟨a, rfl, Option.bind_eq_some_iff.mpr ⟨as, ih.mpr hbs, rfl⟩⟩

/-- **Bytes are read as a text exactly if they are the bytes of the text.** -/
theorem decode?_eq_some_iff {bytes : List UInt8} {s : String} :
    decode? bytes = some s ↔ bytes = Text.bytes s := by
  rw [decode?, Option.map_eq_some_iff, Text.bytes_eq, ← decodeFrom_eq_map_some_iff]
  constructor
  · rintro ⟨cs, hcs, rfl⟩
    rw [String.toList_ofList]
    exact mapM_id_eq_some_iff.mp hcs
  · intro h
    exact ⟨s.toList, mapM_id_eq_some_iff.mpr h, String.ofList_toList⟩

/-! ## Dividing a text -/

/-- Six bits are in a byte that continues a character. -/
theorem isTail_digit (n : Nat) : isTail (UInt8.ofNat (n % 0x40 + 0x80)) = true := by
  have hnat : (UInt8.ofNat (n % 0x40 + 0x80)).toNat = n % 0x40 + 0x80 :=
    UInt8.toNat_ofNat_of_lt' (show n % 0x40 + 0x80 < 256 by omega)
  rw [isTail, hnat, Bool.and_eq_true, decide_eq_true_eq, decide_eq_true_eq]
  exact digit_mem_tail n

/-- A byte outside the bounds does not continue a character. -/
theorem isTail_eq_false {n : Nat} (h : n < 0x80 ∨ 0xC0 ≤ n) (hn : n < 256) :
    isTail (UInt8.ofNat n) = false := by
  have hnat : (UInt8.ofNat n).toNat = n := UInt8.toNat_ofNat_of_lt' hn
  have hlow : tail.1 = 0x80 := rfl
  have hhigh : tail.2 = 0xBF := rfl
  rw [isTail, hnat, Bool.and_eq_false_iff, decide_eq_false_iff_not, decide_eq_false_iff_not]
  omega

/-- The first byte of a character begins it, and the others continue it. -/
theorem exists_encode_eq_cons (c : Char) : ∃ b behind, String.utf8EncodeChar c = b :: behind ∧
    isTail b = false ∧ ∀ n ∈ behind, isTail n = true := by
  have hdigits : ∀ ns : List Nat, ∀ b ∈ ns.map fun n => UInt8.ofNat (n % 0x40 + 0x80),
      isTail b = true := by
    intro ns b hb
    obtain ⟨n, -, rfl⟩ := List.mem_map.mp hb
    exact isTail_digit n
  simp only [String.utf8EncodeChar]
  generalize c.val.toNat = v
  split
  · exact ⟨_, [], rfl, isTail_eq_false (by omega) (by omega), hdigits []⟩
  · split
    · exact ⟨_, _, rfl, isTail_eq_false (by omega) (by omega), hdigits [v]⟩
    · split
      · exact ⟨_, _, rfl, isTail_eq_false (by omega) (by omega), hdigits [v / 64, v]⟩
      · exact ⟨_, _, rfl, isTail_eq_false (by omega) (by omega), hdigits [v / 4096, v / 64, v]⟩

/-- No byte continues a character at the front of a text. -/
theorem isTail_head_flatMap {s : List Char} {b : UInt8}
    (h : (s.flatMap String.utf8EncodeChar)[0]? = some b) : isTail b = false := by
  cases s with
  | nil => cases h
  | cons c s =>
    obtain ⟨first, behind, hencode, hfirst, -⟩ := exists_encode_eq_cons c
    rw [List.flatMap_cons, hencode] at h
    obtain rfl := Option.some.inj h
    exact hfirst

/-- In a text an offset is a boundary if no byte continues a character there. -/
theorem isBoundary_flatMap (s : List Char) (offset : Nat) :
    isBoundary (s.flatMap String.utf8EncodeChar) offset =
      match (s.flatMap String.utf8EncodeChar)[offset]? with
      | some b => !isTail b
      | none => offset == (s.flatMap String.utf8EncodeChar).length := by
  rw [isBoundary]
  by_cases hzero : offset = 0
  · subst hzero
    rw [beq_self_eq_true, Bool.true_or]
    split
    · rename_i b hb
      rw [isTail_head_flatMap hb, Bool.not_false]
    · rename_i hnone
      rw [eq_comm, beq_iff_eq, eq_comm, ← Nat.le_zero]
      exact List.getElem?_eq_none_iff.mp hnone
  · rw [beq_false_of_ne hzero]
    exact Bool.false_or _

/-- An offset behind the bytes of a text is a boundary if it is one of what follows these. -/
theorem isBoundary_flatMap_append (s t : List Char) (offset : Nat) :
    isBoundary ((s ++ t).flatMap String.utf8EncodeChar)
      ((s.flatMap String.utf8EncodeChar).length + offset) =
    isBoundary (t.flatMap String.utf8EncodeChar) offset := by
  rw [isBoundary_flatMap, isBoundary_flatMap, List.flatMap_append,
    List.getElem?_append_right (Nat.le_add_right _ _), Nat.add_sub_cancel_left, List.length_append]
  split
  · rfl
  · rw [Bool.eq_iff_iff, beq_iff_eq, beq_iff_eq, Nat.add_left_cancel_iff]

/-- **The boundaries of a text** are the offsets where it can be divided into two texts. -/
theorem isBoundary_flatMap_iff {s : List Char} {offset : Nat} :
    isBoundary (s.flatMap String.utf8EncodeChar) offset = true ↔
      ∃ front rest, s = front ++ rest ∧ (front.flatMap String.utf8EncodeChar).length = offset := by
  constructor
  · intro h
    induction s generalizing offset with
    | nil =>
      rw [isBoundary_flatMap] at h
      exact ⟨[], [], rfl, (beq_iff_eq.mp h).symm⟩
    | cons c s ih =>
      obtain ⟨b, behind, hencode, -, hbehind⟩ := exists_encode_eq_cons c
      by_cases hzero : offset = 0
      · exact ⟨[], c :: s, rfl, hzero.symm⟩
      by_cases hinside : offset < (String.utf8EncodeChar c).length
      · -- the byte there continues the character
        obtain ⟨k, rfl⟩ := Nat.exists_eq_succ_of_ne_zero hzero
        rw [hencode, List.length_cons, Nat.succ_eq_add_one, Nat.add_lt_add_iff_right] at hinside
        have hbyte : ((c :: s).flatMap String.utf8EncodeChar)[k + 1]? = some behind[k] := by
          rw [List.flatMap_cons, hencode, List.cons_append, List.getElem?_cons_succ,
            List.getElem?_append_left hinside, List.getElem?_eq_getElem hinside]
        rw [isBoundary_flatMap, hbyte] at h
        dsimp only at h
        rw [hbehind _ (List.getElem_mem hinside)] at h
        exact absurd h Bool.false_ne_true
      · obtain ⟨k, rfl⟩ := Nat.exists_eq_add_of_le (not_lt.mp hinside)
        have hrest := isBoundary_flatMap_append [c] s k
        rw [List.flatMap_singleton] at hrest
        obtain ⟨front, rest, rfl, rfl⟩ := ih (hrest.symm.trans h)
        refine ⟨c :: front, rest, rfl, ?_⟩
        rw [List.flatMap_cons, List.length_append]
  · rintro ⟨front, rest, rfl, rfl⟩
    exact isBoundary_flatMap_append front rest 0

/-- **A text is divided at its boundaries**, into the two texts that make it up there. -/
theorem divide_bytes_eq_ok_iff {s front rest : String} {offset : Nat} :
    divide (Text.bytes s) offset = .ok (front, rest) ↔
      s = front ++ rest ∧ (Text.bytes front).length = offset := by
  rw [divide]
  constructor
  · intro h
    split at h
    · cases h
    · rename_i hlt
      split at h
      · rename_i a b ha hb
        obtain ⟨rfl, rfl⟩ := Prod.mk.inj (Except.ok.inj h)
        rw [decode?_eq_some_iff] at ha hb
        refine ⟨Text.bytes_inj.mp ?_, ?_⟩
        · rw [Text.bytes_append, ← ha, ← hb, List.take_append_drop]
        · rw [← ha, List.length_take, Nat.min_eq_left (not_lt.mp hlt)]
      · cases h
  · rintro ⟨rfl, rfl⟩
    have hfront : decode? ((Text.bytes (front ++ rest)).take (Text.bytes front).length) =
        some front := by
      rw [decode?_eq_some_iff, Text.bytes_append, List.take_left]
    have hrest : decode? ((Text.bytes (front ++ rest)).drop (Text.bytes front).length) =
        some rest := by
      rw [decode?_eq_some_iff, Text.bytes_append, List.drop_left]
    have hle : ¬ (Text.bytes (front ++ rest)).length < (Text.bytes front).length := by
      rw [Text.bytes_append, List.length_append]
      omega
    rw [if_neg hle, hfront, hrest]

/-- **A text can be divided exactly at its boundaries.** -/
theorem isBoundary_bytes_iff {s : String} {offset : Nat} :
    isBoundary (Text.bytes s) offset = true ↔
      ∃ front rest, divide (Text.bytes s) offset = .ok (front, rest) := by
  simp only [divide_bytes_eq_ok_iff]
  rw [Text.bytes_eq, isBoundary_flatMap_iff]
  constructor
  · rintro ⟨front, rest, hs, hlength⟩
    refine ⟨String.ofList front, String.ofList rest, ?_, ?_⟩
    · rw [← String.toList_inj, hs, String.toList_append, String.toList_ofList, String.toList_ofList]
    · rw [Text.bytes_eq, String.toList_ofList, hlength]
  · rintro ⟨front, rest, rfl, hlength⟩
    rw [Text.bytes_eq] at hlength
    exact ⟨front.toList, rest.toList, String.toList_append, hlength⟩

end ComponentStories.Utf8
