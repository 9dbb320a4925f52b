import Mathlib.Data.String.Basic

/-
# The order of texts and the order of their bytes

Texts are compared character by character.  Their bytes are compared to the same effect
(`Text.bytes_lt_iff`): of two different characters the smaller one has the smaller bytes, whatever
stands behind them (`encode_append_lt`).
-/

namespace ComponentStories.Text

/-- The bytes of a text. -/
def bytes (s : String) : List UInt8 := s.toByteArray.data.toList

theorem bytes_eq (s : String) : bytes s = s.toList.flatMap String.utf8EncodeChar := by
  rw [bytes, ← String.utf8Encode_toList, List.utf8Encode, List.toList_data_toByteArray]

theorem bytes_append (a b : String) : bytes (a ++ b) = bytes a ++ bytes b := by
  rw [bytes_eq, bytes_eq, bytes_eq, String.toList_append, List.flatMap_append]

/-- A list comes before another one if its first byte does, or the rest behind the same byte. -/
theorem ofNat_cons_lt {m n : Nat} (hm : m < 256) (hn : n < 256) {s t : List UInt8}
    (h : m < n ∨ m = n ∧ s < t) : UInt8.ofNat m :: s < UInt8.ofNat n :: t := by
  rw [List.cons_lt_cons_iff, UInt8.lt_iff_toNat_lt, UInt8.toNat_ofNat_of_lt' hm,
    UInt8.toNat_ofNat_of_lt' hn]
  exact h.imp id fun ⟨heq, hlt⟩ => ⟨by rw [heq], hlt⟩

/-- Digits behind bytes that begin them are compared one after the other. -/
theorem digit_cons_lt {base m n : Nat} (hm : base + m < 256) (hn : base + n < 256)
    {s t : List UInt8} (hle : m ≤ n) (h : m = n → s < t) :
    UInt8.ofNat (m + base) :: s < UInt8.ofNat (n + base) :: t := by
  refine ofNat_cons_lt (by omega) (by omega) ?_
  rcases hle.lt_or_eq with hlt | rfl
  · exact Or.inl (by omega)
  · exact Or.inr ⟨rfl, h rfl⟩

/-- **The bytes of a smaller character come first**, whatever stands behind them. -/
theorem encode_append_lt {c d : Char} (h : c < d) (s t : List UInt8) :
    String.utf8EncodeChar c ++ s < String.utf8EncodeChar d ++ t := by
  have hlt : c.val.toNat < d.val.toNat := h
  have hmax : d.val.toNat < 0x110000 := by
    rcases d.valid with hd | hd
    · exact hd.trans (by decide)
    · exact hd.2
  have hshort : ∀ {m n : Nat} {s t : List UInt8}, m < n → n < 256 →
      UInt8.ofNat m :: s < UInt8.ofNat n :: t :=
    fun hmn hn => ofNat_cons_lt (hmn.trans hn) hn (Or.inl hmn)
  simp only [String.utf8EncodeChar]
  generalize c.val.toNat = v at hlt
  generalize d.val.toNat = w at hlt hmax
  -- a longer one begins with a greater byte; those of one length are the digits of the code points
  rcases Nat.lt_or_ge 0xFFFF v with hv | hv
  · rw [if_neg (by omega), if_neg (by omega), if_neg (by omega), if_neg (by omega),
      if_neg (by omega), if_neg (by omega)]
    refine digit_cons_lt (by omega) (by omega) (by omega) fun hfirst => ?_
    refine digit_cons_lt (by omega) (by omega) (by omega) fun hsecond => ?_
    refine digit_cons_lt (by omega) (by omega) (by omega) fun hthird => ?_
    exact hshort (by omega) (by omega)
  rcases Nat.lt_or_ge 0x7FF v with hv' | hv'
  · rw [if_neg (by omega), if_neg (by omega), if_pos hv, if_neg (by omega), if_neg (by omega)]
    split
    · refine digit_cons_lt (by omega) (by omega) (by omega) fun hfirst => ?_
      refine digit_cons_lt (by omega) (by omega) (by omega) fun hsecond => ?_
      exact hshort (by omega) (by omega)
    · exact hshort (by omega) (by omega)
  rcases Nat.lt_or_ge 0x7F v with hv'' | hv''
  · rw [if_neg (by omega), if_pos hv', if_neg (by omega)]
    split
    · refine digit_cons_lt (by omega) (by omega) (by omega) fun hfirst => ?_
      exact hshort (by omega) (by omega)
    · split <;> exact hshort (by omega) (by omega)
  · rw [if_pos hv'']
    split
    · exact hshort hlt (by omega)
    · split
      · exact hshort (by omega) (by omega)
      · split <;> exact hshort (by omega) (by omega)

/-- Bytes behind the same bytes are compared as they are. -/
theorem append_lt_append_iff {l s t : List UInt8} : l ++ s < l ++ t ↔ s < t := by
  induction l with
  | nil => exact Iff.rfl
  | cons b l ih =>
    rw [List.cons_append, List.cons_append, List.cons_lt_cons_iff, ih]
    simp

/-- Characters are compared as their bytes are. -/
theorem flatMap_encode_lt_iff {s t : List Char} :
    s.flatMap String.utf8EncodeChar < t.flatMap String.utf8EncodeChar ↔ s < t := by
  induction s generalizing t with
  | nil =>
    cases t with
    | nil => exact iff_of_false (List.not_lt_nil _) (List.not_lt_nil _)
    | cons d t =>
      refine iff_of_true ?_ (List.nil_lt_cons d t)
      obtain ⟨b, bs, hd⟩ := List.exists_cons_of_ne_nil (String.utf8EncodeChar_ne_nil (c := d))
      rw [List.flatMap_nil, List.flatMap_cons, hd]
      exact List.nil_lt_cons _ _
  | cons c s ih =>
    cases t with
    | nil => exact iff_of_false (List.not_lt_nil _) (List.not_lt_nil _)
    | cons d t =>
      rw [List.flatMap_cons, List.flatMap_cons, List.cons_lt_cons_iff]
      rcases lt_trichotomy c d with hcd | rfl | hdc
      · exact iff_of_true (encode_append_lt hcd _ _) (Or.inl hcd)
      · rw [append_lt_append_iff, ih]
        simp
      · refine iff_of_false (List.lt_asymm (encode_append_lt hdc _ _)) ?_
        rintro (hcd | ⟨rfl, -⟩)
        · exact lt_asymm hdc hcd
        · exact lt_irrefl _ hdc

/-- **Texts are compared as their bytes are.** -/
theorem bytes_lt_iff {a b : String} : bytes a < bytes b ↔ a < b := by
  rw [bytes_eq, bytes_eq, flatMap_encode_lt_iff, String.lt_iff_toList_lt]

theorem bytes_inj {a b : String} : bytes a = bytes b ↔ a = b := by
  refine ⟨fun h => ?_, congrArg bytes⟩
  rcases lt_trichotomy a b with hab | hab | hba
  · rw [← bytes_lt_iff, h] at hab
    exact absurd hab (List.lt_irrefl _)
  · exact hab
  · rw [← bytes_lt_iff, h] at hba
    exact absurd hba (List.lt_irrefl _)

/-- Texts in a row are compared one after the other as their bytes are. -/
theorem map_bytes_lt_iff {l l' : List String} : l.map bytes < l'.map bytes ↔ l < l' := by
  induction l generalizing l' with
  | nil => cases l' <;> simp
  | cons a l ih =>
    cases l' with
    | nil => simp
    | cons b l' =>
      rw [List.map_cons, List.map_cons, List.cons_lt_cons_iff, List.cons_lt_cons_iff, bytes_lt_iff,
        bytes_inj, ih]

end ComponentStories.Text
