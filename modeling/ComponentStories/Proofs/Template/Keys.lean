import ComponentStories.Proofs.Text.Delimiter
import ComponentStories.Proofs.Text.Split
import ComponentStories.Template.Reader

/-
# Keys of options

The name and the tags of a story are looked for behind their keys, which begin the options or follow
a boundary.  A key has a colon, so it is not found in text without one (`findKey_append_cons`), and
text without colons, quotes and brackets behind the options does not matter
(`optionValue_append_brace`).  Of the first key that is found with a value the value is taken: what
is written as a list of quoted tags is read back as those tags (`tagsOf_join`).
-/

namespace ComponentStories.Template

open ComponentStories.Text

variable {α : Type} {read : List Char → Option α}

/-! ## Looking for a key -/

/-- A lead that holds a character is not found in text without it. -/
theorem dropLead?_eq_none {lead s : List Char} {x : Char} (hx : x ∈ lead) (hs : x ∉ s) :
    dropLead? lead s = none := by
  rw [Option.eq_none_iff_forall_ne_some]
  intro r hr
  rw [dropLead?_eq_some_iff] at hr
  apply hs
  rw [hr]
  exact List.mem_append_left r hx

/-- A lead does not reach over a character that it does not hold. -/
theorem dropLead?_append_cons {lead : List Char} {q : Char} (hq : q ∉ lead) (a s : List Char) :
    dropLead? lead (a ++ q :: s) = (dropLead? lead a).map (· ++ q :: s) := by
  induction lead generalizing a with
  | nil => rfl
  | cons k lead ih =>
    rw [List.mem_cons, not_or] at hq
    cases a with
    | nil =>
      show (if k = q then dropLead? lead s else none) = none
      exact if_neg (Ne.symm hq.1)
    | cons c a =>
      rw [List.cons_append, dropLead?, dropLead?]
      split
      · exact ih hq.2 a
      · rfl

/-- A key is not found in text without its colon, followed by a character
that the key does not hold. -/
theorem findKey_append_cons {key a : List Char} {x q : Char} (hx : x ∈ key) (ha : x ∉ a)
    (hq : q ∉ key) (s : List Char) :
    findKey key read (a ++ q :: s) = findKey key read (q :: s) := by
  induction a with
  | nil => rfl
  | cons c a ih =>
    rw [List.mem_cons, not_or] at ha
    rw [List.cons_append, findKey, ih ha.2, dropLead?_append_cons hq, dropLead?_eq_none hx ha.2]
    split
    · rfl
    · rfl

/-- A key is not found in text without its colon. -/
theorem findKey_eq_none {key s : List Char} {x : Char} (hx : x ∈ key) (hs : x ∉ s) :
    findKey key read s = none := by
  induction s with
  | nil => rfl
  | cons c s ih =>
    rw [List.mem_cons, not_or] at hs
    rw [findKey, ih hs.2, dropLead?_eq_none hx hs.2]
    split
    · rfl
    · rfl

/-- Text behind a brace that opens does not matter for the value of a key, if it holds no key and
the value does not reach into it. -/
theorem optionValue_append_brace {key s : List Char} (hkey : ':' ∈ key) (hbrace : '{' ∉ key)
    (hs : ':' ∉ s) (hread : ∀ r, read (r ++ '{' :: s) = read r) (k : List Char) :
    optionValue key read (k ++ '{' :: s) = optionValue key read k := by
  -- a brace is no blank, so the blanks in front of a value end in front of it
  have hskip : ∀ r, skipBlanks (r ++ '{' :: s) = skipBlanks r ++ '{' :: s := by
    intro r
    rw [skipBlanks, List.dropWhile_append]
    split
    · rename_i hnil
      rw [List.isEmpty_iff] at hnil
      rw [skipBlanks, hnil]
      rfl
    · rfl
  have hvalue : ∀ k, ((dropLead? key (k ++ '{' :: s)).map skipBlanks).bind read =
      ((dropLead? key k).map skipBlanks).bind read := by
    intro k
    rw [dropLead?_append_cons hbrace]
    cases dropLead? key k with
    | none => rfl
    | some r =>
      show read (skipBlanks (r ++ '{' :: s)) = read (skipBlanks r)
      rw [hskip, hread]
  -- the search goes on behind the brace, and finds no key there
  have hfind : ∀ k, findKey key read (k ++ '{' :: s) = findKey key read k := by
    intro k
    induction k with
    | nil =>
      rw [List.nil_append, findKey_eq_none hkey]
      · rfl
      · rw [List.mem_cons, not_or]
        exact ⟨by decide, hs⟩
    | cons c k ih => rw [List.cons_append, findKey, findKey, hvalue, ih]
  rw [optionValue, optionValue, hvalue, hfind]

/-- A value that begins with a bracket is not found in text without brackets. -/
theorem optionValue_eq_none {key s : List Char} {x : Char} (hread : ∀ r, x ∉ r → read r = none)
    (hs : x ∉ s) : optionValue key read s = none := by
  have hvalue : ∀ {s : List Char}, x ∉ s → ((dropLead? key s).map skipBlanks).bind read = none := by
    intro s hs
    cases hr : dropLead? key s with
    | none => rfl
    | some r =>
      rw [dropLead?_eq_some_iff] at hr
      refine hread _ fun hmem => hs ?_
      rw [hr]
      exact List.mem_append_right key ((List.dropWhile_sublist isBlank).mem hmem)
  have hfind : findKey key read s = none := by
    induction s with
    | nil => rfl
    | cons c s ih =>
      rw [List.mem_cons, not_or] at hs
      rw [findKey, ih hs.2, hvalue hs.2]
      split
      · rfl
      · rfl
  rw [optionValue, hvalue hs, hfind]
  rfl

theorem tagsOption_eq_none {s : List Char} (hs : '[' ∉ s) : tagsOption s = none := by
  refine optionValue_eq_none (x := '[') (fun r hr => ?_) hs
  split
  · exact absurd List.mem_cons_self hr
  · rfl

theorem untilQuote?_append {q : Char} {a : List Char} (ha : q ∉ a) (s : List Char) :
    untilQuote? q (a ++ q :: s) = some (a, s) := by
  induction a with
  | nil => rw [List.nil_append, untilQuote?, if_pos rfl]
  | cons c a ih =>
    rw [List.mem_cons, not_or] at ha
    rw [List.cons_append, untilQuote?, if_neg (Ne.symm ha.1), ih ha.2, Option.map_some]

/-- Text without the quote behind a text adds no quote to it. -/
theorem untilQuote?_append_of_notMem {q : Char} {s : List Char} (hs : q ∉ s) (a : List Char) :
    (untilQuote? q (a ++ s)).map Prod.fst = (untilQuote? q a).map Prod.fst := by
  induction a with
  | nil =>
    induction s with
    | nil => rfl
    | cons c s ih =>
      rw [List.mem_cons, not_or] at hs
      have htail := ih hs.2
      rw [List.nil_append, untilQuote?, Option.map_none, Option.map_eq_none_iff] at htail
      have hnone : untilQuote? q (c :: s) = none := by
        rw [untilQuote?, if_neg (Ne.symm hs.1), htail, Option.map_none]
      rw [List.nil_append, hnone]
      rfl
  | cons c a ih =>
    rw [List.cons_append, untilQuote?, untilQuote?]
    split
    · rfl
    · rw [Option.map_map, Option.map_map]
      have hcons := congrArg (Option.map (c :: ·)) ih
      rw [Option.map_map, Option.map_map] at hcons
      exact hcons

/-- A quoted text at the front does not reach into text without its quote. -/
theorem quotedBy?_append_of_notMem {q : Char} {s : List Char} (hs : q ∉ s) (a : List Char) :
    quotedBy? q (a ++ s) = quotedBy? q a := by
  cases a with
  | nil =>
    cases s with
    | nil => rfl
    | cons c s =>
      rw [List.mem_cons, not_or] at hs
      exact if_neg (Ne.symm hs.1)
  | cons c a =>
    rw [List.cons_append, quotedBy?, quotedBy?]
    split
    · exact untilQuote?_append_of_notMem hs a
    · rfl

/-- The name that options give does not change with text behind them. -/
theorem nameOption_append_brace {s : List Char} (hcolon : ':' ∉ s) (hsingle : '\'' ∉ s)
    (hdouble : '"' ∉ s) (k : List Char) : nameOption (k ++ '{' :: s) = nameOption k := by
  have hbehind : ∀ {q : Char}, q ≠ '{' → q ∉ s → q ∉ '{' :: s := fun hne hq hmem =>
    (List.mem_cons.mp hmem).elim hne hq
  refine optionValue_append_brace (by decide) (by decide) hcolon (fun r => ?_) k
  rw [quotedBy?_append_of_notMem (hbehind (by decide) hsingle),
    quotedBy?_append_of_notMem (hbehind (by decide) hdouble)]

/-- The tags that options give do not change with text behind them. -/
theorem tagsOption_append_brace {s : List Char} (hcolon : ':' ∉ s) (hbracket : ']' ∉ s)
    (k : List Char) : tagsOption (k ++ '{' :: s) = tagsOption k := by
  have hbehind : ']' ∉ '{' :: s := fun hmem =>
    (List.mem_cons.mp hmem).elim (fun h => absurd h (by decide)) hbracket
  refine optionValue_append_brace (by decide) (by decide) hcolon (fun r => ?_) k
  cases r with
  | nil => rfl
  | cons c r =>
    by_cases hc : c = '['
    · have hlist := congrArg (Option.map tagsOf) (untilQuote?_append_of_notMem hbehind r)
      rw [Option.map_map, Option.map_map] at hlist
      rw [hc]
      exact hlist
    · split
      · rename_i heq
        exact absurd (List.cons.inj heq).1 hc
      · split
        · rename_i heq
          exact absurd (List.cons.inj heq).1 hc
        · rfl

/-- Texts up to their first quote are told apart from what follows the quote. -/
theorem append_quote_inj {q : Char} {a a' : List Char} (ha : q ∉ a) (ha' : q ∉ a')
    {s s' : List Char} (h : a ++ q :: s = a' ++ q :: s') : a = a' ∧ s = s' := by
  have hread := untilQuote?_append ha s
  rw [h, untilQuote?_append ha' s', Option.some.injEq, Prod.mk.injEq] at hread
  exact ⟨hread.1.symm, hread.2.symm⟩

/-! ## Tags -/

/-- The tag in single quotes, as it is written. -/
def quotedTag (t : List Char) : List Char := '\'' :: t ++ ['\'']

/-- A quoted tag behind blanks is read back. -/
theorem trimWhile_quotedTag {b t : List Char} (hb : ∀ c ∈ b, isBlank c = true)
    (ht : ∀ c ∈ t, isQuote c = false) : trimWhile isQuote (trim (b ++ quotedTag t)) = t := by
  have hblank : trim (b ++ (quotedTag t ++ [])) = quotedTag t := by
    refine trimWhile_append hb (fun c hc => absurd hc List.not_mem_nil) ?_ ?_
    · intro c hc
      obtain rfl : '\'' = c := by simpa [quotedTag] using hc
      decide
    · intro c hc
      obtain rfl : '\'' = c := by simpa [quotedTag] using hc
      decide
  rw [List.append_nil] at hblank
  rw [hblank]
  refine trimWhile_append (l := ['\'']) (r := ['\'']) (by decide) (by decide) ?_ ?_
  · intro c hc
    exact ht c (List.mem_of_mem_head? hc)
  · intro c hc
    exact ht c (List.mem_reverse.mp (List.mem_of_mem_head? hc))

/-- Whether a text may stand as a tag in a list: it is not nothing, and holds no quote and nothing
that would end the tag or the list. -/
def IsTag (t : List Char) : Prop := t ≠ [] ∧ ∀ c ∈ t, isQuote c = false ∧ c ≠ ',' ∧ c ≠ ']'

theorem comma_notMem_quotedTag {b t : List Char} (hb : ∀ c ∈ b, isBlank c = true) (ht : IsTag t) :
    ',' ∉ b ++ quotedTag t := by
  intro h
  simp only [quotedTag, List.mem_append, List.mem_cons, List.not_mem_nil, or_false] at h
  rcases h with h | (h | h) | h
  · exact absurd (hb ',' h) (by decide)
  · exact absurd h (by decide)
  · exact (ht.2 ',' h).2.1 rfl
  · exact absurd h (by decide)

/-- The bracket that closes a list does not stand in front of its end. -/
theorem bracket_notMem_join {ts : List (List Char)} (hts : ∀ t ∈ ts, IsTag t) :
    ']' ∉ join ", ".toList (ts.map quotedTag) := by
  apply notMem_join (by decide)
  intro t ht h
  obtain ⟨u, hu, rfl⟩ := List.mem_map.mp ht
  rw [quotedTag, List.cons_append, List.mem_cons, List.mem_append] at h
  rcases h with h | h | h
  · exact absurd h (by decide)
  · exact ((hts u hu).2 _ h).2.2 rfl
  · exact absurd h (by decide)

/-- The tags of a list behind blanks are read back, in order. -/
theorem tagsOf_append_join {ts : List (List Char)} (hts : ∀ t ∈ ts, IsTag t) (hne : ts ≠ [])
    {b : List Char} (hb : ∀ c ∈ b, isBlank c = true) :
    tagsOf (b ++ join ", ".toList (ts.map quotedTag)) = ts := by
  induction ts generalizing b with
  | nil => exact absurd rfl hne
  | cons t ts ih =>
    have ht := hts t List.mem_cons_self
    have hread := trimWhile_quotedTag hb fun c hc => (ht.2 c hc).1
    have hkeep : (!t.isEmpty) = true := by simpa using ht.1
    -- the next piece begins with the blank behind the comma
    cases ts with
    | nil =>
      simp only [tagsOf, List.map_cons, List.map_nil, join,
        splitAt_of_notMem (comma_notMem_quotedTag hb ht), hread, List.filter_cons, hkeep]
      rfl
    | cons u ts =>
      have hrest := ih (fun v hv => hts v (List.mem_cons_of_mem t hv)) (List.cons_ne_nil u ts)
        (b := [' ']) (by decide)
      have hsplit : b ++ join ", ".toList ((t :: u :: ts).map quotedTag) =
          (b ++ quotedTag t) ++ ',' :: ([' '] ++ join ", ".toList ((u :: ts).map quotedTag)) := by
        simp [join]
      rw [hsplit, tagsOf, splitAt_append_cons (comma_notMem_quotedTag hb ht), List.map_cons, hread,
        List.filter_cons, if_pos hkeep]
      rw [tagsOf] at hrest
      rw [hrest]

/-- **Tags that are written as a list are read back**, in order. -/
theorem tagsOf_join {ts : List (List Char)} (hts : ∀ t ∈ ts, IsTag t) :
    tagsOf (join ", ".toList (ts.map quotedTag)) = ts := by
  cases ts with
  | nil => rfl
  | cons t ts =>
    have hnone : ∀ c ∈ [], isBlank c = true := fun c hc => absurd hc List.not_mem_nil
    exact tagsOf_append_join hts (List.cons_ne_nil t ts) hnone

end ComponentStories.Template
