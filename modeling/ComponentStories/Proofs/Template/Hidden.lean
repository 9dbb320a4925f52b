import ComponentStories.Proofs.Template.Keys
import ComponentStories.Proofs.Template.Pairs

/-
# Keys that stand inside of quoted texts

A key is looked for in all of the options, the quoted texts included.  So a text may hide a value of
the key: inside of it stand a boundary and the key, and a value is read behind them (`Hides`).
Among pairs of a key and a text, the value that is found is one that is hidden in front of the pair
with the key, if there is one, and that of the pair otherwise (`findKey_behind_cases`).
-/

namespace ComponentStories.Template

open ComponentStories.Text

variable {α : Type} {key : List Char} {read : List Char → Option α}

/-! ## Text that hides a value -/

/-- Inside of a text stands the key behind a boundary, and behind the key, up to what follows
the text, a value is read. -/
def Hides (key : List Char) (read : List Char → Option α) (text tail : List Char) (v : α) : Prop :=
  ∃ a c b, text = a ++ c :: (key ++ b) ∧ isKeyBoundary c = true ∧
    read (skipBlanks (b ++ tail)) = some v

theorem not_hides_nil (tail : List Char) (v : α) : ¬ Hides key read [] tail v := by
  rintro ⟨a, c, b, htext, -, -⟩
  cases a <;> cases htext

/-- A value is hidden behind the first character or further on. -/
theorem hides_cons {c : Char} {text tail : List Char} {v : α} :
    Hides key read (c :: text) tail v ↔
      (isKeyBoundary c = true ∧
        ((dropLead? key text).bind fun b => read (skipBlanks (b ++ tail))) = some v) ∨
      Hides key read text tail v := by
  constructor
  · rintro ⟨a, d, b, htext, hd, hread⟩
    cases a with
    | nil =>
      obtain ⟨rfl, rfl⟩ := List.cons.inj htext
      left
      rw [dropLead?_append]
      exact ⟨hd, hread⟩
    | cons e a => exact Or.inr ⟨a, d, b, (List.cons.inj htext).2, hd, hread⟩
  · rintro (⟨hc, hread⟩ | ⟨a, d, b, rfl, hd, hread⟩)
    · obtain ⟨b, hb, hread⟩ := Option.bind_eq_some_iff.mp hread
      rw [dropLead?_eq_some_iff] at hb
      exact ⟨[], c, b, by rw [hb]; rfl, hc, hread⟩
    · exact ⟨c :: a, d, b, rfl, hd, hread⟩

instance decidableHides (tail : List Char) :
    ∀ text : List Char, Decidable (∃ v, Hides key read text tail v)
  | [] => isFalse fun ⟨v, h⟩ => not_hides_nil tail v h
  | c :: text =>
    have := decidableHides tail text
    decidable_of_iff
      ((isKeyBoundary c = true ∧
        ((dropLead? key text).bind fun b => read (skipBlanks (b ++ tail))).isSome = true) ∨
      ∃ v, Hides key read text tail v) (by
        simp only [hides_cons, exists_or, exists_and_left, Option.isSome_iff_exists])

/-- **A value that is hidden in a text is taken.**  If there is none, the
search goes on behind the text. -/
theorem findKey_append_cons_cases {q : Char} (hq : q ∉ key) (text s : List Char) :
    (∃ v, Hides key read text (q :: s) v ∧ findKey key read (text ++ q :: s) = some v) ∨
      ((¬ ∃ v, Hides key read text (q :: s) v) ∧
        findKey key read (text ++ q :: s) = findKey key read (q :: s)) := by
  induction text with
  | nil => exact Or.inr ⟨fun ⟨v, h⟩ => not_hides_nil _ v h, rfl⟩
  | cons c text ih =>
    -- the key ends inside the text, but its value may reach over the end
    have hvalue : ((dropLead? key (text ++ q :: s)).map skipBlanks).bind read =
        (dropLead? key text).bind fun b => read (skipBlanks (b ++ q :: s)) := by
      rw [dropLead?_append_cons hq]
      cases dropLead? key text <;> rfl
    have hnext : findKey key read (c :: text ++ q :: s) =
        if isKeyBoundary c = true then
          ((dropLead? key text).bind fun b => read (skipBlanks (b ++ q :: s))).or
            (findKey key read (text ++ q :: s))
        else findKey key read (text ++ q :: s) := by
      rw [List.cons_append, findKey, hvalue]
    by_cases hhere : ∃ v, isKeyBoundary c = true ∧
        ((dropLead? key text).bind fun b => read (skipBlanks (b ++ q :: s))) = some v
    · obtain ⟨v, hc, hread⟩ := hhere
      refine Or.inl ⟨v, hides_cons.mpr (Or.inl ⟨hc, hread⟩), ?_⟩
      rw [hnext, if_pos hc, hread, Option.some_or]
    · have hrest : findKey key read (c :: text ++ q :: s) = findKey key read (text ++ q :: s) := by
        rw [hnext]
        split
        · rename_i hc
          rw [Option.eq_none_iff_forall_ne_some.mpr fun v hv => hhere ⟨v, hc, hv⟩, Option.none_or]
        · rfl
      rw [hrest]
      rcases ih with ⟨v, hv, hfind⟩ | ⟨hnone, hfind⟩
      · exact Or.inl ⟨v, hides_cons.mpr (Or.inr hv), hfind⟩
      · refine Or.inr ⟨?_, hfind⟩
        rintro ⟨v, hv⟩
        rcases hides_cons.mp hv with hv | hv
        · exact hhere ⟨v, hv⟩
        · exact hnone ⟨v, hv⟩

/-! ## Looking for a key among pairs -/

/-- No key stands among blanks behind a boundary, so it is looked for at their end. -/
theorem findKey_cons_append {c : Char} (hc : isKeyBoundary c = true) (hne : key ≠ [])
    (hkey : ∀ c ∈ key, isBlank c = false) {b : List Char} (hb : AllBlank b) (s : List Char) :
    findKey key read (c :: (b ++ s)) =
      (((dropLead? key s).map skipBlanks).bind read).or (findKey key read s) := by
  induction b generalizing c with
  | nil => rw [List.nil_append, findKey, if_pos hc]
  | cons d b ih =>
    have hd : isBlank d = true := hb d List.mem_cons_self
    have hnone : dropLead? key (d :: (b ++ s)) = none := by
      cases key with
      | nil => exact absurd rfl hne
      | cons k key =>
        refine if_neg ?_
        rintro rfl
        rw [hkey _ List.mem_cons_self] at hd
        exact absurd hd (by decide)
    rw [findKey, if_pos hc, List.cons_append, hnone]
    exact ih (by rw [isKeyBoundary, hd]; rfl) fun e he => hb e (List.mem_cons_of_mem d he)

theorem findKey_append_of_forall {a : List Char} (ha : ∀ c ∈ a, isKeyBoundary c = false)
    (s : List Char) : findKey key read (a ++ s) = findKey key read s := by
  induction a with
  | nil => rfl
  | cons c a ih =>
    rw [List.cons_append, findKey, if_neg (by rw [ha c List.mem_cons_self]; decide)]
    exact ih fun d hd => ha d (List.mem_cons_of_mem c hd)

/-- A key is found in front of a colon if it is the one that stands there. -/
theorem dropLead?_append_colon {name a : List Char} (hname : ':' ∉ name) (ha : ':' ∉ a)
    (s : List Char) :
    dropLead? (name ++ [':']) (a ++ ':' :: s) = if a = name then some s else none := by
  split
  · rename_i heq
    rw [heq, dropLead?_eq_some_iff, List.append_assoc]
    rfl
  · rename_i hne
    rw [Option.eq_none_iff_forall_ne_some]
    intro r hr
    rw [dropLead?_eq_some_iff, List.append_assoc] at hr
    exact hne (append_quote_inj ha hname hr).1

/-- The key of a pair holds no boundary. -/
theorem isKeyBoundary_eq_false {c : Char} (hc : isKeyChar c = true) : isKeyBoundary c = false := by
  have hne : ∀ x, isKeyChar x = false → (c == x) = false := by
    intro x hx
    rw [beq_eq_false_iff_ne]
    rintro rfl
    rw [hc] at hx
    exact absurd hx (by decide)
  have hblank : isBlank c = false := by
    rw [isKeyChar, Bool.and_eq_true, Bool.not_eq_true'] at hc
    exact hc.1
  rw [isKeyBoundary, hblank, hne ',' (by decide), hne '{' (by decide)]
  rfl

namespace OptionPair

variable {name : List Char}

/-- The quote of a pair does not stand in a key with its colon. -/
theorem quote_notMem (p : OptionPair) (hname : ∀ c ∈ name, isKeyChar c = true) :
    p.quote ∉ name ++ [':'] := by
  rw [List.mem_append, not_or]
  refine ⟨notMem_of_forall hname p.isKeyChar_quote, ?_⟩
  rcases p.quote_eq with h | h <;> rw [h] <;> decide

/-- A key is looked for at the key of a pair, and then inside of its text. -/
theorem findKey_chars_append (hname : ∀ c ∈ name, isKeyChar c = true) {pad : List Char}
    (hpad : AllBlank pad) (p : OptionPair) (r : List Char) :
    findKey (name ++ [':']) read (',' :: (pad ++ (p.chars ++ r))) =
      (if p.key.toList = name then read (p.quote :: (p.text.toList ++ p.quote :: (p.trail ++ r)))
        else none).or
      (findKey (name ++ [':']) read (p.text.toList ++ p.quote :: (p.trail ++ r))) := by
  have hblank : ∀ c ∈ name ++ [':'], isBlank c = false := by
    intro c hc
    rcases List.mem_append.mp hc with hc | hc
    · have h := hname c hc
      rw [isKeyChar, Bool.and_eq_true, Bool.not_eq_true'] at h
      exact h.1
    · rw [List.mem_singleton.mp hc]
      decide
  have hlead : AllBlank (pad ++ p.lead) := fun c hc =>
    (List.mem_append.mp hc).elim (hpad c) (p.blank.1 c)
  have hsplit : pad ++ (p.chars ++ r) = (pad ++ p.lead) ++ (p.key.toList ++ ':' ::
      (p.gap ++ p.quote :: (p.text.toList ++ p.quote :: (p.trail ++ r)))) := by
    simp only [chars, front, List.append_assoc, List.cons_append, List.nil_append]
  have hkey : ∀ c ∈ p.key.toList ++ [':'], isKeyBoundary c = false := by
    intro c hc
    rcases List.mem_append.mp hc with hc | hc
    · exact isKeyBoundary_eq_false (p.isKey c hc)
    · rw [List.mem_singleton.mp hc]
      decide
  have hbehind : ∀ s, findKey (name ++ [':']) read
      (p.key.toList ++ ':' :: (p.gap ++ p.quote :: s)) = findKey (name ++ [':']) read s := by
    intro s
    have hassoc : p.key.toList ++ ':' :: (p.gap ++ p.quote :: s) =
        (p.key.toList ++ [':']) ++ (p.gap ++ p.quote :: s) := by
      rw [List.append_assoc]
      rfl
    rw [hassoc, findKey_append_of_forall hkey,
      findKey_append_cons (x := ':') (by simp) (notMem_of_forall p.blank.2.1 (by decide))
        (p.quote_notMem hname), findKey, if_neg (by rw [p.isKeyBoundary_quote]; decide)]
  rw [hsplit, findKey_cons_append (by decide) (by simp) hblank hlead,
    dropLead?_append_colon (notMem_of_forall hname (by decide))
      (notMem_of_forall p.isKey (by decide)), hbehind]
  congr 1
  split
  · rw [Option.map_some, Option.bind_some, skipBlanks_append p.blank.2.1]
    rintro c hc
    rw [List.head?_cons, Option.mem_some_iff] at hc
    rw [← hc]
    rcases p.quote_eq with h | h <;> rw [h] <;> decide
  · rfl

/-- No key stands between the text of a pair and the next pair. -/
theorem findKey_quote_behind (hname : ∀ c ∈ name, isKeyChar c = true) (p : OptionPair)
    (ps : List OptionPair) :
    findKey (name ++ [':']) read (p.quote :: (p.trail ++ behind ps)) =
      findKey (name ++ [':']) read (behind ps) := by
  have hcolon : ':' ∈ name ++ [':'] := by simp
  have htrail : ':' ∉ p.trail := notMem_of_forall p.blank.2.2 (by decide)
  rw [findKey, if_neg (by rw [p.isKeyBoundary_quote]; decide)]
  cases ps with
  | nil =>
    rw [behind, List.flatMap_nil, List.append_nil, findKey_eq_none hcolon htrail]
    rfl
  | cons q ps =>
    have hcomma : ',' ∉ name ++ [':'] := by
      rw [List.mem_append, not_or]
      exact ⟨notMem_of_forall hname (by decide), by decide⟩
    rw [behind, List.flatMap_cons, List.cons_append, findKey_append_cons hcolon htrail hcomma]

/-- A value of the key is hidden in the text of a pair, and neither this pair nor one in front of it
has a value of its own for the key. -/
def Hidden (own : OptionPair → Option α) (key : List Char) (read : List Char → Option α)
    (ps : List OptionPair) (v : α) : Prop :=
  ∃ before p after, ps = before ++ p :: after ∧ (∀ q ∈ before ++ [p], own q = none) ∧
    Hides key read p.text.toList (p.quote :: (p.trail ++ behind after)) v

theorem not_hidden_nil (own : OptionPair → Option α) (v : α) : ¬ Hidden own key read [] v := by
  rintro ⟨before, p, after, hps, -⟩
  cases before <;> cases hps

/-- A value is hidden in the first pair or further on. -/
theorem hidden_cons {own : OptionPair → Option α} {p : OptionPair} {ps : List OptionPair} {v : α} :
    Hidden own key read (p :: ps) v ↔ own p = none ∧
      (Hides key read p.text.toList (p.quote :: (p.trail ++ behind ps)) v ∨
        Hidden own key read ps v) := by
  constructor
  · rintro ⟨before, q, after, hps, hown, hides⟩
    cases before with
    | nil =>
      obtain ⟨rfl, rfl⟩ := List.cons.inj hps
      exact ⟨hown p List.mem_cons_self, Or.inl hides⟩
    | cons b before =>
      obtain ⟨rfl, rfl⟩ := List.cons.inj hps
      refine ⟨hown p List.mem_cons_self, Or.inr ⟨before, q, after, rfl, ?_, hides⟩⟩
      exact fun o ho => hown o (List.mem_cons_of_mem p ho)
  · rintro ⟨hp, hides | ⟨before, q, after, rfl, hown, hides⟩⟩
    · exact ⟨[], p, ps, rfl, by simpa using hp, hides⟩
    · refine ⟨p :: before, q, after, rfl, ?_, hides⟩
      intro o ho
      rcases List.mem_cons.mp ho with rfl | ho
      · exact hp
      · exact hown o ho

instance decidableHidden (own : OptionPair → Option α) :
    ∀ ps : List OptionPair, Decidable (∃ v, Hidden own key read ps v)
  | [] => isFalse fun ⟨v, h⟩ => not_hidden_nil own v h
  | p :: ps =>
    have := decidableHidden own ps
    decidable_of_iff ((own p).isNone = true ∧
      ((∃ v, Hides key read p.text.toList (p.quote :: (p.trail ++ behind ps)) v) ∨
        ∃ v, Hidden own key read ps v)) (by
        simp only [hidden_cons, exists_and_left, exists_or, Option.isNone_iff_eq_none])

/-- **What is found among pairs**: a value that is hidden in a text in front of the pair with the
key, and the value of this pair if there is none. -/
theorem findKey_behind_cases {own : OptionPair → Option α}
    (hname : ∀ c ∈ name, isKeyChar c = true)
    (hown : ∀ (p : OptionPair) r, (if p.key.toList = name then
      read (p.quote :: (p.text.toList ++ p.quote :: r)) else none) = own p)
    (ps : List OptionPair) :
    (∃ v, Hidden own (name ++ [':']) read ps v ∧
        findKey (name ++ [':']) read (behind ps) = some v) ∨
      ((¬ ∃ v, Hidden own (name ++ [':']) read ps v) ∧
        findKey (name ++ [':']) read (behind ps) = ps.findSome? own) := by
  induction ps with
  | nil => exact Or.inr ⟨fun ⟨v, h⟩ => not_hidden_nil own v h, rfl⟩
  | cons p ps ih =>
    have hfirst : findKey (name ++ [':']) read (behind (p :: ps)) = (own p).or
        (findKey (name ++ [':']) read (p.text.toList ++ p.quote :: (p.trail ++ behind ps))) := by
      rw [← hown p (p.trail ++ behind ps)]
      exact findKey_chars_append hname (by decide : AllBlank []) p (behind ps)
    simp only [hidden_cons]
    rw [hfirst, List.findSome?_cons]
    cases hp : own p with
    | some v => exact Or.inr ⟨fun ⟨_, h, _⟩ => absurd h (by simp), Option.some_or⟩
    | none =>
      rw [Option.none_or]
      rcases findKey_append_cons_cases (p.quote_notMem hname) p.text.toList
        (p.trail ++ behind ps) with ⟨v, hv, hfind⟩ | ⟨hno, hfind⟩
      · exact Or.inl ⟨v, ⟨rfl, Or.inl hv⟩, hfind⟩
      · rw [hfind, findKey_quote_behind hname]
        rcases ih with ⟨v, hv, hrest⟩ | ⟨hnone, hrest⟩
        · exact Or.inl ⟨v, ⟨rfl, Or.inr hv⟩, hrest⟩
        · refine Or.inr ⟨?_, hrest⟩
          rintro ⟨v, -, hv | hv⟩
          · exact hno ⟨v, hv⟩
          · exact hnone ⟨v, hv⟩

/-- A key at the front of options or behind a boundary stands behind a boundary
if a comma is put in front. -/
theorem optionValue_pairChars (hname : ∀ c ∈ name, isKeyChar c = true) {pad : List Char}
    (hpad : AllBlank pad) (ps : List OptionPair) :
    optionValue (name ++ [':']) read (pairChars pad ps) =
      findKey (name ++ [':']) read (behind ps) := by
  have hcomma : ∀ s, optionValue (name ++ [':']) read s =
      findKey (name ++ [':']) read (',' :: s) := by
    intro s
    rw [optionValue, findKey, if_pos (by decide)]
  rw [hcomma, pairChars]
  cases ps with
  | nil =>
    have hcolon : ':' ∉ ',' :: pad := by
      rw [List.mem_cons, not_or]
      exact ⟨by decide, notMem_of_forall hpad (by decide)⟩
    rw [List.map_nil, join, List.append_nil, findKey_eq_none (x := ':') (by simp) hcolon]
    rfl
  | cons p ps =>
    rw [join_cons_chars, findKey_chars_append hname hpad]
    exact (findKey_chars_append hname (by decide : AllBlank []) p (behind ps)).symm

/-! ## The name and the tags -/

/-- The text in single or double quotes at the front. -/
def quotedText? (s : List Char) : Option (List Char) := (quotedBy? '\'' s).or (quotedBy? '"' s)

/-- The list of tags at the front. -/
def tagList? : List Char → Option (List (List Char))
  | '[' :: s => (untilQuote? ']' s).map fun x => tagsOf x.1
  | _ => none

/-- The name that a pair gives. -/
def name? (p : OptionPair) : Option (List Char) :=
  if p.key = "name" then some p.text.toList else none

/-- The name that pairs give by themselves is the text of the first pair with the key `name`. -/
theorem findSome?_name? (ps : List OptionPair) : ps.findSome? name? =
    (ps.find? fun p => p.key = "name").map fun p => p.text.toList := by
  induction ps with
  | nil => rfl
  | cons p ps ih =>
    by_cases hp : p.key = "name" <;> simp [name?, hp, ih]

/-- A name is hidden in the text of a pair in front of the pair with the key `name`. -/
def HiddenName (ps : List OptionPair) (v : List Char) : Prop :=
  Hidden name? "name:".toList quotedText? ps v

/-- A list of tags is hidden in the text of a pair. -/
def HiddenTags (ps : List OptionPair) (ts : List (List Char)) : Prop :=
  Hidden (fun _ => none) "tags:".toList tagList? ps ts

instance (ps : List OptionPair) : Decidable (∃ v, HiddenName ps v) :=
  inferInstanceAs (Decidable (∃ v, Hidden _ _ _ ps v))

instance (ps : List OptionPair) : Decidable (∃ ts, HiddenTags ps ts) :=
  inferInstanceAs (Decidable (∃ ts, Hidden _ _ _ ps ts))

/-- The quoted text of a pair is read as it is. -/
theorem quotedText?_append (p : OptionPair) (r : List Char) :
    quotedText? (p.quote :: (p.text.toList ++ p.quote :: r)) = some p.text.toList := by
  have hread : quotedBy? p.quote (p.quote :: (p.text.toList ++ p.quote :: r)) =
      some p.text.toList := by
    rw [quotedBy?, if_pos rfl, untilQuote?_append p.closed, Option.map_some]
  rw [quotedText?]
  rcases p.quote_eq with h | h
  · rw [h] at hread ⊢
    rw [hread, Option.some_or]
  · have hother : quotedBy? '\'' ('"' :: (p.text.toList ++ '"' :: r)) = none := by
      rw [quotedBy?, if_neg (by decide)]
    rw [h] at hread ⊢
    rw [hother, Option.none_or, hread]

/-- **The name that pairs give** is one that is hidden in a text in front of the pair with the key
`name`, and the text of this pair if there is none. -/
theorem nameOption_pairChars {pad : List Char} (hpad : AllBlank pad) (ps : List OptionPair) :
    (∃ v, HiddenName ps v ∧ nameOption (pairChars pad ps) = some v) ∨
      ((¬ ∃ v, HiddenName ps v) ∧ nameOption (pairChars pad ps) = ps.findSome? name?) := by
  have hname : ∀ c ∈ "name".toList, isKeyChar c = true := by decide
  have hown : ∀ (p : OptionPair) r, (if p.key.toList = "name".toList then
      quotedText? (p.quote :: (p.text.toList ++ p.quote :: r)) else none) = p.name? := by
    intro p r
    rw [quotedText?_append, name?]
    simp only [String.toList_inj]
  have hoption : nameOption (pairChars pad ps) =
      findKey ("name".toList ++ [':']) quotedText? (behind ps) :=
    optionValue_pairChars hname hpad ps
  rw [hoption]
  exact findKey_behind_cases hname hown ps

/-- **The tags that pairs give** are hidden in a text.  The quoted text of
a pair is no list of tags. -/
theorem tagsOption_pairChars {pad : List Char} (hpad : AllBlank pad) (ps : List OptionPair) :
    (∃ ts, HiddenTags ps ts ∧ tagsOption (pairChars pad ps) = some ts) ∨
      ((¬ ∃ ts, HiddenTags ps ts) ∧ tagsOption (pairChars pad ps) = none) := by
  have hname : ∀ c ∈ "tags".toList, isKeyChar c = true := by decide
  have hown : ∀ (p : OptionPair) r, (if p.key.toList = "tags".toList then
      tagList? (p.quote :: (p.text.toList ++ p.quote :: r)) else none) = none := by
    intro p r
    have hquote : p.quote ≠ '[' := by
      rcases p.quote_eq with h | h <;> rw [h] <;> decide
    have hnone : tagList? (p.quote :: (p.text.toList ++ p.quote :: r)) = none := by
      rw [tagList?]
      exact fun s hs => hquote (List.cons.inj hs).1
    rw [hnone, ite_self]
  have hoption : tagsOption (pairChars pad ps) =
      findKey ("tags".toList ++ [':']) tagList? (behind ps) :=
    optionValue_pairChars hname hpad ps
  have hcases := findKey_behind_cases hname hown ps
  rw [List.findSome?_eq_none_iff.mpr fun _ _ => rfl] at hcases
  rw [hoption]
  exact hcases

end OptionPair

end ComponentStories.Template
