import ComponentStories.Yaml.Decode
import Mathlib.Data.List.Forall2

/-
# What a reading of nodes gives

`Decode.Yields` says that whatever a reading gives has a property, and each way of putting readings
together has a lemma.  What is read is told by the tree alone: `Document.keys`, `Document.value?`
and `Document.texts` are the keys, the values and the texts that stand at a node, without the depth
and the number of references that a reading counts.
-/

namespace ComponentStories.Yaml

/-! ## What stands at a node -/

namespace Document

/-- The node itself, or the node that a reference stands for. -/
def resolved (d : Document) : Node → Node
  | .reference slot => (d.nodeAt? slot).getD (.reference slot)
  | n => n

/-- The text of the scalar that a node is. -/
def textAt (d : Document) (n : Node) : String :=
  match d.resolved n with
  | .scalar _ _ s => String.ofList s
  | _ => ""

/-- The entries of the mapping that a node is. -/
def entries (d : Document) (n : Node) : List (Node × Node) :=
  match d.resolved n with
  | .mapping _ es => es
  | _ => []

/-- The keys of the mapping that a node is, in order. -/
def keys (d : Document) (n : Node) : List String := (d.entries n).map fun e => d.textAt e.1

/-- The value of a key in the mapping that a node is. -/
def value? (d : Document) (n : Node) (key : String) : Option Node :=
  ((d.entries n).find? fun e => d.textAt e.1 == key).map fun e => d.resolved e.2

/-- The texts of the sequence that a node is, in order. -/
def texts (d : Document) (n : Node) : List String :=
  match d.resolved n with
  | .sequence _ items => items.map d.textAt
  | _ => []

/-- The node that some keys lead to, one inside the other. -/
def nodeOf? (d : Document) (path : List String) : Option Node := path.foldlM d.value? d.root

/-- The keys of the mapping that some keys lead to, in order. -/
def keysOf (d : Document) (path : List String) : List String :=
  ((d.nodeOf? path).map d.keys).getD []

/-- The texts of the sequence that some keys lead to, in order. -/
def textsOf (d : Document) (path : List String) : List String :=
  ((d.nodeOf? path).map d.texts).getD []

end Document

namespace Decode

variable {α β : Type}

/-! ## Putting readings together -/

/-- Whatever the reading gives has the property. -/
def Yields (m : Decode α) (P : α → Prop) : Prop := ∀ left r, m left = some r → P r.1

theorem Yields.pure {P : α → Prop} {a : α} (h : P a) : Yields (Pure.pure a) P := by
  intro left r hr
  obtain rfl : (a, left) = r := Option.some.inj hr
  exact h

/-- A reading that goes on after another one has the property if it does wherever it starts. -/
theorem Yields.bind {P : α → Prop} {Q : β → Prop} {m : Decode α} {f : α → Decode β}
    (hm : Yields m P) (hf : ∀ a, P a → Yields (f a) Q) : Yields (m >>= f) Q := by
  intro left r hr
  obtain ⟨⟨a, rest⟩, ha, hb⟩ := Option.bind_eq_some_iff.mp hr
  exact hf a (hm left (a, rest) ha) rest r hb

theorem yields_true (m : Decode α) : Yields m fun _ => True := fun _ _ _ => trivial

theorem yields_failure {P : α → Prop} : Yields (failure : Decode α) P := fun _ _ h => nomatch h

theorem Yields.imp {P Q : α → Prop} {m : Decode α} (hm : Yields m P) (h : ∀ a, P a → Q a) :
    Yields m Q :=
  fun left r hr => h r.1 (hm left r hr)

theorem yields_self (m : Decode α) : Yields m fun a => ∃ left rest, m left = some (a, rest) :=
  fun left r hr => ⟨left, r.2, hr⟩

/-- Readings one after the other give what each of them gives. -/
theorem Yields.mapM {R : α → β → Prop} {f : α → Decode β} (hf : ∀ a, Yields (f a) (R a))
    (l : List α) : Yields (l.mapM f) (List.Forall₂ R l) := by
  induction l with
  | nil =>
    rw [List.mapM_nil]
    exact .pure .nil
  | cons a l ih =>
    rw [List.mapM_cons]
    exact (hf a).bind fun b hb => ih.bind fun bs hbs => .pure (.cons hb hbs)

/-- All that readings one after the other give has a property that each of them gives. -/
theorem Yields.mapM_mem {P : β → Prop} {f : α → Decode β}
    (hf : ∀ a, Yields (f a) P) (l : List α) : Yields (l.mapM f) fun bs => ∀ b ∈ bs, P b := by
  refine (Yields.mapM (R := fun _ => P) hf l).imp fun bs hbs => ?_
  induction hbs with
  | nil => exact fun _ hb => absurd hb List.not_mem_nil
  | cons h _ ih => exact List.forall_mem_cons.mpr ⟨h, ih⟩

/-! ## Single nodes -/

variable (d : Document)

/-- What is read is what the node stands for. -/
theorem yields_target (n : Node) : Yields (target d n) (· = d.resolved n) := by
  cases n with
  | reference slot =>
    intro left r hr
    unfold target at hr
    dsimp only at hr
    split at hr
    · rename_i m hm
      obtain rfl := Option.some.inj hr
      rw [Document.resolved, hm, Option.getD_some]
    · cases hr
  | scalar tag plain s => exact .pure rfl
  | sequence tag items => exact .pure rfl
  | mapping tag entries => exact .pure rfl

theorem yields_text (n : Node) : Yields (text d n) (· = d.textAt n) := by
  refine (yields_target d n).bind fun m hm => ?_
  split
  · refine .pure ?_
    rw [Document.textAt, ← hm]
  · exact yields_failure

/-- A value that may be null is what is read of the node; nothing but a scalar is null. -/
theorem Yields.optional {P : Node → α → Prop} {read : Node → Decode α}
    (hread : ∀ n, Yields (read n) (P n)) (n : Node) :
    Yields (optional d read n) fun
      | some x => P (d.resolved n) x
      | none => ∃ tag plain s, d.resolved n = .scalar tag plain s := by
  refine (yields_target d n).bind ?_
  rintro m rfl
  split
  · rename_i heq
    split
    · exact .pure ⟨_, _, _, heq⟩
    · exact yields_failure
  · rename_i heq
    split
    · exact .pure ⟨_, _, _, heq⟩
    · exact (hread _).bind fun x hx => .pure hx
  · exact (hread _).bind fun x hx => .pure hx

/-! ## Collections -/

theorem resolved_of_isBlankScalar {n : Node} (h : isBlankScalar (d.resolved n) = true) :
    d.entries n = [] ∧ d.texts n = [] := by
  rw [Document.entries, Document.texts]
  generalize d.resolved n = m at h
  cases m with
  | scalar tag plain s => exact ⟨rfl, rfl⟩
  | sequence tag items => exact nomatch h
  | mapping tag entries => exact nomatch h
  | reference slot => exact nomatch h

/-- The entries of a mapping are read in order: the text of each key, and the value
one collection further in. -/
theorem Yields.mapping_entries {R : Nat → Node → α → Prop} {read : Nat → Node → Decode α}
    (hread : ∀ depth n, Yields (read depth n) (R depth n)) (depth : Nat) (n : Node) :
    Yields (Decode.mapping d read depth n) (List.Forall₂ 
      (fun e x => x.1 = d.textAt e.1 ∧ R (depth - 1) e.2 x.2) (d.entries n)) := by
  refine (yields_target d n).bind ?_
  rintro m rfl
  split
  · rename_i es depth heq
    have hes : d.entries n = es := by rw [Document.entries, heq]
    have hentry : ∀ e : Node × Node, Yields (do
        let k ← text d e.1
        let v ← read depth e.2
        Pure.pure (k, v)) fun x => x.1 = d.textAt e.1 ∧ R depth e.2 x.2 := fun e =>
      (yields_text d e.1).bind fun k hk => (hread depth e.2).bind fun v hv => .pure ⟨hk, hv⟩
    rw [hes]
    exact Yields.mapM hentry es
  · split
    · rename_i hblank
      refine .pure ?_
      rw [(resolved_of_isBlankScalar d hblank).1]
      exact .nil
    · exact yields_failure

/-- The entries of a mapping have its keys in order, and values as they are read. -/
theorem Yields.mapping {P : α → Prop} {read : Nat → Node → Decode α}
    (hread : ∀ depth n, Yields (read depth n) P) (depth : Nat) (n : Node) :
    Yields (mapping d read depth n) fun es => es.map Prod.fst = d.keys n ∧ ∀ e ∈ es, P e.2 := by
  refine (Yields.mapping_entries d (R := fun _ _ => P) hread depth n).imp fun es hes => ?_
  rw [Document.keys]
  generalize d.entries n = entries at hes
  induction hes with
  | nil => exact ⟨rfl, fun e he => absurd he List.not_mem_nil⟩
  | cons h _ ih => exact ⟨congrArg₂ _ h.1 ih.1, List.forall_mem_cons.mpr ⟨h.2, ih.2⟩⟩

/-- The items of a sequence of texts are read in order. -/
theorem yields_list_text (depth : Nat) (n : Node) :
    Yields (list d (fun _ => text d) depth n) (· = d.texts n) := by
  refine (yields_target d n).bind ?_
  rintro m rfl
  split
  · rename_i heq
    refine Yields.imp (.mapM (yields_text d) _) fun bs hbs => ?_
    rw [Document.texts, heq]
    clear heq
    induction hbs with
    | nil => rfl
    | cons h _ ih => exact congrArg₂ _ h ih
  · split
    · rename_i hblank
      exact .pure (resolved_of_isBlankScalar d hblank).2.symm
    · exact yields_failure

/-! ## Fields -/

/-- The first value of a key among some entries. -/
def firstValue? (key : String) (es : List (Node × Node)) : Option Node :=
  (es.find? fun e => d.textAt e.1 == key).map Prod.snd

/-- The first entry has its own key, any other key is looked for behind it. -/
theorem firstValue?_cons (key : String) (e : Node × Node) (es : List (Node × Node)) :
    firstValue? d key (e :: es) =
      if d.textAt e.1 = key then some e.2 else firstValue? d key es := by
  by_cases h : d.textAt e.1 = key <;> simp [firstValue?, h]

/-- The fields with one more entry of a mapping, if its key is known. -/
def addField (known : List String) (found : List (String × Node)) (e : Node × Node) :
    Decode (List (String × Node)) := do
  let k ← text d e.1
  if !known.contains k then Pure.pure found
  else if (found.lookup k).isSome then failure
  else Pure.pure ((k, e.2) :: found)

/-- One more entry adds the value of its key, if the key is known, and that only. -/
theorem yields_addField (known : List String) (found : List (String × Node)) (e : Node × Node)
    (es : List (Node × Node)) :
    Yields (addField d known found e) fun r => ∀ key ∈ known,
      (r.lookup key).or (firstValue? d key es) =
        (found.lookup key).or (firstValue? d key (e :: es)) := by
  refine (yields_text d e.1).bind ?_
  rintro k rfl
  split
  · rename_i hunknown
    refine .pure fun key hkey => ?_
    have hne : d.textAt e.1 ≠ key := by
      rintro rfl
      simp [hkey] at hunknown
    rw [firstValue?_cons, if_neg hne]
  · split
    · exact yields_failure
    · rename_i hnew
      refine .pure fun key _ => ?_
      rw [firstValue?_cons]
      split
      · rename_i hkey
        subst hkey
        rw [Option.not_isSome_iff_eq_none] at hnew
        rw [hnew, List.lookup_cons_self, Option.some_or, Option.none_or]
      · rename_i hkey
        have hb : (key == d.textAt e.1) = false := by simpa using fun h => hkey h.symm
        rw [List.lookup_cons, hb]

/-- The entries of a mapping add the first value of each known key to what was found before. -/
theorem yields_foldlM_addField (known : List String) (es : List (Node × Node))
    (found : List (String × Node)) :
    Yields (es.foldlM (addField d known) found) fun r => ∀ key ∈ known,
      r.lookup key = (found.lookup key).or (firstValue? d key es) := by
  induction es generalizing found with
  | nil =>
    rw [List.foldlM_nil]
    refine .pure fun key _ => ?_
    rw [firstValue?, List.find?_nil, Option.map_none, Option.or_none]
  | cons e es ih =>
    rw [List.foldlM_cons]
    refine (yields_addField d known found e es).bind fun r hr =>
      (ih r).imp fun r' hr' key hkey => ?_
    rw [hr' key hkey, hr key hkey]

/-- The fields that are found are the values of the known keys. -/
theorem yields_fields (known : List String) (depth : Nat) (n : Node) :
    Yields (fields d known depth n) fun r =>
      ∀ key ∈ known, r.2.lookup key = firstValue? d key (d.entries n) := by
  refine (yields_target d n).bind ?_
  rintro m rfl
  split
  · rename_i es _ heq
    have hes : d.entries n = es := by rw [Document.entries, heq]
    refine (yields_foldlM_addField d known es []).bind fun found hfound => .pure ?_
    rw [hes]
    exact hfound
  · split
    · rename_i hblank
      refine .pure fun key _ => ?_
      rw [(resolved_of_isBlankScalar d hblank).1]
      rfl
    · exact yields_failure

/-- The value of a known key is what is read of its node; if there is none or it
is null, nothing is given. -/
theorem Yields.fieldOf {P : Node → α → Prop} {read : Node → Decode α}
    (hread : ∀ n, Yields (read n) (P n)) {n : Node} {found : List (String × Node)} {key : String}
    (hfound : found.lookup key = firstValue? d key (d.entries n)) :
    Yields (fieldOf d found key read) fun
      | some x => ∃ m, d.value? n key = some m ∧ P m x
      | none => ∀ m, d.value? n key = some m → ∃ tag plain s, m = .scalar tag plain s := by
  have hvalue : d.value? n key = (found.lookup key).map d.resolved := by
    rw [hfound, firstValue?, Option.map_map]
    rfl
  rw [Decode.fieldOf]
  split
  · rename_i m hm
    rw [hm, Option.map_some] at hvalue
    refine (Yields.optional d hread m).imp fun o ho => ?_
    rw [hvalue]
    cases o with
    | none =>
      rintro _ ⟨⟩
      exact ho
    | some x => exact ⟨_, rfl, ho⟩
  · rename_i hnone
    rw [hnone] at hvalue
    refine .pure ?_
    rw [hvalue]
    exact fun m hm => nomatch hm

/-- The value of a key has what `read` gives of every node. -/
theorem Yields.fieldOf_mem {P : α → Prop} {read : Node → Decode α}
    (hread : ∀ n, Yields (read n) P) (found : List (String × Node)) (key : String) :
    Yields (Decode.fieldOf d found key read) fun o => ∀ x ∈ o, P x := by
  rw [Decode.fieldOf]
  split
  · refine (Yields.optional d (P := fun _ => P) hread _).imp fun o ho => ?_
    cases o with
    | none => exact fun x hx => nomatch hx
    | some x =>
      rintro _ ⟨⟩
      exact ho
  · exact .pure fun x hx => nomatch hx

/-- A value that is read with a replacement for a missing or null one has a property that
the replacement has there. -/
theorem Yields.fieldOf_getD {Q : Option Node → α → Prop} {read : Node → Decode α} {a : α}
    (hread : ∀ n, Yields (read n) (Q (some n))) (hmissing : Q none a)
    (hnull : ∀ tag plain s, Q (some (.scalar tag plain s)) a) {n : Node}
    {found : List (String × Node)} {key : String}
    (hfound : found.lookup key = firstValue? d key (d.entries n)) :
    Yields (Decode.fieldOf d found key read) fun o => Q (d.value? n key) (o.getD a) := by
  refine (Yields.fieldOf d hread hfound).imp fun o ho => ?_
  cases o with
  | none =>
    cases hv : d.value? n key with
    | none => exact hmissing
    | some m =>
      obtain ⟨tag, plain, s, rfl⟩ := ho m hv
      exact hnull tag plain s
  | some x =>
    obtain ⟨m, hm, hx⟩ := ho
    rw [hm]
    exact hx

end Decode

end ComponentStories.Yaml
