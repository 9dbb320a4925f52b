import ComponentStories.Proofs.Component.Source
import Mathlib.Data.Finset.Card
import Mathlib.Data.List.Induction

/-
# Maps of definitions

A map is built by inserting definitions under names, or it is read from a mapping.  Each name then
stands where it was inserted first and has the definition that was inserted last, and all views of
the map tell this (`Ordered.Tells`).  One more insertion under a name that is there moves no entry
(`Ordered.entries_insert_of_mem`).
-/

namespace ComponentStories

namespace Ordered

variable {α : Type} {name : String} {value : α}

/-! ## One insertion -/

/-- A known name gets its value in its place, and every other entry stays in its own. -/
theorem putEntry_of_mem {l : List (String × α)} (h : (l.map Prod.fst).Nodup)
    (hname : name ∈ l.map Prod.fst) :
    putEntry name value l = l.map fun e => if e.1 = name then (name, value) else e := by
  induction l with
  | nil => exact absurd hname List.not_mem_nil
  | cons e l ih =>
    obtain ⟨n, v⟩ := e
    obtain ⟨hn, hl⟩ := List.nodup_cons.mp h
    by_cases hhere : n = name
    · subst hhere
      -- the name is not given again behind its place
      have hbehind : l.map (fun e => if e.1 = n then (n, value) else e) = l := by
        refine (List.map_congr_left fun e he => if_neg ?_).trans (List.map_id l)
        rintro rfl
        exact hn (List.mem_map.mpr ⟨e, he, rfl⟩)
      rw [putEntry, if_pos rfl, List.map_cons, if_pos rfl, hbehind]
    · have hrest := (List.mem_cons.mp hname).resolve_left (Ne.symm hhere)
      rw [putEntry, if_neg hhere, List.map_cons, if_neg hhere, ih hl hrest]

theorem putEntry_of_notMem {l : List (String × α)} (hname : name ∉ l.map Prod.fst) :
    putEntry name value l = l ++ [(name, value)] := by
  induction l with
  | nil => rfl
  | cons e l ih =>
    obtain ⟨n, v⟩ := e
    rw [List.map_cons, List.mem_cons, not_or] at hname
    rw [putEntry, if_neg (Ne.symm hname.1), ih hname.2, List.cons_append]

/-- **An insertion under a known name moves no entry**: the name gets its value in its place. -/
theorem entries_insert_of_mem {m : Ordered α} (h : name ∈ m.names) (value : α) :
    (m.insert name value).entries =
      m.entries.map fun e => if e.1 = name then (name, value) else e :=
  putEntry_of_mem m.distinct h

theorem entries_insert_of_notMem {m : Ordered α} (h : name ∉ m.names) (value : α) :
    (m.insert name value).entries = m.entries ++ [(name, value)] :=
  putEntry_of_notMem h

/-! ## Many insertions -/

variable {l : List (String × α)}

theorem ofList_concat (l : List (String × α)) (name : String) (value : α) :
    ofList (l ++ [(name, value)]) = (ofList l).insert name value :=
  insertAll_append empty l [(name, value)]

theorem mem_names_ofList : name ∈ (ofList l).names ↔ name ∈ l.map Prod.fst := by
  rw [names_ofList, List.mem_eraseDups]

/-- **The names are in the order of their first insertions.** -/
theorem pairwise_idxOf_names_ofList (l : List (String × α)) :
    (ofList l).names.Pairwise fun a b => (l.map Prod.fst).idxOf a < (l.map Prod.fst).idxOf b := by
  induction l using List.reverseRecOn with
  | nil => exact .nil
  | append_singleton l e ih =>
    obtain ⟨name, value⟩ := e
    -- an insertion at the end is the first one of no name that was there
    have hfirst : ∀ n ∈ (ofList l).names,
        ((l ++ [(name, value)]).map Prod.fst).idxOf n = (l.map Prod.fst).idxOf n := by
      intro n hn
      rw [List.map_append, List.idxOf_append_of_mem (mem_names_ofList.mp hn)]
    have hold : (ofList l).names.Pairwise fun a b =>
        ((l ++ [(name, value)]).map Prod.fst).idxOf a <
          ((l ++ [(name, value)]).map Prod.fst).idxOf b :=
      ih.imp_of_mem fun ha hb hlt => by rwa [hfirst _ ha, hfirst _ hb]
    rw [ofList_concat, names_insert]
    split
    · exact hold
    · rename_i hnew
      refine List.pairwise_append.mpr ⟨hold, List.pairwise_singleton _ _, ?_⟩
      intro a ha b hb
      rw [List.mem_singleton.mp hb, hfirst a ha, List.map_append,
        List.idxOf_append_of_notMem (mt mem_names_ofList.mpr hnew)]
      exact Nat.lt_add_right _ (List.idxOf_lt_length_of_mem (mem_names_ofList.mp ha))

/-- The last of the values that a list gives to a name. -/
def IsLast (l : List (String × α)) (name : String) (value : α) : Prop :=
  ∃ before after, l = before ++ (name, value) :: after ∧ ∀ e ∈ after, e.1 ≠ name

/-- **Under a name is the value that was inserted last under it.** -/
theorem get?_ofList_eq_some_iff : (ofList l).get? name = some value ↔ IsLast l name value := by
  rw [ofList, get?_insertAll, get?_empty, Option.or_none, List.lookup_eq_some_iff]
  constructor
  · rintro ⟨after, before, hl, hafter⟩
    refine ⟨before.reverse, after.reverse, ?_, fun e he => ?_⟩
    · rw [← List.reverse_reverse l, hl, List.reverse_append, List.reverse_cons, List.append_assoc,
        List.singleton_append]
    · exact Ne.symm (bne_iff_ne.mp (hafter e (List.mem_reverse.mp he)))
  · rintro ⟨before, after, rfl, hafter⟩
    refine ⟨after.reverse, before.reverse, ?_, fun e he => ?_⟩
    · rw [List.reverse_append, List.reverse_cons, List.append_assoc, List.singleton_append]
    · exact bne_iff_ne.mpr (hafter e (List.mem_reverse.mp he)).symm

theorem get?_ofList_eq_none_iff : (ofList l).get? name = none ↔ name ∉ l.map Prod.fst := by
  rw [← mem_names_ofList, ← isSome_get?_iff, Option.not_isSome_iff_eq_none]

theorem size_ofList (l : List (String × α)) :
    (ofList l).size = (l.map Prod.fst).toFinset.card := by
  have hnames : (ofList l).names.toFinset = (l.map Prod.fst).toFinset := by
    ext name
    rw [List.mem_toFinset, List.mem_toFinset, mem_names_ofList]
  have hnodup : (ofList l).names.Nodup := (ofList l).distinct
  rw [size_eq_length_names, ← hnames, List.toFinset_card_of_nodup hnodup]

/-- The entries are the names in order, each with what is found under it. -/
theorem map_some_entries (m : Ordered α) :
    m.entries.map (fun e => (e.1, some e.2)) = m.names.map fun name => (name, m.get? name) := by
  rw [names, List.map_map]
  apply List.map_congr_left
  intro e he
  rw [Function.comp_apply, get?_eq_some_iff.mpr he]

/-- What a map tells of entries that were inserted one after the other, in all its views. -/
structure Tells (m : Ordered α) (l : List (String × α)) : Prop where
  /-- Each name that was inserted is there once, and no other one. -/
  count : ∀ name, m.names.count name = if name ∈ l.map Prod.fst then 1 else 0
  /-- The names are in the order of their first insertions. -/
  order : m.names.Pairwise fun a b => (l.map Prod.fst).idxOf a < (l.map Prod.fst).idxOf b
  /-- Under a name is the value that was inserted last under it. -/
  last : ∀ name value, m.get? name = some value ↔ IsLast l name value
  /-- Nothing is under any other name. -/
  missing : ∀ name, m.get? name = none ↔ name ∉ l.map Prod.fst
  /-- There are as many entries as different names. -/
  size : m.size = (l.map Prod.fst).toFinset.card
  /-- There is no entry exactly if nothing was inserted. -/
  isEmpty : m.isEmpty = true ↔ l = []
  /-- The entries are the names in order, each with what is found under it. -/
  entries : m.entries.map (fun e => (e.1, some e.2)) = m.names.map fun name => (name, m.get? name)

/-- **A map tells all that was inserted.** -/
theorem tells_ofList (l : List (String × α)) : (ofList l).Tells l where
  count name := by
    have hnodup : (ofList l).names.Nodup := (ofList l).distinct
    simp only [hnodup.count, mem_names_ofList]
  order := pairwise_idxOf_names_ofList l
  last _ _ := get?_ofList_eq_some_iff
  missing _ := get?_ofList_eq_none_iff
  size := size_ofList l
  isEmpty := by
    rw [isEmpty, List.isEmpty_iff, ofList, entries_insertAll_eq_nil_iff, entries_empty]
    exact and_iff_right rfl
  entries := map_some_entries _

end Ordered

/-! ## Maps that are read -/

namespace Definition

open Yaml

/-- The entries of a mapping in order, each with the text of its key and a definition that its value
is read as, one collection further in. -/
def Lists (d : Document) (depth : Nat) (n : Node) (l : List (String × Definition)) : Prop :=
  List.Forall₂ (fun e x => x.1 = d.textAt e.1 ∧
    ∃ left rest, Definition.decode d (depth - 1) e.2 left = some (x.2, rest)) (d.entries n) l

/-- The entries that are read are those of the mapping. -/
theorem lists_of_mapping {d : Document} {depth left rest : Nat} {n : Node}
    {l : List (String × Definition)}
    (h : Decode.mapping d (Definition.decode d) depth n left = some (l, rest)) :
    Lists d depth n l :=
  Decode.Yields.mapping_entries d
    (fun depth n => Decode.yields_self (Definition.decode d depth n)) depth n left (l, rest) h

/-- A map is read exactly if the entries of its mapping are, and it is built of these. -/
theorem decodeMap_eq (d : Document) (depth : Nat) (n : Node) (left : Nat) :
    decodeMap d depth n left =
      (Decode.mapping d (Definition.decode d) depth n left).map fun r =>
        (Ordered.ofList r.1, r.2) := by
  rw [decodeMap]
  show Option.bind _ _ = _
  cases Decode.mapping d (Definition.decode d) depth n left <;> rfl

/-- The entries of the mapping that a text holds; none if it holds no document. -/
def ListsIn (s : List Char) (l : List (String × Definition)) : Prop :=
  match document? s with
  | some (some d) => Lists d maxDepth d.root l
  | _ => l = []

/-- The map that is read from a text is built of the entries of its mapping. -/
theorem exists_listsIn_of_mapOfYaml? {s : List Char} {m : Ordered Definition}
    (h : mapOfYaml? s = some m) : ∃ l, ListsIn s l ∧ m = Ordered.ofList l := by
  rw [mapOfYaml?, readDocument?] at h
  split at h
  · cases h
  · rename_i hnone
    refine ⟨[], ?_, (Option.some.inj h).symm⟩
    rw [ListsIn, hnone]
  · rename_i d hd
    obtain ⟨r, hr, rfl⟩ := Option.map_eq_some_iff.mp h
    rw [StateT.run, decodeMap_eq] at hr
    obtain ⟨⟨l, rest⟩, hl, rfl⟩ := Option.map_eq_some_iff.mp hr
    refine ⟨l, ?_, rfl⟩
    rw [ListsIn, hd]
    exact lists_of_mapping hl

/-- **A map of definitions tells what was inserted, in all its views**, however often a name was
given.  The definitions may have been inserted one after the other into a map without entries.  Or
the map was read from a mapping in a document, which is refused only if its entries cannot be read,
or from a text, and further definitions were inserted after those.  An insertion under a name that
is there moves no entry, and one under a new name comes behind them all. -/
theorem map_tells_insertions :
    (∀ l : List (String × Definition), (Ordered.ofList l).Tells l) ∧
    (∀ d depth n left,
      match Decode.mapping d (Definition.decode d) depth n left with
      | some (l, rest) => Lists d depth n l ∧ ∃ m, decodeMap d depth n left = some (m, rest) ∧
          ∀ l', (m.insertAll l').Tells (l ++ l')
      | none => decodeMap d depth n left = none) ∧
    (∀ s m, mapOfYaml? s = some m →
      ∃ l, ListsIn s l ∧ ∀ l', (m.insertAll l').Tells (l ++ l')) ∧
    ∀ (m : Ordered Definition) (name : String) (x : Definition),
      (name ∈ m.names → (m.insert name x).entries =
        m.entries.map fun e => if e.1 = name then (name, x) else e) ∧
      (name ∉ m.names → (m.insert name x).entries = m.entries ++ [(name, x)]) := by
  have hfurther : ∀ l l' : List (String × Definition),
      ((Ordered.ofList l).insertAll l').Tells (l ++ l') := by
    intro l l'
    rw [Ordered.ofList, ← Ordered.insertAll_append]
    exact Ordered.tells_ofList (l ++ l')
  refine ⟨Ordered.tells_ofList, ?_, ?_, fun m name x =>
    ⟨fun h => Ordered.entries_insert_of_mem h x, fun h => Ordered.entries_insert_of_notMem h x⟩⟩
  · intro d depth n left
    rw [decodeMap_eq]
    split
    · rename_i l rest hl
      exact ⟨lists_of_mapping hl, Ordered.ofList l, by rw [hl]; rfl, hfurther l⟩
    · rename_i hnone
      rw [hnone]
      rfl
  · intro s m h
    obtain ⟨l, hl, rfl⟩ := exists_listsIn_of_mapOfYaml? h
    exact ⟨l, hl, hfurther l⟩

/-- A text that gives the first of three names once more. -/
def repeated : String :=
  "zeta:\n  type: string\nalpha:\n  type: number\nzeta:\n  title: Last\nmid:\n"

/-- The repeated name keeps its place and has its last definition, and stays where it is
when it is inserted again. -/
theorem map_tells_insertions_repeated :
    ∃ m l, mapOfYaml? repeated.toList = some m ∧ m.Tells l ∧ m.names = ["zeta", "alpha", "mid"] ∧
      (m.get? "zeta").bind title = some "Last" ∧ (l.map Prod.fst).toFinset.card = 3 ∧
      "zeta" ∈ m.names ∧ (m.insert "zeta" blank).entries =
        m.entries.map (fun e => if e.1 = "zeta" then ("zeta", blank) else e) ∧
      "tail" ∉ m.names ∧ (m.insert "tail" blank).entries = m.entries ++ [("tail", blank)] := by
  obtain ⟨-, -, hread, hinsert⟩ := map_tells_insertions
  have heval : (mapOfYaml? repeated.toList).map (fun m => (m.names, (m.get? "zeta").bind title)) =
      some (["zeta", "alpha", "mid"], some "Last") := by decide +kernel
  obtain ⟨m, hm, heq⟩ := Option.map_eq_some_iff.mp heval
  obtain ⟨hnames, htitle⟩ := Prod.mk.inj heq
  obtain ⟨l, -, htells⟩ := hread repeated.toList m hm
  have hm' : m.Tells l := by simpa using htells []
  have hzeta : "zeta" ∈ m.names := by rw [hnames]; decide
  have htail : "tail" ∉ m.names := by rw [hnames]; decide
  refine ⟨m, l, hm, hm', hnames, htitle, ?_, hzeta, (hinsert m "zeta" blank).1 hzeta, htail,
    (hinsert m "tail" blank).2 htail⟩
  rw [← hm'.size, Ordered.size_eq_length_names, hnames]
  rfl

end Definition

end ComponentStories
