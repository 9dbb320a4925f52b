import ComponentStories.Component.Source
import ComponentStories.Proofs.Argument.Order
import ComponentStories.Proofs.Yaml.Decode

/-
# What a source declares

The document of a source declares props under `props` and `properties`, slots under `slots`, and the
names of required inputs under `props` and `required`.  A component that is read from the source has
exactly these, each name in the place where it is first given (`names_of_ofSource?`).  The
definitions are read without the mark of slots, and only those under `slots` get it afterwards, so
exactly the slots are marked (`isSlot_of_ofSource?`).
-/

namespace ComponentStories

open Yaml Yaml.Decode

/-! ## Definitions -/

namespace Ordered

/-- All values of the map have the property. -/
def All {α : Type} (P : α → Prop) (m : Ordered α) : Prop := ∀ e ∈ m.entries, P e.2

theorem all_empty {α : Type} (P : α → Prop) : (empty : Ordered α).All P :=
  fun _ h => absurd h List.not_mem_nil

/-- The names of a list that becomes a map, each where it is first given. -/
theorem names_ofList {α : Type} (l : List (String × α)) :
    (ofList l).names = (l.map Prod.fst).eraseDups := by
  rw [ofList, names_insertAll, names_empty, List.nil_append, List.filter_eq_self.mpr]
  exact fun _ _ => decide_eq_true List.not_mem_nil

end Ordered

namespace Definition

/-- The map holds definitions without the mark of slots under these names. -/
def Unmarked (names : List String) (m : Ordered Definition) : Prop :=
  m.names = names.eraseDups ∧ m.All fun x => x.isSlot = false

theorem unmarked_empty : Unmarked [] Ordered.empty := ⟨rfl, Ordered.all_empty _⟩

theorem yields_decode (d : Document) (depth : Nat) (n : Node) :
    Yields (Definition.decode d depth n) fun x => x.isSlot = false :=
  (yields_true _).bind fun _ _ => (yields_true _).bind fun _ _ => (yields_true _).bind fun _ _ =>
    (yields_true _).bind fun _ _ => (yields_true _).bind fun _ _ => (yields_true _).bind fun _ _ =>
      .pure rfl

/-- The definitions of a mapping stand under its keys. -/
theorem yields_decodeMap (d : Document) (depth : Nat) (n : Node) :
    Yields (decodeMap d depth n) (Unmarked (d.keys n)) := by
  refine (Yields.mapping d (yields_decode d) depth n).bind fun es hes => .pure ⟨?_, ?_⟩
  · rw [Ordered.names_ofList, hes.1]
  · intro e he
    exact (Ordered.mem_entries_insertAll he).elim (fun h => absurd h List.not_mem_nil) (hes.2 e)

end Definition

/-! ## Components -/

namespace Component

/-- What stands under `props`: the props and the names of those that are required. -/
theorem yields_decodeProps (d : Document) (depth : Nat) (n : Node) :
    Yields (decodeProps d depth n) fun x =>
      Definition.Unmarked (((d.value? n "properties").map d.keys).getD []) x.1 ∧
        x.2 = ((d.value? n "required").map d.texts).getD [] := by
  refine (yields_fields d ["properties", "required"] depth n).bind fun (depth, found) hfound => ?_
  have hproperties := Yields.fieldOf_getD d
    (Q := fun o => Definition.Unmarked ((o.map d.keys).getD []))
    (Definition.yields_decodeMap d depth) Definition.unmarked_empty
    (fun _ _ _ => Definition.unmarked_empty) (hfound "properties" (by decide))
  have hrequired := Yields.fieldOf_getD d
    (Q := fun o (r : List String) => r = (o.map d.texts).getD [])
    (yields_list_text d depth) rfl (fun _ _ _ => rfl) (hfound "required" (by decide))
  exact hproperties.bind fun properties hp => hrequired.bind fun required hr => .pure ⟨hp, hr⟩

/-- What a document declares. -/
theorem yields_decode (d : Document) (n : Node) (hroot : n = d.root) (depth : Nat) :
    Yields (decode d depth n) fun x =>
      Definition.Unmarked (d.keysOf ["props", "properties"]) x.properties ∧
      Definition.Unmarked (d.keysOf ["slots"]) x.slots ∧
      x.required = d.textsOf ["props", "required"] := by
  subst hroot
  refine (yields_fields d ["name", "description", "props", "slots"] depth d.root).bind
    fun (depth, found) hfound => ?_
  -- without `props` there are no keys below it, nor are there any if it is null
  have hprops := Yields.fieldOf_getD d (a := (Ordered.empty, []))
    (Q := fun o (x : Ordered Definition × List String) => Definition.Unmarked 
        (((o.bind fun m => d.value? m "properties").map d.keys).getD []) x.1 ∧
      x.2 = ((o.bind fun m => d.value? m "required").map d.texts).getD [])
    (yields_decodeProps d depth) ⟨Definition.unmarked_empty, rfl⟩
    (fun _ _ _ => ⟨Definition.unmarked_empty, rfl⟩) (hfound "props" (by decide))
  have hslots := Yields.fieldOf_getD d (Q := fun o => Definition.Unmarked ((o.map d.keys).getD []))
    (Definition.yields_decodeMap d depth) Definition.unmarked_empty
    (fun _ _ _ => Definition.unmarked_empty) (hfound "slots" (by decide))
  have hpath : ∀ key, d.nodeOf? ["props", key] =
      (d.value? d.root "props").bind fun m => d.value? m key := by
    intro key
    simp [Document.nodeOf?, List.foldlM_cons]
  refine (yields_true _).bind fun name _ => (yields_true _).bind fun description _ =>
    hprops.bind fun props hp => hslots.bind fun slots hs => .pure ?_
  rw [Document.keysOf, Document.textsOf, hpath, hpath]
  refine ⟨hp.1, ?_, hp.2⟩
  simpa [Document.keysOf, Document.nodeOf?] using hs

/-! ## Sources -/

/-- The document of a source; none if the source has only blanks, or comments and the like. -/
def sourceDocument? (source : String) : Option Document :=
  if (Text.trim source.toList).isEmpty then none else (Yaml.document? source.toList).join

/-- The keys that stand at a place in the document of a source, in order. -/
def sourceKeys (source : String) (path : List String) : List String :=
  ((sourceDocument? source).map fun d => d.keysOf path).getD []

/-- The texts that stand at a place in the document of a source, in order. -/
def sourceTexts (source : String) (path : List String) : List String :=
  ((sourceDocument? source).map fun d => d.textsOf path).getD []

/-- What a source declares. -/
theorem declares_of_declaration? {source : String} {x : Declaration}
    (h : declaration? source = some x) :
    Definition.Unmarked (sourceKeys source ["props", "properties"]) x.properties ∧
    Definition.Unmarked (sourceKeys source ["slots"]) x.slots ∧
    x.required = sourceTexts source ["props", "required"] := by
  have hnothing : ∀ {x : Declaration}, sourceDocument? source = none → Declaration.empty = x →
      Definition.Unmarked (sourceKeys source ["props", "properties"]) x.properties ∧
      Definition.Unmarked (sourceKeys source ["slots"]) x.slots ∧
      x.required = sourceTexts source ["props", "required"] := by
    rintro x hnone rfl
    rw [sourceKeys, sourceKeys, sourceTexts, hnone]
    exact ⟨Definition.unmarked_empty, Definition.unmarked_empty, rfl⟩
  rw [declaration?] at h
  split at h
  · rename_i hblank
    exact hnothing (if_pos hblank) (Option.some.inj h)
  · rename_i hblank
    have hdocument : sourceDocument? source = (Yaml.document? source.toList).join := if_neg hblank
    rw [readDocument?] at h
    split at h
    · cases h
    · rename_i hd
      exact hnothing (by rw [hdocument, hd]; rfl) (Option.some.inj h)
    · rename_i d hd
      rw [hd] at hdocument
      obtain ⟨⟨x', left⟩, hx, rfl⟩ := Option.map_eq_some_iff.mp h
      rw [sourceKeys, sourceKeys, sourceTexts, hdocument]
      exact yields_decode d d.root rfl maxDepth _ (x', left) hx

/-- **A component that is read from a source has the names that the source declares**, each in the
place where it is first given. -/
theorem names_of_ofSource? {source id machineName path : String} {c : Component}
    (h : ofSource? source id machineName path = some c) :
    c.properties.names = (sourceKeys source ["props", "properties"]).eraseDups ∧
    c.slots.names = (sourceKeys source ["slots"]).eraseDups ∧
    c.required = sourceTexts source ["props", "required"] := by
  obtain ⟨x, hx, rfl⟩ := Option.map_eq_some_iff.mp h
  obtain ⟨hproperties, hslots, hrequired⟩ := declares_of_declaration? hx
  refine ⟨hproperties.1, ?_, hrequired⟩
  show (x.slots.map Definition.asSlot).names = _
  rw [Ordered.names_map]
  exact hslots.1

/-- **Exactly the slots of a component that is read from a source are marked.** -/
theorem isSlot_of_ofSource? {source id machineName path : String} {c : Component}
    (h : ofSource? source id machineName path = some c) :
    (c.properties.All fun x => x.isSlot = false) ∧ c.slots.All fun x => x.isSlot = true := by
  obtain ⟨x, hx, rfl⟩ := Option.map_eq_some_iff.mp h
  refine ⟨(declares_of_declaration? hx).1.2, ?_⟩
  intro e he
  obtain ⟨f, -, rfl⟩ := List.mem_map.mp he
  rfl

end Component

end ComponentStories
