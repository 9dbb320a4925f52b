import ComponentStories.Proofs.Component.Source
import ComponentStories.Proofs.Json.Ordered

/-
# The defaults that a source declares

An object of a source keeps no order: its fields become ascending by name when it is read.  So a
value that is read is in order (`yields_value`), and with it the defaults of a component that is
read from a source (`Component.tidy_of_ofSource?`).
-/

namespace ComponentStories

open Yaml Yaml.Decode

/-! ## Values -/

namespace Yaml

theorem Plain.Fraction.isOrdered_of_value? {x : Fraction} {v : Json} (h : x.value? = some v) :
    v.IsOrdered := by
  cases x with
  | finite d => exact Option.some.inj h ▸ .number _
  | special => exact Option.some.inj h ▸ .null
  | other => cases h

/-- A plain scalar is in order. -/
theorem Plain.isOrdered_of_value? {s : List Char} {v : Json} (h : Plain.value? s = some v) :
    v.IsOrdered := by
  rw [Plain.value?] at h
  split at h
  · exact Option.some.inj h ▸ .null
  · split at h
    · exact Option.some.inj h ▸ .bool _
    · split at h
      · exact Option.some.inj h ▸ .number _
      · cases h
      · split at h
        · exact Option.some.inj h ▸ .text _
        · split at h
          · rename_i hfraction
            exact Option.some.inj h ▸ Fraction.isOrdered_of_value? hfraction
          · exact Option.some.inj h ▸ .text _

namespace Decode

/-- A scalar with a tag is in order. -/
theorem isOrdered_of_tagged? {tag : Tag} {plain : Bool} {s : List Char} {v : Json}
    (h : tagged? tag plain s = some v) : v.IsOrdered := by
  unfold tagged? at h
  split at h
  · obtain ⟨b, -, rfl⟩ := Option.map_eq_some_iff.mp h
    exact .bool b
  · split at h
    · exact Option.some.inj h ▸ .number _
    · cases h
  · exact Plain.Fraction.isOrdered_of_value? h
  · split at h
    · exact Option.some.inj h ▸ .null
    · cases h
  · cases h
  · exact Plain.isOrdered_of_value? h
  · exact Option.some.inj h ▸ .text _
  · exact Option.some.inj h ▸ .text _

theorem isOrdered_of_scalar? {tag : Option Tag} {plain : Bool} {s : List Char} {v : Json}
    (h : scalar? tag plain s = some v) : v.IsOrdered := by
  unfold scalar? at h
  split at h
  · exact isOrdered_of_tagged? h
  · exact Plain.isOrdered_of_value? h
  · exact Option.some.inj h ▸ .text _

/-- **A value that is read from a document is in order.** -/
theorem yields_value (d : Document) (depth : Nat) (n : Node) :
    Yields (value d depth n) Json.IsOrdered := by
  rw [value]
  refine (yields_target d n).bind fun m _ => ?_
  split
  · split
    · exact .pure (isOrdered_of_scalar? ‹_›)
    · exact yields_failure
  · split
    · exact yields_failure
    · match depth with
      | depth + 1 =>
        exact (Yields.mapM_mem (yields_value d depth) _).bind fun vs hvs => .pure (.array hvs)
      | 0 => exact yields_failure
  · split
    · exact yields_failure
    · match depth with
      | depth + 1 =>
        have hentry : ∀ e : Node × Node, Yields (do
            let k ← text d e.1
            let v ← value d depth e.2
            pure (k, v)) fun x => x.2.IsOrdered := fun e =>
          (yields_true _).bind fun k _ => (yields_value d depth e.2).bind fun v hv => .pure hv
        exact (Yields.mapM_mem hentry _).bind fun es hes =>
          .pure (Json.isOrdered_ofFields hes)
      | 0 => exact yields_failure
  · exact yields_failure

end Decode

end Yaml

/-! ## Definitions and components -/

/-- The declared default is a value in order. -/
def Definition.Tidy (x : Definition) : Prop := ∀ v ∈ x.default, v.IsOrdered

namespace Definition

theorem tidy_decode (d : Document) (depth : Nat) (n : Node) :
    Yields (Definition.decode d depth n) Tidy :=
  (yields_true _).bind fun _ _ => (yields_true _).bind fun _ _ => (yields_true _).bind fun _ _ =>
    (yields_true _).bind fun _ _ => (yields_true _).bind fun _ _ =>
      (Yields.fieldOf_mem d (yields_value d _) _ _).bind fun _ hdefault => .pure hdefault

theorem tidy_decodeMap (d : Document) (depth : Nat) (n : Node) :
    Yields (decodeMap d depth n) (·.All Tidy) :=
  (Yields.mapping d (tidy_decode d) depth n).bind fun _ hes => .pure fun e he =>
    (Ordered.mem_entries_insertAll he).elim (fun h => absurd h List.not_mem_nil) (hes.2 e)

end Definition

/-- A map that may be missing has the property where it is there. -/
theorem Ordered.All.getD {P : Definition → Prop} {o : Option (Ordered Definition)}
    (h : ∀ m ∈ o, m.All P) : (o.getD Ordered.empty).All P := by
  cases o with
  | none => exact Ordered.all_empty P
  | some m => exact h m rfl

namespace Component

theorem tidy_decodeProps (d : Document) (depth : Nat) (n : Node) :
    Yields (decodeProps d depth n) fun x => x.1.All Definition.Tidy :=
  (yields_true _).bind fun _ _ =>
    (Yields.fieldOf_mem d (Definition.tidy_decodeMap d _) _ _).bind fun _ hproperties =>
      (yields_true _).bind fun _ _ => .pure (Ordered.All.getD hproperties)

/-- The inputs that a document declares are tidy. -/
theorem tidy_decode (d : Document) (depth : Nat) (n : Node) :
    Yields (decode d depth n) fun x =>
      x.properties.All Definition.Tidy ∧ x.slots.All Definition.Tidy := by
  refine (yields_true _).bind fun _ _ => (yields_true _).bind fun _ _ =>
    (yields_true _).bind fun _ _ =>
      (Yields.fieldOf_mem d (tidy_decodeProps d _) _ _).bind fun props hprops =>
        (Yields.fieldOf_mem d (Definition.tidy_decodeMap d _) _ _).bind fun _ hslots =>
          .pure ⟨?_, Ordered.All.getD hslots⟩
  cases props with
  | none => exact Ordered.all_empty _
  | some x => exact hprops x rfl

/-- The inputs that a source declares are tidy. -/
theorem tidy_of_declaration? {source : String} {x : Declaration}
    (h : declaration? source = some x) :
    x.properties.All Definition.Tidy ∧ x.slots.All Definition.Tidy := by
  rw [declaration?] at h
  split at h
  · exact Option.some.inj h ▸ ⟨Ordered.all_empty _, Ordered.all_empty _⟩
  · rw [readDocument?] at h
    split at h
    · cases h
    · exact Option.some.inj h ▸ ⟨Ordered.all_empty _, Ordered.all_empty _⟩
    · rename_i d _
      obtain ⟨⟨x', left⟩, hx, rfl⟩ := Option.map_eq_some_iff.mp h
      exact tidy_decode d maxDepth d.root _ (x', left) hx

/-- **Every input of a component that is read from a source has a default
in order**, if it has one. -/
theorem tidy_of_ofSource? {source id machineName path : String} {c : Component}
    (h : ofSource? source id machineName path = some c) {name : String} {x : Definition}
    (hx : c.definition? name = some x) : x.Tidy := by
  obtain ⟨y, hy, rfl⟩ := Option.map_eq_some_iff.mp h
  obtain ⟨hproperties, hslots⟩ := tidy_of_declaration? hy
  rcases Option.or_eq_some_iff.mp hx with hslot | ⟨-, hprop⟩
  · obtain ⟨z, hz, rfl⟩ := Option.map_eq_some_iff.mp ((Ordered.get?_map _ _ _).symm.trans hslot)
    exact hslots _ (Ordered.get?_eq_some_iff.mp hz)
  · exact hproperties _ (Ordered.get?_eq_some_iff.mp hprop)

end Component

end ComponentStories
