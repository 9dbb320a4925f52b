import ComponentStories.Proofs.Argument.Inputs
import Mathlib.Data.List.Nodup

/-
# The order of the inputs

An insertion leaves the order of the names that are there and gives the last value to its own name.
So the inputs of a component are its props in order and then the slots that are no props
(`names_inputs`), and an input is defined as the slot of its name if there is one, else as the prop
(`get?_inputs`).
-/

namespace ComponentStories

namespace Ordered

variable {α : Type}

/-! ## Names -/

/-- **A list that is inserted adds the names that are new**, each where it is first mentioned. -/
theorem names_insertAll (m : Ordered α) (l : List (String × α)) :
    (m.insertAll l).names = m.names ++ ((l.map Prod.fst).filter (· ∉ m.names)).eraseDups := by
  induction l generalizing m with
  | nil => simp
  | cons e l ih =>
    rw [insertAll_cons, ih, names_insert, List.map_cons]
    by_cases h : e.1 ∈ m.names
    · rw [if_pos h, List.filter_cons_of_neg (by simpa using h)]
    · -- the name comes behind the old ones, and is none of the names that are still to come
      have hrest : (l.map Prod.fst).filter (· ∉ m.names ++ [e.1]) =
          ((l.map Prod.fst).filter (· ∉ m.names)).filter fun n => !n == e.1 := by
        rw [List.filter_filter]
        apply List.filter_congr
        intro n _
        by_cases hn : n = e.1 <;> simp [hn]
      rw [if_neg h, List.filter_cons_of_pos (by simpa using h), List.eraseDups_cons, hrest,
        List.append_assoc, List.singleton_append]

/-- Names that are all different are not mentioned again. -/
theorem eraseDups_eq_self {l : List String} (h : l.Nodup) : l.eraseDups = l := by
  induction l with
  | nil => rfl
  | cons n l ih =>
    obtain ⟨hn, hl⟩ := List.nodup_cons.mp h
    have hfilter : l.filter (fun k => !k == n) = l := by
      rw [List.filter_eq_self]
      intro k hk
      have : k ≠ n := fun e => hn (e ▸ hk)
      simpa using this
    rw [List.eraseDups_cons, hfilter, ih hl]

/-- The entries of a map add its names that are new, in order. -/
theorem names_insertAll_entries (m n : Ordered α) :
    (m.insertAll n.entries).names = m.names ++ n.names.filter (· ∉ m.names) := by
  have hnew : (n.names.filter (· ∉ m.names)).Nodup := n.distinct.filter _
  rw [names_insertAll]
  exact congrArg (m.names ++ ·) (eraseDups_eq_self hnew)

/-! ## Values -/

/-- In a list that gives no name twice, a name has the value that stands beside it. -/
theorem lookup_eq_some_iff_mem {l : List (String × α)} (h : (l.map Prod.fst).Nodup) {name : String}
    {value : α} : l.lookup name = some value ↔ (name, value) ∈ l := by
  induction l with
  | nil => simp
  | cons e l ih =>
    obtain ⟨n, v⟩ := e
    obtain ⟨hn, hl⟩ := List.nodup_cons.mp h
    by_cases hname : name = n
    · subst hname
      have habsent : (name, value) ∉ l := fun hmem => hn (List.mem_map.mpr ⟨_, hmem, rfl⟩)
      simp [habsent, eq_comm]
    · have hb : (name == n) = false := by simpa using hname
      rw [List.lookup_cons, hb, List.mem_cons, ih hl]
      simp [hname]

theorem get?_eq_some_iff {m : Ordered α} {name : String} {value : α} :
    m.get? name = some value ↔ (name, value) ∈ m.entries :=
  lookup_eq_some_iff_mem m.distinct

/-- A value is found under a name exactly if it is a name of the map. -/
theorem isSome_get?_iff {m : Ordered α} {name : String} :
    (m.get? name).isSome = true ↔ name ∈ m.names := by
  rw [Option.isSome_iff_exists, names, List.mem_map]
  constructor
  · rintro ⟨v, hv⟩
    exact ⟨(name, v), get?_eq_some_iff.mp hv, rfl⟩
  · rintro ⟨⟨n, v⟩, he, rfl⟩
    exact ⟨v, get?_eq_some_iff.mpr he⟩

/-- **A list that is inserted gives the last of its values** to each of its names, and no
other name changes its value. -/
theorem get?_insertAll (m : Ordered α) (l : List (String × α)) (name : String) :
    (m.insertAll l).get? name = (l.reverse.lookup name).or (m.get? name) := by
  induction l generalizing m with
  | nil => rfl
  | cons e l ih =>
    obtain ⟨n, v⟩ := e
    rw [insertAll_cons, ih, get?_insert, List.reverse_cons, List.lookup_append, Option.or_assoc]
    congr 1
    by_cases h : name = n
    · simp [h]
    · have hb : (name == n) = false := by simpa using h
      simp [h, List.lookup_cons, hb]

/-- The entries of a map give their values to its names. -/
theorem get?_insertAll_entries (m n : Ordered α) (name : String) :
    (m.insertAll n.entries).get? name = (n.get? name).or (m.get? name) := by
  have hreverse : n.entries.reverse.lookup name = n.get? name := by
    have hnodup : (n.entries.reverse.map Prod.fst).Nodup := by
      rw [List.map_reverse, List.nodup_reverse]
      exact n.distinct
    ext v
    rw [lookup_eq_some_iff_mem hnodup, List.mem_reverse, get?_eq_some_iff]
  rw [get?_insertAll, hreverse]

/-- The image of a map has the images of the values. -/
theorem get?_map {β : Type} (f : α → β) (m : Ordered α) (name : String) :
    (m.map f).get? name = (m.get? name).map f := by
  ext v
  rw [get?_eq_some_iff, Option.map_eq_some_iff, map, List.mem_map]
  constructor
  · rintro ⟨⟨n, w⟩, he, hvalue⟩
    obtain ⟨rfl, rfl⟩ := Prod.mk.inj hvalue
    exact ⟨w, get?_eq_some_iff.mpr he, rfl⟩
  · rintro ⟨w, hw, rfl⟩
    exact ⟨(name, w), get?_eq_some_iff.mp hw, rfl⟩

end Ordered

/-! ## The inputs of a component -/

namespace Component

/-- What defines the input of a name: the slot of the name if there is one, else the prop. -/
def definition? (c : Component) (name : String) : Option Definition :=
  (c.slots.get? name).or (c.properties.get? name)

/-- **The inputs are the props in order, then the slots that are no props.** -/
theorem names_inputs (c : Component) :
    c.inputs.names = c.properties.names ++ c.slots.names.filter (· ∉ c.properties.names) :=
  Ordered.names_insertAll_entries c.properties c.slots

/-- **An input is defined by the slot of its name, or else by the prop.** -/
theorem get?_inputs (c : Component) (name : String) : c.inputs.get? name = c.definition? name :=
  Ordered.get?_insertAll_entries c.properties c.slots name

theorem mem_names_inputs {c : Component} {name : String} :
    name ∈ c.inputs.names ↔ name ∈ c.properties.names ∨ name ∈ c.slots.names := by
  rw [names_inputs, List.mem_append, List.mem_filter]
  by_cases h : name ∈ c.properties.names <;> simp [h]

/-- An argument is made from what defines the input of its name. -/
theorem argument_eq {c : Component} {a : Argument} (ha : a ∈ c.arguments) :
    ∃ d, c.definition? a.name = some d ∧
      a = Argument.ofDefinition a.name d (c.isRequired a.name) := by
  obtain ⟨⟨name, d⟩, he, rfl⟩ := List.mem_map.mp ha
  refine ⟨d, ?_, rfl⟩
  rw [← get?_inputs]
  exact Ordered.get?_eq_some_iff.mpr he

end Component

end ComponentStories
