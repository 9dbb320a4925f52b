import ComponentStories.Proofs.Sorted
import ComponentStories.Proofs.Text.Bytes
import ComponentStories.Registry
import Mathlib.Data.List.Induction

/-
# Registries that are built up

The identifiers of a registry are in ascending order, so each of them is there once, and every
component stands under its own (`Registry.find?_eq_some_iff`).  A registry is built by inserting
components one after the other.  Under an identifier then stands the component that was inserted
last under it (`Registry.find?_ofComponents_eq_some_iff`), whatever came before it and under other
identifiers.
-/

namespace ComponentStories.Registry

/-- The registry that some components are inserted into, one after the other. -/
def ofComponents (cs : List Component) : Registry := cs.foldl insert empty

/-- A component of a registry that is built up is one that was inserted. -/
theorem mem_of_mem_components {cs : List Component} {x : Component}
    (h : x ∈ (ofComponents cs).components) : x ∈ cs := by
  suffices hgen : ∀ r : Registry,
      x ∈ (cs.foldl insert r).components → x ∈ r.components ∨ x ∈ cs from
    (hgen empty h).resolve_left List.not_mem_nil
  clear h
  induction cs with
  | nil => exact fun r hr => Or.inl hr
  | cons c cs ih =>
    intro r hr
    rcases ih (r.insert c) hr with hx | hx
    · obtain ⟨e, he, rfl⟩ := List.mem_map.mp hx
      rcases mem_putSorted he with rfl | he
      · exact Or.inr List.mem_cons_self
      · exact Or.inl (List.mem_map_of_mem he)
    · exact Or.inr (List.mem_cons_of_mem c hx)

variable {r : Registry}

theorem nodup_ids (r : Registry) : r.ids.Nodup := r.ascending.imp ne_of_lt

/-- A component is found exactly under its identifier. -/
theorem find?_eq_some_iff {id : String} {c : Component} :
    r.find? id = some c ↔ (id, c) ∈ r.entries :=
  getSorted?_eq_some_iff_mem r.nodup_ids

/-- No two components have the same identifier. -/
theorem eq_of_id_eq {x y : Component} (hx : x ∈ r.components) (hy : y ∈ r.components)
    (hid : x.id = y.id) : x = y := by
  have hfind : ∀ c ∈ r.components, r.find? c.id = some c := by
    rintro _ hc
    obtain ⟨e, he, rfl⟩ := List.mem_map.mp hc
    rw [find?_eq_some_iff, r.own e he]
    exact he
  have heq := hfind x hx
  rw [hid, hfind y hy] at heq
  exact (Option.some.inj heq).symm

theorem map_some_components (r : Registry) : r.components.map some = r.ids.map r.find? := by
  rw [components, ids, List.map_map, List.map_map]
  apply List.map_congr_left
  intro e he
  exact (find?_eq_some_iff.mpr he).symm

/-! ## The last insertion -/

variable {cs : List Component} {c : Component} {id : String}

theorem find?_foldl_insert_of_ne (h : ∀ c ∈ cs, c.id ≠ id) :
    (cs.foldl insert r).find? id = r.find? id := by
  induction cs generalizing r with
  | nil => rfl
  | cons c cs ih =>
    obtain ⟨hc, hcs⟩ := List.forall_mem_cons.mp h
    rw [List.foldl_cons, ih hcs, find?_insert, if_neg hc]

/-- The identifiers are those from before and those that are inserted. -/
theorem mem_ids_foldl_insert :
    id ∈ (cs.foldl insert r).ids ↔ id ∈ r.ids ∨ ∃ c ∈ cs, c.id = id := by
  induction cs generalizing r with
  | nil => simp
  | cons c cs ih =>
    have hinsert : id ∈ (r.insert c).ids ↔ id = c.id ∨ id ∈ r.ids :=
      mem_keys_putSorted c.id id c r.entries
    rw [List.foldl_cons, ih, hinsert, List.exists_mem_cons_iff, eq_comm (a := id)]
    tauto

theorem mem_ids_ofComponents : id ∈ (ofComponents cs).ids ↔ id ∈ cs.map Component.id := by
  rw [ofComponents, mem_ids_foldl_insert, List.mem_map]
  exact or_iff_right List.not_mem_nil

/-- A component that was inserted under an identifier, and none was behind it. -/
def IsLatest (cs : List Component) (id : String) (c : Component) : Prop :=
  ∃ before after, cs = before ++ c :: after ∧ c.id = id ∧ ∀ d ∈ after, d.id ≠ id

/-- Of the components that were inserted under an identifier one was inserted last. -/
theorem exists_isLatest (h : id ∈ cs.map Component.id) : ∃ c, IsLatest cs id c := by
  induction cs using List.reverseRecOn with
  | nil => exact absurd h List.not_mem_nil
  | append_singleton cs d ih =>
    by_cases hd : d.id = id
    · exact ⟨d, cs, [], rfl, hd, List.forall_mem_nil _⟩
    · rw [List.map_append, List.mem_append] at h
      have hcs : id ∈ cs.map Component.id :=
        h.resolve_right fun hlast => hd (List.mem_singleton.mp hlast).symm
      obtain ⟨c, before, after, rfl, hc, hafter⟩ := ih hcs
      refine ⟨c, before, after ++ [d], List.append_assoc _ _ _, hc, ?_⟩
      exact List.forall_mem_append.mpr ⟨hafter, List.forall_mem_singleton.mpr hd⟩

/-- The component that was inserted last under an identifier is found there. -/
theorem IsLatest.find?_eq (h : IsLatest cs id c) : (ofComponents cs).find? id = some c := by
  obtain ⟨before, after, rfl, rfl, hafter⟩ := h
  rw [ofComponents, List.foldl_append, List.foldl_cons, find?_foldl_insert_of_ne hafter,
    find?_insert, if_pos rfl]

/-- Nothing is found under an identifier exactly if nothing was inserted under it. -/
theorem find?_ofComponents_eq_none_iff :
    (ofComponents cs).find? id = none ↔ id ∉ cs.map Component.id := by
  rw [← mem_ids_ofComponents, ids, ← getSorted?_ne_none_iff, not_not]
  rfl

/-- **What is found under an identifier is what was inserted last under it.** -/
theorem find?_ofComponents_eq_some_iff :
    (ofComponents cs).find? id = some c ↔ IsLatest cs id c := by
  refine ⟨fun h => ?_, IsLatest.find?_eq⟩
  have hid : id ∈ cs.map Component.id := by
    by_contra hnone
    rw [find?_ofComponents_eq_none_iff.mpr hnone] at h
    exact Option.some_ne_none c h.symm
  obtain ⟨d, hd⟩ := exists_isLatest hid
  obtain rfl : d = c := Option.some.inj (hd.find?_eq.symm.trans h)
  exact hd

/-! ## All views of a registry -/

/-- **All views of a registry tell the last insertion under each identifier**, whatever was
inserted in whatever order.  The identifiers ascend by their bytes, and each one that was inserted
is there once and no other one.  Under an identifier the component is found that was inserted last
under it, and nothing if none was.  The other views agree with this, and one more insertion is seen
under its own identifier only. -/
theorem views_ofComponents (cs : List Component) :
    let r := ofComponents cs
    (r.ids.map Text.bytes).Pairwise (· < ·) ∧
    (∀ id, r.ids.count id = if id ∈ cs.map Component.id then 1 else 0) ∧
    (∀ id c, r.find? id = some c ↔ IsLatest cs id c) ∧
    (∀ id, r.find? id = none ↔ id ∉ cs.map Component.id) ∧
    (∀ id, r.contains id = true ↔ id ∈ r.ids) ∧
    r.size = r.ids.length ∧
    (r.isEmpty = true ↔ r.ids = []) ∧
    r.components.map some = r.ids.map r.find? ∧
    ∀ c id, id ≠ c.id → (r.insert c).find? id = r.find? id := by
  intro r
  have hcontains : ∀ id, r.contains id = true ↔ id ∈ r.ids := by
    intro id
    rw [contains, Option.isSome_iff_ne_none, find?, getSorted?_ne_none_iff, ids]
  refine ⟨?_, fun id => ?_, fun id c => find?_ofComponents_eq_some_iff,
    fun id => find?_ofComponents_eq_none_iff, hcontains, (List.length_map _).symm, ?_,
    r.map_some_components, fun c id hne => ?_⟩
  · exact List.pairwise_map.mpr (r.ascending.imp Text.bytes_lt_iff.mpr)
  · simp only [r.nodup_ids.count, r, mem_ids_ofComponents]
  · rw [isEmpty, List.isEmpty_iff, ids, List.map_eq_nil_iff]
  · rw [find?_insert, if_neg hne.symm]

/-- A card that is inserted twice, and two other components whose identifiers begin with a
letter beyond the basic ones. -/
def revised : List Component :=
  [Component.bare "ui:card" "Card" "card" "ui/card",
    Component.bare "étage:tab" "Tab" "tab" "étage/tab",
    Component.bare "ui:card" "New card" "card" "lib/card",
    Component.bare "𝕦i:tab" "Tab" "tab" "𝕦i/tab"]

/-- The second card is found in the place of the first one, and stays
when another component comes. -/
theorem views_ofComponents_revised :
    let r := ofComponents revised
    r.ids = ["ui:card", "étage:tab", "𝕦i:tab"] ∧ r.ids.count "ui:card" = 1 ∧
      r.find? "ui:card" = some (Component.bare "ui:card" "New card" "card" "lib/card") ∧
      r.find? "ui:tab" = none ∧
      "ui:card" ≠ (Component.bare "ui:tab" "Tab" "tab" "ui/tab").id ∧
      (r.insert (Component.bare "ui:tab" "Tab" "tab" "ui/tab")).find? "ui:card" =
        some (Component.bare "ui:card" "New card" "card" "lib/card") := by
  obtain ⟨-, hcount, hfind, hnone, -, -, -, -, hframe⟩ := views_ofComponents revised
  have hcard := (hfind "ui:card" (Component.bare "ui:card" "New card" "card" "lib/card")).mpr
    ⟨revised.take 2, revised.drop 3, rfl, rfl, by decide⟩
  have hne : "ui:card" ≠ (Component.bare "ui:tab" "Tab" "tab" "ui/tab").id := by decide
  exact ⟨by decide, hcount "ui:card", hcard, (hnone "ui:tab").mpr (by decide), hne,
    (hframe _ _ hne).trans hcard⟩

end ComponentStories.Registry
