/-
# Lists of named values in the order of first mention

An `Ordered` holds a value for each of finitely many names.  A name keeps the place of its
first insertion and carries the value of its last one.  The view is `entries`; `get?`,
`names` and `size` read it.
-/

namespace ComponentStories

/-! ## Putting one entry -/

/-- The entries with `value` under `name`: in the place of the entry that has the name,
at the end when there is none. -/
def putEntry {α : Type} (name : String) (value : α) : List (String × α) → List (String × α)
  | [] => [(name, value)]
  | (n, v) :: rest => if n = name then (n, value) :: rest else (n, v) :: putEntry name value rest

/-- The names after putting an entry: the new name comes last, a known name changes nothing. -/
theorem map_fst_putEntry {α : Type} (name : String) (value : α) (l : List (String × α)) :
    (putEntry name value l).map Prod.fst =
      if name ∈ l.map Prod.fst then l.map Prod.fst else l.map Prod.fst ++ [name] := by
  induction l with
  | nil => simp [putEntry]
  | cons e l ih =>
    obtain ⟨n, v⟩ := e
    by_cases h : n = name
    · simp [putEntry, h]
    · have h' : ¬ name = n := fun e => h e.symm
      simp only [putEntry, h, if_false, List.map_cons, ih, List.mem_cons, h', false_or]
      split <;> simp

/-- Putting an entry keeps names apart that were apart. -/
theorem nodup_putEntry {α : Type} (name : String) (value : α) {l : List (String × α)}
    (h : (l.map Prod.fst).Nodup) : ((putEntry name value l).map Prod.fst).Nodup := by
  rw [map_fst_putEntry]
  split
  · exact h
  · rename_i hn
    rw [List.nodup_append]
    refine ⟨h, by simp, ?_⟩
    intro a ha b hb hab
    simp only [List.mem_singleton] at hb
    exact hn (hb ▸ hab ▸ ha)

/-- The value found under a name after putting an entry. -/
theorem lookup_putEntry {α : Type} (name other : String) (value : α) (l : List (String × α)) :
    (putEntry name value l).lookup other =
      if other = name then some value else l.lookup other := by
  induction l with
  | nil =>
    by_cases h : other = name
    · simp [putEntry, h]
    · have hb : (other == name) = false := by simpa using h
      simp [putEntry, h, List.lookup_cons, hb]
  | cons e l ih =>
    obtain ⟨n, v⟩ := e
    by_cases h : n = name
    · subst h
      by_cases ho : other = n
      · simp [putEntry, ho]
      · have hb : (other == n) = false := by simpa using ho
        simp [putEntry, ho, List.lookup_cons, hb]
    · simp only [putEntry, h, if_false, List.lookup_cons]
      by_cases ho : other = n
      · subst ho; simp [h]
      · have hb : (other == n) = false := by simpa using ho
        simp only [hb, ih]

/-! ## The map -/

/-- Named values in the order in which the names were first given. -/
structure Ordered (α : Type) where
  /-- The entries in order. -/
  entries : List (String × α)
  /-- No name is given twice. -/
  distinct : (entries.map Prod.fst).Nodup

namespace Ordered

variable {α : Type}

@[ext] theorem ext {m n : Ordered α} (h : m.entries = n.entries) : m = n := by
  cases m; cases n; cases h; rfl

/-- The map without entries. -/
def empty : Ordered α := ⟨[], List.nodup_nil⟩

instance : Inhabited (Ordered α) := ⟨empty⟩

/-- The map with `value` under `name`: in the old place of the name, or at the end. -/
def insert (m : Ordered α) (name : String) (value : α) : Ordered α :=
  ⟨putEntry name value m.entries, nodup_putEntry name value m.distinct⟩

/-- The value under a name. -/
def get? (m : Ordered α) (name : String) : Option α := m.entries.lookup name

/-- The names in order. -/
def names (m : Ordered α) : List String := m.entries.map Prod.fst

/-- The values in the order of their names. -/
def values (m : Ordered α) : List α := m.entries.map Prod.snd

/-- The number of names. -/
def size (m : Ordered α) : Nat := m.entries.length

/-- Whether there is no entry. -/
def isEmpty (m : Ordered α) : Bool := m.entries.isEmpty

/-- The entries of a list inserted one after the other. -/
def insertAll (m : Ordered α) (l : List (String × α)) : Ordered α :=
  l.foldl (fun m e => m.insert e.1 e.2) m

/-- The map that holds the entries of a list: a repeated name keeps its first place
and takes its last value. -/
def ofList (l : List (String × α)) : Ordered α := empty.insertAll l

/-- The map with every value replaced by its image. -/
def map {β : Type} (f : α → β) (m : Ordered α) : Ordered β :=
  ⟨m.entries.map fun e => (e.1, f e.2), by
    have : (m.entries.map fun e => (e.1, f e.2)).map Prod.fst = m.entries.map Prod.fst := by
      rw [List.map_map]; rfl
    rw [this]; exact m.distinct⟩

/-! ## What each operation does to the views -/

@[simp] theorem entries_empty : (empty : Ordered α).entries = [] := rfl

@[simp] theorem names_empty : (empty : Ordered α).names = [] := rfl

@[simp] theorem get?_empty (name : String) : (empty : Ordered α).get? name = none := rfl

theorem names_insert (m : Ordered α) (name : String) (value : α) :
    (m.insert name value).names = if name ∈ m.names then m.names else m.names ++ [name] :=
  map_fst_putEntry name value m.entries

/-- An insertion is seen under its own name and under no other. -/
theorem get?_insert (m : Ordered α) (name other : String) (value : α) :
    (m.insert name value).get? other = if other = name then some value else m.get? other :=
  lookup_putEntry name other value m.entries

theorem size_eq_length_names (m : Ordered α) : m.size = m.names.length := by
  simp [size, names]

@[simp] theorem names_map {β : Type} (f : α → β) (m : Ordered α) : (m.map f).names = m.names := by
  simp only [names, map, List.map_map]
  rfl

@[simp] theorem insertAll_nil (m : Ordered α) : m.insertAll [] = m := rfl

@[simp] theorem insertAll_cons (m : Ordered α) (e : String × α) (l : List (String × α)) :
    m.insertAll (e :: l) = (m.insert e.1 e.2).insertAll l := rfl

theorem insertAll_append (m : Ordered α) (l r : List (String × α)) :
    m.insertAll (l ++ r) = (m.insertAll l).insertAll r := by
  simp [insertAll, List.foldl_append]

end Ordered

end ComponentStories
