import ComponentStories.Json.Reader
import ComponentStories.Proofs.Json.Shape
import ComponentStories.Proofs.Sorted

/-
# Values are read back

The text of a value is read as the tree of the value (`rawValue_chars`), whatever follows it, if its
numbers are read back; and the tree has the value again, with the fields of its objects in ascending
order of the names (`read?_chars`).  The reader has to be told how far it may go: no further than
the text is long.
-/

namespace ComponentStories

/-! ## Numbers -/

/-- Whether a text may follow a value: it begins with what divides or closes, or is empty. -/
def EndsValue (r : List Char) : Prop := ∀ c ∈ r.head?, c = ',' ∨ c = ']' ∨ c = '}'

/-- A number that is read as itself in front of what may follow it. -/
def JsonNumber.Rereads (n : JsonNumber) : Prop :=
  ∀ r, EndsValue r →
    (JsonNumber.parts (n.render ++ r)).map (fun x => (JsonNumber.ofParts x.1, x.2)) =
      some (some n, r)

theorem endsValue_nil : EndsValue [] := fun _ hc => absurd hc (by simp)

theorem endsValue_cons {c : Char} (hc : c = ',' ∨ c = ']' ∨ c = '}') (r : List Char) :
    EndsValue (c :: r) := by
  intro d hd
  obtain rfl := Option.some.inj hd
  exact hc

namespace Json

/-! ## Values and their trees -/

mutual

/-- The numbers inside a value. -/
def numbers : Json → List JsonNumber
  | number n => [n]
  | array items => itemNumbers items
  | object fields => fieldNumbers fields
  | _ => []

/-- The numbers inside the items of a list. -/
def itemNumbers : List Json → List JsonNumber
  | [] => []
  | v :: r => numbers v ++ itemNumbers r

/-- The numbers inside the fields of an object. -/
def fieldNumbers : List (String × Json) → List JsonNumber
  | [] => []
  | (_, v) :: r => numbers v ++ fieldNumbers r

end

mutual

/-- The tree of the text of a value. -/
def tree : Json → Raw
  | null => .null
  | bool b => .bool b
  | number n => .number (some n)
  | text s => .text (some s.toList)
  | array items => .array (itemTrees items)
  | object fields => .object (fieldTrees fields)

/-- The trees of the items of a list. -/
def itemTrees : List Json → List Raw
  | [] => []
  | v :: r => tree v :: itemTrees r

/-- The trees of the fields of an object. -/
def fieldTrees : List (String × Json) → List (Option (List Char) × Raw)
  | [] => []
  | (n, v) :: r => (some n.toList, tree v) :: fieldTrees r

end

mutual

/-- The value with the fields of its objects in ascending order, of which the
last one of a name is kept. -/
def sorted : Json → Json
  | null => null
  | bool b => bool b
  | number n => number n
  | text s => text s
  | array items => array (sortedItems items)
  | object fields => ofFields (sortedFields fields)

/-- The items of a list, sorted. -/
def sortedItems : List Json → List Json
  | [] => []
  | v :: r => sorted v :: sortedItems r

/-- The values of the fields of an object, sorted. -/
def sortedFields : List (String × Json) → List (String × Json)
  | [] => []
  | (n, v) :: r => (n, sorted v) :: sortedFields r

end

mutual

/-- The tree of a value has the value again. -/
theorem value?_tree : ∀ v : Json, v.tree.value? = some v.sorted
  | null => by rw [tree, sorted, Raw.value?]
  | bool b => by rw [tree, sorted, Raw.value?]
  | number n => by rw [tree, sorted, Raw.value?, Option.map_some]
  | text s => by rw [tree, sorted, Raw.value?, Option.map_some, String.ofList_toList]
  | array items => by rw [tree, sorted, Raw.value?, values?_itemTrees items, Option.map_some]
  | object fields => by
    rw [tree, sorted, Raw.value?, fieldValues?_fieldTrees fields, Option.map_some]

theorem values?_itemTrees : ∀ items : List Json,
    Raw.values? (itemTrees items) = some (sortedItems items)
  | [] => by rw [itemTrees, sortedItems, Raw.values?]
  | v :: r => by rw [itemTrees, sortedItems, Raw.values?, value?_tree v, values?_itemTrees r]

theorem fieldValues?_fieldTrees : ∀ fields : List (String × Json),
    Raw.fieldValues? (fieldTrees fields) = some (sortedFields fields)
  | [] => by rw [fieldTrees, sortedFields, Raw.fieldValues?]
  | (n, v) :: r => by
    simp only [fieldTrees, sortedFields, Raw.fieldValues?, value?_tree v, fieldValues?_fieldTrees r,
      String.ofList_toList]

end

theorem sortedItems_eq (items : List Json) : sortedItems items = items.map sorted := by
  induction items with
  | nil => rw [sortedItems, List.map_nil]
  | cons v items ih => rw [sortedItems, ih, List.map_cons]

theorem itemNumbers_eq_nil {items : List Json} (h : ∀ v ∈ items, v.numbers = []) :
    itemNumbers items = [] := by
  induction items with
  | nil => rw [itemNumbers]
  | cons v items ih =>
    rw [itemNumbers, h v List.mem_cons_self, ih fun w hw => h w (List.mem_cons_of_mem _ hw),
      List.append_nil]

theorem depthAll_itemTrees_le {items : List Json} {k : Nat} (h : ∀ v ∈ items, v.tree.depth ≤ k) :
    Raw.depthAll (itemTrees items) ≤ k := by
  induction items with
  | nil => exact Nat.zero_le k
  | cons v items ih =>
    rw [itemTrees, Raw.depthAll]
    exact Nat.max_le.mpr
      ⟨h v List.mem_cons_self, ih fun w hw => h w (List.mem_cons_of_mem _ hw)⟩

/-- A field of an object whose fields are given in any order: the last one of the name. -/
theorem field?_ofFields (name : String) (fields : List (String × Json)) :
    (ofFields fields).field? name =
      fields.foldl (fun found e => if e.1 = name then some e.2 else found) none :=
  (List.foldl_hom (getSorted? name) fun l e => (getSorted?_putSorted e.1 name e.2 l).symm).symm

/-! ## How texts begin -/

/-- Whether a value may begin with a character. -/
def isStart (c : Char) : Bool :=
  ['n', 't', 'f', '"', '[', '{'].contains c || JsonNumber.isNumeric c

theorem isStart_of_isNumeric {c : Char} (h : JsonNumber.isNumeric c = true) : isStart c = true := by
  rw [isStart, h, Bool.or_true]

theorem skipBlanks_of_isStart {c : Char} (h : isStart c = true) (s : List Char) :
    skipBlanks (c :: s) = c :: s := by
  have hblank : ¬ (c = ' ' ∨ c = '\t' ∨ c = '\n' ∨ c = '\r') := by
    rintro (rfl | rfl | rfl | rfl) <;> exact absurd h (by decide)
  rw [skipBlanks, if_neg hblank]

/-- A number that is read back has a character. -/
theorem exists_render_eq_cons {n : JsonNumber} (h : n.Rereads) :
    ∃ c s, n.render = c :: s ∧ JsonNumber.isNumeric c = true := by
  cases hchars : n.render with
  | nil =>
    have hread := h [] endsValue_nil
    rw [hchars] at hread
    exact absurd hread
      (by simp [JsonNumber.parts, JsonNumber.takeSomeDigits, JsonNumber.takeDigits])
  | cons c s =>
    exact ⟨c, s, rfl, JsonNumber.allNumeric_render n c (by rw [hchars]; exact List.mem_cons_self)⟩

/-- The text of a value begins with a beginning. -/
theorem exists_chars_eq_cons {v : Json} (h : ∀ n ∈ v.numbers, n.Rereads) :
    ∃ c s, v.chars = c :: s ∧ isStart c = true := by
  cases v with
  | null => exact ⟨'n', _, by rw [chars]; rfl, by decide⟩
  | bool b =>
    cases b with
    | true => exact ⟨'t', _, by rw [chars]; rfl, by decide⟩
    | false => exact ⟨'f', _, by rw [chars]; rfl, by decide⟩
  | number n =>
    obtain ⟨c, s, hchars, hc⟩ :=
      exists_render_eq_cons (h n (by rw [numbers]; exact List.mem_singleton_self n))
    exact ⟨c, s, by rw [chars, hchars], isStart_of_isNumeric hc⟩
  | text s => exact ⟨'"', _, by rw [chars, Quoted.encode]; rfl, by decide⟩
  | array items => exact ⟨'[', _, by rw [chars]; rfl, by decide⟩
  | object fields => exact ⟨'{', _, by rw [chars]; rfl, by decide⟩

/-- The text of items begins with the beginning of the first one. -/
theorem exists_itemChars_eq_cons {v : Json} (h : ∀ n ∈ v.numbers, n.Rereads) (items : List Json) :
    ∃ c s, itemChars (v :: items) = c :: s ∧ isStart c = true := by
  obtain ⟨c, s, hchars, hc⟩ := exists_chars_eq_cons h
  cases items with
  | nil => exact ⟨c, s, by rw [itemChars, hchars], hc⟩
  | cons w items => exact ⟨c, _, by rw [itemChars, hchars]; rfl, hc⟩

/-- The text of fields begins with the name of the first one. -/
theorem exists_fieldChars_eq (n : String) (v : Json) (fields : List (String × Json)) :
    ∃ s, fieldChars ((n, v) :: fields) = Quoted.encode n.toList ++ s := by
  cases fields with
  | nil => exact ⟨_, by rw [fieldChars]⟩
  | cons e fields => exact ⟨_, by rw [fieldChars, List.append_assoc]⟩

/-! ## One step of the reader -/

theorem rawText_escapeAll (s : String) (r : List Char) :
    rawText (Quoted.escapeAll s.toList ++ '"' :: r) = some (some s.toList, r) := by
  rw [rawText, Quoted.pieces_escapeAll, Option.map_some, Quoted.joinPieces_map_pieceOf]

theorem encode_append (s r : List Char) :
    Quoted.encode s ++ r = '"' :: (Quoted.escapeAll s ++ '"' :: r) := by
  rw [Quoted.encode, List.cons_append, List.cons_append, List.append_assoc]
  rfl

/-- A number is read by its parts. -/
theorem rawValue_of_isNumeric {c : Char} (hc : JsonNumber.isNumeric c = true) (fuel : Nat)
    (s : List Char) : rawValue (fuel + 1) (c :: s) =
      (JsonNumber.parts (c :: s)).map fun x => (.number (JsonNumber.ofParts x.1), x.2) := by
  have hnone : ∀ d ∈ ['n', 't', 'f', '"', '[', '{'], JsonNumber.isNumeric d = false := by decide
  have hother : ∀ d ∈ ['n', 't', 'f', '"', '[', '{'], ∀ u, c :: s ≠ d :: u := by
    intro d hd u heq
    rw [(List.cons.inj heq).1, hnone d hd] at hc
    exact Bool.false_ne_true hc
  rw [rawValue, skipBlanks_of_isStart (isStart_of_isNumeric hc)]
  split
  all_goals first
    | rfl
    | exact absurd ‹_› (hother _ (by decide) _)

/-- A list that does not close at once is read item by item. -/
theorem rawValue_array {c : Char} (hc : isStart c = true) (fuel : Nat) (s : List Char) :
    rawValue (fuel + 1) ('[' :: c :: s) =
      (rawItems fuel (c :: s)).map fun x => (.array x.1, x.2) := by
  have hopen : skipBlanks ('[' :: c :: s) = '[' :: c :: s := rfl
  have hne : c ≠ ']' := by
    rintro rfl
    exact absurd hc (by decide)
  simp only [rawValue, hopen, skipBlanks_of_isStart hc]
  split
  · rename_i heq
    exact absurd (List.cons.inj heq).1 hne
  · rfl

theorem rawValue_object (n : String) (fuel : Nat) (s : List Char) :
    rawValue (fuel + 1) ('{' :: (Quoted.encode n.toList ++ s)) =
      (rawFields fuel (Quoted.encode n.toList ++ s)).map fun x => (.object x.1, x.2) :=
  rfl

/-- The name of a field is read, and its value behind the colon. -/
theorem rawFields_encode_append (n : String) (fuel : Nat) (s : List Char) :
    rawFields (fuel + 1) (Quoted.encode n.toList ++ ':' :: s) =
      match rawValue fuel s with
      | none => none
      | some (v, r) =>
        match skipBlanks r with
        | '}' :: r => some ([(some n.toList, v)], r)
        | ',' :: r => (rawFields fuel r).map fun x => ((some n.toList, v) :: x.1, x.2)
        | _ => none := by
  have hquote : ∀ u, skipBlanks ('"' :: u) = '"' :: u := fun _ => rfl
  simp only [encode_append, rawFields, hquote, rawText_escapeAll]
  rfl

/-! ## The whole text -/

mutual

/-- **The text of a value is read as its tree**, whatever follows it. -/
theorem rawValue_chars : ∀ (v : Json) (fuel : Nat) {r : List Char},
    (∀ n ∈ v.numbers, n.Rereads) → EndsValue r → v.chars.length ≤ fuel →
      rawValue fuel (v.chars ++ r) = some (v.tree, r)
  | v, 0, _, hnumbers, _, hfuel => by
    obtain ⟨c, s, hchars, -⟩ := exists_chars_eq_cons hnumbers
    rw [hchars] at hfuel
    exact absurd hfuel (by simp)
  | null, fuel + 1, r, _, _, _ => by
    rw [chars, tree]
    rfl
  | bool true, fuel + 1, r, _, _, _ => by
    rw [chars, tree]
    rfl
  | bool false, fuel + 1, r, _, _, _ => by
    rw [chars, tree]
    rfl
  | number n, fuel + 1, r, hnumbers, hr, _ => by
    have hn : n.Rereads := hnumbers n (by rw [numbers]; exact List.mem_singleton_self n)
    obtain ⟨c, s, hchars, hc⟩ := exists_render_eq_cons hn
    obtain ⟨x, hx, heq⟩ := Option.map_eq_some_iff.mp (hn r hr)
    obtain ⟨hparts, hrest⟩ := Prod.mk.inj heq
    rw [hchars] at hx
    rw [chars, tree, hchars, List.cons_append, rawValue_of_isNumeric hc, ← List.cons_append, hx,
      Option.map_some, hparts, hrest]
  | text s, fuel + 1, r, _, _, _ => by
    have hquote : ∀ u, rawValue (fuel + 1) ('"' :: u) =
        (rawText u).map fun x => (.text x.1, x.2) := fun _ => rfl
    rw [chars, tree, encode_append, hquote, rawText_escapeAll, Option.map_some]
  | array [], fuel + 1, r, _, _, _ => by
    rw [chars, tree, itemChars, itemTrees]
    rfl
  | array (v :: items), fuel + 1, r, hnumbers, _, hfuel => by
    rw [numbers] at hnumbers
    simp only [chars, List.length_append, List.length_cons, List.length_nil] at hfuel
    have hitems := rawItems_itemChars v items fuel (r := r) hnumbers (by omega)
    obtain ⟨c, s, hchars, hc⟩ := exists_itemChars_eq_cons
      (fun n hn => hnumbers n (by rw [itemNumbers]; exact List.mem_append_left _ hn)) items
    rw [hchars, List.cons_append] at hitems
    rw [chars, tree, hchars]
    simp only [List.cons_append, List.append_assoc, List.nil_append]
    rw [rawValue_array hc, hitems, Option.map_some]
  | object [], fuel + 1, r, _, _, _ => by
    rw [chars, tree, fieldChars, fieldTrees]
    rfl
  | object ((n, v) :: fields), fuel + 1, r, hnumbers, _, hfuel => by
    rw [numbers] at hnumbers
    simp only [chars, List.length_append, List.length_cons, List.length_nil] at hfuel
    have hfields := rawFields_fieldChars n v fields fuel (r := r) hnumbers (by omega)
    obtain ⟨s, hs⟩ := exists_fieldChars_eq n v fields
    rw [hs, List.append_assoc] at hfields
    rw [chars, tree, hs]
    simp only [List.cons_append, List.append_assoc, List.nil_append]
    rw [rawValue_object, hfields, Option.map_some]

/-- The same for the items of a list, of which there is at least one. -/
theorem rawItems_itemChars : ∀ (v : Json) (items : List Json) (fuel : Nat) {r : List Char},
    (∀ n ∈ itemNumbers (v :: items), n.Rereads) → (itemChars (v :: items)).length < fuel →
      rawItems fuel (itemChars (v :: items) ++ ']' :: r) = some (itemTrees (v :: items), r)
  | _, _, 0, _, _, hfuel => absurd hfuel (Nat.not_lt_zero _)
  | v, [], fuel + 1, r, hnumbers, hfuel => by
    rw [itemNumbers, itemNumbers, List.append_nil] at hnumbers
    rw [itemChars] at hfuel
    have hv := rawValue_chars v fuel hnumbers (endsValue_cons (Or.inr (Or.inl rfl)) r)
      (Nat.le_of_lt_succ hfuel)
    have hclose : skipBlanks (']' :: r) = ']' :: r := rfl
    simp only [itemChars, rawItems, hv, hclose, itemTrees]
  | v, w :: items, fuel + 1, r, hnumbers, hfuel => by
    rw [itemNumbers] at hnumbers
    rw [itemChars, List.length_append, List.length_cons] at hfuel
    have hv := rawValue_chars v fuel (fun n hn => hnumbers n (List.mem_append_left _ hn))
      (endsValue_cons (Or.inl rfl) (itemChars (w :: items) ++ ']' :: r)) (by omega)
    have hrest := rawItems_itemChars w items fuel (r := r)
      (fun n hn => hnumbers n (List.mem_append_right _ hn)) (by omega)
    have hcomma : ∀ u, skipBlanks (',' :: u) = ',' :: u := fun _ => rfl
    rw [itemChars, List.append_assoc, List.cons_append, rawItems, hv]
    simp only [hcomma, hrest, Option.map_some, itemTrees]

/-- The same for the fields of an object, of which there is at least one. -/
theorem rawFields_fieldChars :
    ∀ (n : String) (v : Json) (fields : List (String × Json)) (fuel : Nat)
    {r : List Char}, (∀ x ∈ fieldNumbers ((n, v) :: fields), x.Rereads) →
      (fieldChars ((n, v) :: fields)).length < fuel →
      rawFields fuel (fieldChars ((n, v) :: fields) ++ '}' :: r) =
        some (fieldTrees ((n, v) :: fields), r)
  | _, _, _, 0, _, _, hfuel => absurd hfuel (Nat.not_lt_zero _)
  | n, v, [], fuel + 1, r, hnumbers, hfuel => by
    rw [fieldNumbers, fieldNumbers, List.append_nil] at hnumbers
    rw [fieldChars, List.length_append, List.length_cons] at hfuel
    have hv := rawValue_chars v fuel hnumbers (endsValue_cons (Or.inr (Or.inr rfl)) r)
      (by omega)
    have hclose : skipBlanks ('}' :: r) = '}' :: r := rfl
    rw [fieldChars, List.append_assoc, List.cons_append, rawFields_encode_append, hv]
    simp only [hclose, fieldTrees]
  | n, v, (m, w) :: fields, fuel + 1, r, hnumbers, hfuel => by
    rw [fieldNumbers] at hnumbers
    simp only [fieldChars, List.length_append, List.length_cons] at hfuel
    have hv := rawValue_chars v fuel (fun x hx => hnumbers x (List.mem_append_left _ hx))
      (endsValue_cons (Or.inl rfl) (fieldChars ((m, w) :: fields) ++ '}' :: r)) (by omega)
    have hrest := rawFields_fieldChars m w fields fuel (r := r)
      (fun x hx => hnumbers x (List.mem_append_right _ hx)) (by omega)
    have hcomma : ∀ u, skipBlanks (',' :: u) = ',' :: u := fun _ => rfl
    rw [fieldChars, List.append_assoc, List.append_assoc, List.cons_append, List.cons_append,
      rawFields_encode_append, hv]
    simp only [hcomma, hrest, Option.map_some, fieldTrees]

end

/-- A whole text is read as the tree of the value that it is the text of. -/
theorem raw?_chars {v : Json} (h : ∀ n ∈ v.numbers, n.Rereads) : raw? v.chars = some v.tree := by
  have hread := rawValue_chars v (2 * v.chars.length + 2) h endsValue_nil (by omega)
  rw [List.append_nil] at hread
  rw [raw?, hread]
  rfl

/-- **The text of a value is read back** as the value with the fields of its objects in order. -/
theorem read?_chars {v : Json} (h : ∀ n ∈ v.numbers, n.Rereads) :
    read? v.chars = some v.sorted := by
  rw [read?, raw?_chars h, Option.bind_some, value?_tree]

/-- The same under a bound on how far lists and objects are nested. -/
theorem readWithin?_chars {v : Json} (h : ∀ n ∈ v.numbers, n.Rereads)
    (hdepth : v.tree.depth ≤ maxDepth) :
    readWithin? v.chars = some v.sorted := by
  rw [readWithin?, raw?_chars h, Option.bind_some, Raw.valueWithin?, if_pos hdepth, value?_tree]

end Json

end ComponentStories
