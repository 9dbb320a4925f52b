import ComponentStories.Proofs.Json.Reread
import ComponentStories.StoriesFile

/-
# Stories files are read back

`StoriesFile.parse?` reads the text of a stories file: an address that is left out is not set, and
tags that are left out are none.  It gives back every file from its text, so that no two files have
the same text (`StoriesFile.parse?_render`).  A stories file holds no number, and its lists and
objects are nested five times at most.
-/

namespace ComponentStories

open Json (tree sorted numbers)

/-! ## The reader -/

namespace Json

/-- A field that has to be there, as `read` understands it. -/
def needed? {α : Type} (read : Json → Option α) (name : String) (v : Json) : Option α :=
  (v.field? name).bind read

/-- A field that may be left out, for which `absent` stands then. -/
def needless? {α : Type} (absent : α) (read : Json → Option α) (name : String) (v : Json) :
    Option α :=
  match v.field? name with
  | none => some absent
  | some w => read w

end Json

/-- The parameters that a value is. -/
def ServerParameters.ofJson? (v : Json) : Option ServerParameters := do
  let server ← v.field? "server"
  let url ← server.needless? none (fun u => u.text?.map some) "url"
  let id ← server.needed? Json.text? "id"
  some ⟨url, id⟩

/-- The story that a value is. -/
def StoryEntry.ofJson? (v : Json) : Option StoryEntry := do
  let name ← v.needed? Json.text? "name"
  let tags ← v.needless? [] Json.texts? "tags"
  let server ← v.needed? ServerParameters.ofJson? "parameters"
  some ⟨name, tags, server⟩

/-- The file that a value is. -/
def StoriesFile.ofJson? (v : Json) : Option StoriesFile := do
  let title ← v.needed? Json.text? "title"
  let server ← v.needed? ServerParameters.ofJson? "parameters"
  let stories ← v.needed? Json.array? "stories"
  let stories ← stories.mapM StoryEntry.ofJson?
  some ⟨title, server, stories⟩

/-- The file that a text is the text of. -/
def StoriesFile.parse? (text : String) : Option StoriesFile :=
  (Json.readWithin? text.toList).bind StoriesFile.ofJson?

/-! ## What the reader makes of the value of a file -/

/-- Reading every value that was written gives the list back. -/
theorem mapM_map_eq_some {α β : Type} (write : α → β) (read : β → Option α)
    (h : ∀ a, read (write a) = some a) (l : List α) : (l.map write).mapM read = some l := by
  rw [List.mapM_map, show read ∘ write = fun a => some a from funext h]
  exact List.mapM_pure.trans (congrArg some (List.map_id l))

namespace Json

theorem texts?_texts (l : List String) : (texts l).texts? = some l :=
  mapM_map_eq_some text text? (fun _ => rfl) l

theorem sorted_texts (l : List String) : (texts l).sorted = texts l := by
  rw [texts, sorted, sortedItems_eq, List.map_map]
  rfl

theorem numbers_texts (l : List String) : (texts l).numbers = [] := by
  rw [texts, numbers]
  exact itemNumbers_eq_nil fun v hv => by
    obtain ⟨s, -, rfl⟩ := List.mem_map.mp hv
    rfl

theorem depth_tree_texts_le (l : List String) : (texts l).tree.depth ≤ 1 := by
  rw [texts, tree, Raw.depth]
  refine Nat.succ_le_succ (depthAll_itemTrees_le fun v hv => ?_)
  obtain ⟨s, -, rfl⟩ := List.mem_map.mp hv
  exact Nat.le_refl 0

end Json

/-- The parameters are read back. -/
theorem ServerParameters.ofJson?_toJson (p : ServerParameters) :
    ofJson? p.toJson.sorted = some p := by
  obtain ⟨url, id⟩ := p
  cases url with
  | none =>
    simp [ofJson?, toJson, sorted, Json.sortedFields, Json.field?_ofFields, Json.needed?,
      Json.needless?, Json.text?]
  | some u =>
    simp [ofJson?, toJson, sorted, Json.sortedFields, Json.field?_ofFields, Json.needed?,
      Json.needless?, Json.text?]

/-- A story is read back. -/
theorem StoryEntry.ofJson?_toJson (e : StoryEntry) : ofJson? e.toJson.sorted = some e := by
  obtain ⟨name, tags, server⟩ := e
  cases tags with
  | nil =>
    simp [ofJson?, toJson, sorted, Json.sortedFields, Json.field?_ofFields, Json.needed?,
      Json.needless?, Json.text?, ServerParameters.ofJson?_toJson]
  | cons t tags =>
    simp [ofJson?, toJson, sorted, Json.sortedFields, Json.field?_ofFields, Json.needed?,
      Json.needless?, Json.text?, ServerParameters.ofJson?_toJson, Json.sorted_texts,
      Json.texts?_texts]

namespace StoriesFile

/-- A file is read back. -/
theorem ofJson?_toJson (f : StoriesFile) : ofJson? f.toJson.sorted = some f := by
  have hstories : (f.stories.map fun e => e.toJson.sorted).mapM StoryEntry.ofJson? =
      some f.stories :=
    mapM_map_eq_some _ _ StoryEntry.ofJson?_toJson f.stories
  simp [ofJson?, toJson, sorted, Json.sortedFields, Json.field?_ofFields, Json.needed?, Json.text?,
    Json.array?, ServerParameters.ofJson?_toJson, Json.sortedItems_eq, Function.comp_def, hstories]

end StoriesFile

/-! ## What is inside the value of a file -/

theorem ServerParameters.numbers_toJson (p : ServerParameters) : p.toJson.numbers = [] := by
  obtain ⟨url, id⟩ := p
  cases url <;> rfl

theorem StoryEntry.numbers_toJson (e : StoryEntry) : e.toJson.numbers = [] := by
  obtain ⟨name, tags, server⟩ := e
  cases tags with
  | nil => simp [toJson, numbers, Json.fieldNumbers, server.numbers_toJson]
  | cons t tags =>
    simp [toJson, numbers, Json.fieldNumbers, server.numbers_toJson, Json.numbers_texts]

theorem StoriesFile.numbers_toJson (f : StoriesFile) : f.toJson.numbers = [] := by
  have hstories : Json.itemNumbers (f.stories.map StoryEntry.toJson) = [] :=
    Json.itemNumbers_eq_nil (List.forall_mem_map.mpr fun e _ => e.numbers_toJson)
  simp [toJson, numbers, Json.fieldNumbers, f.server.numbers_toJson, hstories]

theorem ServerParameters.depth_toJson_le (p : ServerParameters) : p.toJson.tree.depth ≤ 2 := by
  obtain ⟨url, id⟩ := p
  cases url <;> exact Nat.le_refl 2

/-- A story is nested three times. -/
theorem StoryEntry.depth_toJson_le (e : StoryEntry) : e.toJson.tree.depth ≤ 3 := by
  have hserver := e.server.depth_toJson_le
  have htags := Json.depth_tree_texts_le e.tags
  by_cases h : e.tags.isEmpty = true
  · simp only [toJson, h, if_true, List.cons_append, List.nil_append, tree, Json.fieldTrees,
      Json.Raw.depth, Json.Raw.depthFields]
    omega
  · simp only [toJson, h, Bool.false_eq_true, if_false, List.cons_append, List.nil_append, tree,
      Json.fieldTrees, Json.Raw.depth, Json.Raw.depthFields]
    omega

theorem StoriesFile.depth_toJson_le (f : StoriesFile) : f.toJson.tree.depth ≤ 5 := by
  have hserver := f.server.depth_toJson_le
  have hstories : Json.Raw.depthAll (Json.itemTrees (f.stories.map StoryEntry.toJson)) ≤ 3 :=
    Json.depthAll_itemTrees_le (List.forall_mem_map.mpr fun e _ => e.depth_toJson_le)
  simp only [toJson, tree, Json.fieldTrees, Json.Raw.depth, Json.Raw.depthFields]
  omega

/-! ## The text of a file -/

namespace StoriesFile

/-- The text of a file is read back as the file. -/
theorem parse?_eq (f : StoriesFile) : parse? f.render = some f := by
  have hnumbers : ∀ n ∈ f.toJson.numbers, n.Rereads := by
    rw [f.numbers_toJson]
    exact fun n hn => absurd hn List.not_mem_nil
  have hdepth : f.toJson.tree.depth ≤ Json.maxDepth :=
    f.depth_toJson_le.trans (by decide)
  rw [parse?, render, Json.compact, String.toList_ofList, Json.readWithin?_chars hnumbers hdepth,
    Option.bind_some, f.ofJson?_toJson]

/-- **The text of a stories file loses nothing**: it is read back as the file, whatever its texts
are, and so two different files never have the same text. -/
theorem parse?_render :
    (∀ f : StoriesFile, parse? f.render = some f) ∧ Function.Injective render := by
  refine ⟨parse?_eq, fun f g heq => Option.some.inj ?_⟩
  rw [← parse?_eq f, ← parse?_eq g, heq]

/-- A file whose texts hold what its text is made of; one address is set and empty, the tags
of one story are left out. -/
def cryptic : StoriesFile where
  title := "\",\\\n"
  server := ⟨none, "é\x01"⟩
  stories := [⟨"", [], ⟨some "", "a"⟩⟩, ⟨"]\x7d", ["x\",\"y", ""], ⟨none, "\t"⟩⟩]

/-- The file is read back, and its text is not that of the file without its stories. -/
theorem parse?_render_cryptic :
    cryptic.render = "\x7b\"title\":\"\\\",\\\\\\n\",\"parameters\":\x7b\"server\":\x7b\"id\":" ++
      "\"é\\u0001\"\x7d\x7d,\"stories\":[\x7b\"name\":\"\",\"parameters\":\x7b\"server\":\x7b" ++
      "\"url\":\"\",\"id\":\"a\"\x7d\x7d\x7d,\x7b\"name\":\"]\x7d\"," ++
      "\"tags\":[\"x\\\",\\\"y\",\"\"]," ++
      "\"parameters\":\x7b\"server\":\x7b\"id\":\"\\t\"\x7d\x7d\x7d]\x7d" ∧
    parse? cryptic.render = some cryptic ∧
    ({ cryptic with stories := [] } : StoriesFile).render ≠ cryptic.render :=
  ⟨by decide +kernel, parse?_render.1 cryptic, fun h => absurd (parse?_render.2 h) (by decide)⟩

end StoriesFile

end ComponentStories
