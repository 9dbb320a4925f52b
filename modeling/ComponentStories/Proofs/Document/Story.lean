import ComponentStories.Proofs.Document.Header
import ComponentStories.Proofs.Document.Options

/-
# The story of a document is read back

A document whose texts hold no delimiter of tags has exactly one story for its reader: the one that
it was written with (`storiesFile?_render_stories`).  The texts are the names, the group, and every
text inside a default or a value that an input may take; nothing else about the arguments matters.
-/

namespace ComponentStories

open Text Template

/-! ## The texts of a component -/

/-- The texts inside the default and the values that an input may take. -/
def Definition.texts (d : Definition) : List String :=
  (d.default.map Json.strings).getD [] ++ (d.options.map Json.itemStrings).getD []

/-- The texts inside the defaults and the values of all inputs. -/
def Component.texts (c : Component) : List String :=
  (c.properties.entries ++ c.slots.entries).flatMap fun e => e.2.texts

theorem Json.mem_itemStrings {v : Json} {items : List Json} (hv : v ∈ items) {s : String}
    (hs : s ∈ v.strings) : s ∈ Json.itemStrings items := by
  induction items with
  | nil => exact absurd hv List.not_mem_nil
  | cons w items ih =>
    rw [Json.itemStrings]
    rcases List.mem_cons.mp hv with rfl | hv
    · exact List.mem_append_left _ hs
    · exact List.mem_append_right _ (ih hv)

/-- The literals of an argument hold no delimiter of tags if no text of the input does. -/
theorem Argument.tagFree_ofDefinition {d : Definition} (h : ∀ s ∈ d.texts, TagFree s.toList)
    (name : String) (required : Bool) :
    TagFree (Argument.ofDefinition name d required).defaultLiteral.toList ∧
      TagFree (Argument.ofDefinition name d required).control.literal.toList := by
  constructor
  · refine Inert.tagFree (inert_defaultLiteral fun v hv s hs => h s ?_)
    have hdefault : d.default = some v := (Option.filter_eq_some_iff.mp hv).1
    rw [Definition.texts, hdefault]
    exact List.mem_append_left _ hs
  · show TagFree (String.ofList (Control.ofDefinition d).literalChars).toList
    rw [String.toList_ofList]
    refine Inert.tagFree (Control.inert_literalChars_ofDefinition fun vs hvs v hv s hs => h s ?_)
    have hoptions : d.options = some vs := hvs
    rw [Definition.texts, hoptions]
    exact List.mem_append_right _ (Json.mem_itemStrings hv hs)

/-- The literals of a component's arguments hold no delimiter of tags if
no text of an input does. -/
theorem Component.tagFree_arguments {c : Component} (h : ∀ s ∈ c.texts, TagFree s.toList)
    {a : Argument} (ha : a ∈ c.arguments) :
    TagFree a.defaultLiteral.toList ∧ TagFree a.control.literal.toList := by
  obtain ⟨e, he, rfl⟩ := Component.mem_arguments ha
  refine Argument.tagFree_ofDefinition (fun s hs => h s ?_) e.1 (c.isRequired e.1)
  exact List.mem_flatMap.mpr ⟨e, List.mem_append.mpr he, hs⟩

namespace StoryDocument

/-! ## Texts without delimiters -/

theorem tagFree_quotedLiteral {s : String} (h : TagFree s.toList) :
    TagFree (quotedLiteral s).toList := by
  rw [toList_quotedLiteral]
  exact (inert_quoted (Or.inr rfl) (Quoted.tagFree_escapeAll h)).tagFree

/-- A title holds no delimiter of tags if neither the group nor the name does. -/
theorem tagFree_titleOf {group name : String} (hgroup : TagFree group.toList)
    (hname : TagFree name.toList) : TagFree (titleOf group name).toList := by
  have hfront : dropEndWhile (· == '/') group.toList <:+: group.toList :=
    (List.prefix_append _ _).isInfix.trans
      (by rw [dropEndWhile_append_takeWhile (· == '/') group.toList])
  rw [titleOf, String.toList_ofList, tagFree_append_cons (by decide) (by decide),
    tagFree_cons (by decide) (by decide)]
  exact ⟨hgroup.of_infix hfront, hname⟩

/-- Literals without delimiters open no story and end no tag. -/
theorem harmless_of_tagFree {es : List (String × String)} (h : ∀ e ∈ es, TagFree e.2.toList) :
    literalIds es = [] ∧ ¬ SomeEndsTag es := by
  constructor
  · rw [literalIds, List.flatMap_eq_nil_iff]
    intro e he
    rw [storyIds_eq_nil_iff]
    exact openings_eq_nil (h e he).1
  · rintro ⟨e, he, hend⟩
    exact (h e he).2 hend

/-! ## One story -/

/-- **A document is read back as the one story that it describes.** -/
theorem storiesFile?_render_stories {c : Component} {settings : Settings}
    (hinputs : c.hasNoInputs = false) (hmachine : IsPlainName c.machineName)
    (hnames : ∀ n ∈ c.inputs.names, IsQuiet n) (hid : TagFree c.id.toList)
    (hname : TagFree c.name.toList) (hgroup : TagFree settings.group.toList)
    (htexts : ∀ s ∈ c.texts, TagFree s.toList) (hstory : IsWord settings.storyId.toList)
    (hlabel : IsLabel settings.storyName) (htags : ∀ t ∈ settings.tags, IsLabel t ∧ t ≠ "")
    (url : String) :
    ∃ d f, c.document? settings = some d ∧ storiesFile? d.render url = some f ∧
      f.stories = [⟨settings.storyName, settings.tags,
        ⟨none, c.machineName.map (fun ch => if ch = '-' then '_' else ch) ++ "/" ++
          settings.storyId⟩⟩] := by
  obtain ⟨d, hd, hdesc⟩ := exists_describes hinputs c.id settings
  have hreg : d.Regular :=
    hdesc.regular hmachine (Component.forall_arguments hnames) hstory hlabel htags
  -- neither the literals nor the title nor the identifier of the component opens a story
  have hdefaults : literalIds d.defaults = [] ∧ ¬ SomeEndsTag d.defaults := by
    apply harmless_of_tagFree
    rw [hdesc.defaults]
    intro e he
    rcases List.mem_cons.mp he with rfl | he
    · exact tagFree_quotedLiteral hname
    · obtain ⟨a, ha, rfl⟩ := List.mem_map.mp he
      exact (Component.tagFree_arguments htexts ha).1
  have hcontrols : literalIds d.argTypes = [] ∧ ¬ SomeEndsTag d.argTypes := by
    apply harmless_of_tagFree
    rw [hdesc.argTypes]
    intro e he
    obtain ⟨a, ha, rfl⟩ := List.mem_map.mp he
    exact (Component.tagFree_arguments htexts ha).2
  have htitle : storyIds (quotedLiteral d.title).toList = [] := by
    rw [storyIds_eq_nil_iff, hdesc.title]
    exact openings_eq_nil (tagFree_quotedLiteral (tagFree_titleOf hgroup hname)).1
  have hcomponent : openings 0 d.componentId.toList = [] := by
    rw [hdesc.componentId]
    exact openings_eq_nil hid.1
  refine ⟨d, _, hd, storiesFile?_render hreg.storiesId url, ?_⟩
  rw [stories_eq_map_openings, openings_chars hreg htitle hdefaults.1 hcontrols.1, hcomponent]
  show [storyEntry d.storiesId.toList (d.storyId.toList, untilTagEnd d.storyRest)] = _
  rw [storyEntry_storyRest hreg hdesc.erasable hdefaults.2 hcontrols.2, hdesc.storyName, hdesc.tags,
    hdesc.storiesId, hdesc.storyId, storiesIdOf_eq]

/-- A component with a list of objects as a default and a slot that offers
texts with quotes and braces. -/
def nested : Component :=
  ((Component.bare "p:my-card" "A \"card\"" "my-card" "p/my-card").withProperty "items"
    ⟨some (.single .array), none, none, none,
      some (.array [.object [("a\"]", .text "it's \x7b"), ("b", .array [.null])]]), false⟩).withSlot
    "look" ⟨none, none, none, some [.text "'],", .text "\x7d"], none, false⟩

/-- Settings with two tags. -/
def nestedSettings : Settings := ⟨"Group//", "main", "Main story", ["a b", "c-d"]⟩

/-- Its story is read back. -/
theorem storiesFile?_render_stories_nested :
    ∃ d f, nested.document? nestedSettings = some d ∧
      storiesFile? d.render "http://localhost" = some f ∧
      f.stories = [⟨"Main story", ["a b", "c-d"], ⟨none, "my_card/main"⟩⟩] := by
  obtain ⟨d, f, hd, hf, hstories⟩ :=
    @storiesFile?_render_stories nested nestedSettings rfl (by decide) (by decide) (by decide)
      (by decide) (by decide) (by decide) (by decide) (by decide) (by decide) "http://localhost"
  have hid : nested.machineName.map (fun ch => if ch = '-' then '_' else ch) ++ "/" ++ "main" =
      "my_card/main" := by
    rw [← String.toList_inj, String.toList_append, String.toList_append, String.toList_map]
    decide
  exact ⟨d, f, hd, hf, hstories.trans (by rw [← hid]; rfl)⟩

end StoryDocument

end ComponentStories
