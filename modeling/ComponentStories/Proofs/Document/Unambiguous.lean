import ComponentStories.Proofs.Argument.Reader
import ComponentStories.Proofs.Document.Layout
import ComponentStories.Proofs.Template.Keys

/-
# Documents are told apart by their texts

Two documents of components with plain names that are made under the same settings are the same as
soon as their texts are (`eq_of_render_eq`).  The texts are compared from the front.  The title ends
at its closing quote; a literal of a default is one line, so it ends at the line break behind it; a
literal of a control is followed from its brace to the brace that closes it.  The comma behind an
entry then tells whether another one follows, and what is left at the end is the identifier of the
component.
-/

namespace ComponentStories.StoryDocument

open Text

/-! ## Entries that are told apart -/

/-- What stands behind an entry of a block: the separator, or the end of the block. -/
inductive Follows : List Char → Prop
  /-- Another entry follows. -/
  | entry (s : List Char) : Follows (separator 12 ++ s)
  /-- The block ends. -/
  | stop (s : List Char) : Follows ("\n        \x7d".toList ++ s)

theorem separator_append_ne (s s' : List Char) :
    separator 12 ++ s ≠ "\n        \x7d".toList ++ s' := by
  intro h
  exact absurd (congrArg List.head? h) (show some ',' ≠ some '\n' by decide)

/-- **Blocks are told apart** if their entries are: where two blocks and what follows them are the
same text, the entries are the same. -/
theorem join_append_inj {α : Type} {f : α → List Char} {R : α → Prop}
    (hf : ∀ a b x y, R a → R b → Follows x → Follows y → f a ++ x = f b ++ y → a = b ∧ x = y)
    {as bs : List α} (has : ∀ a ∈ as, R a) (hbs : ∀ b ∈ bs, R b) (hane : as ≠ []) (hbne : bs ≠ [])
    {s s' : List Char}
    (h : join (separator 12) (as.map f) ++ ("\n        \x7d".toList ++ s) =
      join (separator 12) (bs.map f) ++ ("\n        \x7d".toList ++ s')) :
    as = bs ∧ s = s' := by
  have more : ∀ (a b : α) (r : List α) (t : List Char),
      join (separator 12) ((a :: b :: r).map f) ++ t =
        f a ++ (separator 12 ++ (join (separator 12) ((b :: r).map f) ++ t)) := by
    intro a b r t
    simp only [List.map_cons, join, List.append_assoc]
  -- the induction is on both lists: where only one of them goes on, the texts behind the entries
  -- begin with different characters
  induction as generalizing bs with
  | nil => exact absurd rfl hane
  | cons a as ih =>
    cases bs with
    | nil => exact absurd rfl hbne
    | cons b bs =>
      have ha := has a List.mem_cons_self
      have hb := hbs b List.mem_cons_self
      cases as with
      | nil =>
        cases bs with
        | nil =>
          obtain ⟨rfl, hs⟩ := hf a b _ _ ha hb (.stop s) (.stop s') h
          exact ⟨rfl, List.append_cancel_left hs⟩
        | cons b' bs =>
          rw [more b b' bs] at h
          obtain ⟨-, hs⟩ := hf a b _ _ ha hb (.stop s) (.entry _) h
          exact absurd hs.symm (separator_append_ne _ _)
      | cons a' as =>
        cases bs with
        | nil =>
          rw [more a a' as] at h
          obtain ⟨-, hs⟩ := hf a b _ _ ha hb (.entry _) (.stop s') h
          exact absurd hs (separator_append_ne _ _)
        | cons b' bs =>
          rw [more a a' as, more b b' bs] at h
          obtain ⟨rfl, hs⟩ := hf a b _ _ ha hb (.entry _) (.entry _) h
          obtain ⟨htail, hend⟩ := ih (fun x hx => has x (List.mem_cons_of_mem a hx))
            (fun x hx => hbs x (List.mem_cons_of_mem a hx)) (List.cons_ne_nil a' as)
            (List.cons_ne_nil b' bs) (List.append_cancel_left hs)
          exact ⟨by rw [htail], hend⟩

/-- A name in front of its colon is told apart from what follows. -/
theorem name_append_inj {n n' : String} (hn : ':' ∉ n.toList) (hn' : ':' ∉ n'.toList)
    {s s' : List Char} (h : n.toList ++ ": ".toList ++ s = n'.toList ++ ": ".toList ++ s') :
    n = n' ∧ s = s' := by
  have hcolon : ": ".toList = [':', ' '] := rfl
  rw [hcolon, List.append_assoc, List.append_assoc] at h
  obtain ⟨hname, hrest⟩ := Template.append_quote_inj hn hn' h
  exact ⟨String.toList_inj.mp hname, (List.cons.inj hrest).2⟩

/-! ## Defaults -/

/-- A literal of one line is told apart from what follows it. -/
theorem line_append_inj {a b x y : List Char} (ha : '\n' ∉ a) (hb : '\n' ∉ b) (hx : Follows x)
    (hy : Follows y) (h : a ++ x = b ++ y) : a = b ∧ x = y := by
  have comma : ∀ {a : List Char}, '\n' ∉ a → '\n' ∉ a ++ [','] := by
    intro a ha hmem
    rcases List.mem_append.mp hmem with hmem | hmem
    · exact ha hmem
    · exact absurd hmem (by decide)
  have entry : ∀ a s, a ++ (separator 12 ++ s) =
      (a ++ [',']) ++ '\n' :: ("            ".toList ++ s) := by
    intro a s
    rw [List.append_assoc]
    rfl
  have stop : ∀ s, "\n        \x7d".toList ++ s = '\n' :: ("        \x7d".toList ++ s) :=
    fun _ => rfl
  -- the line that follows begins with a name or with the brace that ends the block
  have apart : ∀ s s', "            ".toList ++ s ≠ "        \x7d".toList ++ s' := by
    intro s s' hline
    exact absurd (congrArg (fun l => l[8]?) hline) (show some ' ' ≠ some '}' by decide)
  cases hx with
  | entry s =>
    cases hy with
    | entry s' =>
      rw [entry, entry] at h
      obtain ⟨hline, hrest⟩ := Template.append_quote_inj (comma ha) (comma hb) h
      exact ⟨List.append_cancel_right hline, by rw [List.append_cancel_left hrest]⟩
    | stop s' =>
      rw [entry, stop] at h
      obtain ⟨-, hrest⟩ := Template.append_quote_inj (comma ha) hb h
      exact absurd hrest (apart _ _)
  | stop s =>
    cases hy with
    | entry s' =>
      rw [entry, stop] at h
      obtain ⟨-, hrest⟩ := Template.append_quote_inj ha (comma hb) h
      exact absurd hrest.symm (apart _ _)
    | stop s' =>
      rw [stop, stop] at h
      obtain ⟨hline, hrest⟩ := Template.append_quote_inj ha hb h
      exact ⟨hline, by rw [List.append_cancel_left hrest]⟩

/-- The entry of a default can be told apart from what follows it. -/
def IsLine (e : String × String) : Prop := ':' ∉ e.1.toList ∧ '\n' ∉ e.2.toList

/-- **The defaults are told apart** from what follows their block. -/
theorem defaults_append_inj {es es' : List (String × String)} (hes : ∀ e ∈ es, IsLine e)
    (hes' : ∀ e ∈ es', IsLine e) (hne : es ≠ []) (hne' : es' ≠ []) {s s' : List Char}
    (h : pairBlock es ++ ("\n        \x7d".toList ++ s) =
      pairBlock es' ++ ("\n        \x7d".toList ++ s')) : es = es' ∧ s = s' := by
  refine join_append_inj (f := entryText) (R := IsLine) ?_ hes hes' hne hne' h
  rintro ⟨n, l⟩ ⟨n', l'⟩ x y ⟨hn, hl⟩ ⟨hn', hl'⟩ hx hy heq
  rw [entryText, entryText, List.append_assoc, List.append_assoc (n'.toList ++ ": ".toList)] at heq
  obtain ⟨rfl, hrest⟩ := name_append_inj hn hn' heq
  obtain ⟨hline, hs⟩ := line_append_inj hl hl' hx hy hrest
  obtain rfl : l = l' := String.toList_inj.mp hline
  exact ⟨rfl, hs⟩

/-! ## Controls -/

/-- The entry of a control can be told apart from what follows it. -/
def IsControl (e : String × Control) : Prop := ':' ∉ e.1.toList ∧ e.2.IsProper

/-- **The controls are told apart** from what follows their block. -/
theorem controls_append_inj {es es' : List (String × Control)} (hes : ∀ e ∈ es, IsControl e)
    (hes' : ∀ e ∈ es', IsControl e) (hne : es ≠ []) (hne' : es' ≠ []) {s s' : List Char}
    (h : pairBlock (es.map fun e => (e.1, e.2.literal)) ++ ("\n        \x7d".toList ++ s) =
      pairBlock (es'.map fun e => (e.1, e.2.literal)) ++ ("\n        \x7d".toList ++ s')) :
    es = es' ∧ s = s' := by
  rw [pairBlock, pairBlock, List.map_map, List.map_map] at h
  refine join_append_inj (R := IsControl) ?_ hes hes' hne hne' h
  rintro ⟨n, c⟩ ⟨n', c'⟩ x y ⟨hn, hc⟩ ⟨hn', hc'⟩ - - heq
  have htext : ∀ (n : String) (c : Control) x, entryText (n, c.literal) ++ x =
      n.toList ++ ": ".toList ++ (c.literalChars ++ x) := by
    intro n c x
    have hliteral : c.literal.toList = c.literalChars := String.toList_ofList
    show n.toList ++ ": ".toList ++ c.literal.toList ++ x = _
    rw [hliteral, List.append_assoc]
  rw [Function.comp_apply, Function.comp_apply, htext, htext] at heq
  obtain ⟨rfl, hrest⟩ := name_append_inj hn hn' heq
  obtain ⟨rfl, hs⟩ := Control.literalChars_append_inj hc hc' hrest
  exact ⟨rfl, hs⟩

/-! ## The parts of a document -/

/-- Headers of documents are told apart from what follows them. -/
theorem headerText_append_inj {d d' : StoryDocument} (hid : Template.IsWord d.storiesId.toList)
    (hid' : Template.IsWord d'.storiesId.toList) {s s' : List Char}
    (h : d.headerText ++ s = d'.headerText ++ s') :
    d.storiesId = d'.storiesId ∧ d.title = d'.title ∧ s = s' := by
  have blank : ∀ {w : List Char}, Template.IsWord w → ' ' ∉ w := fun hw => hw.notMem (by decide)
  have hsplit : ∀ (d : StoryDocument) s, d.headerText ++ s =
      "\x7b% stories ".toList ++ (d.storiesId.toList ++ ' ' :: ("with \x7b title: ".toList ++
        (Quoted.encode d.title.toList ++ (" \x7d %\x7d\n\n    ".toList ++ s)))) := by
    intro d s
    have hwith : " with \x7b title: ".toList = ' ' :: "with \x7b title: ".toList := by decide
    unfold headerText
    rw [toList_quotedLiteral, hwith]
    simp only [List.append_assoc, List.cons_append]
  rw [hsplit, hsplit] at h
  obtain ⟨hstories, hrest⟩ := Template.append_quote_inj (blank hid) (blank hid')
    (List.append_cancel_left h)
  -- both titles are decoded from the same text
  have hread := Quoted.decode_encode d.title.toList (" \x7d %\x7d\n\n    ".toList ++ s)
  rw [List.append_cancel_left hrest, Quoted.decode_encode, Option.some.injEq,
    Prod.mk.injEq] at hread
  exact ⟨String.toList_inj.mp hstories, String.toList_inj.mp hread.1.symm,
    (List.append_cancel_left hread.2).symm⟩

/-- The literals of a component's defaults are lines. -/
theorem Describes.isLine {d : StoryDocument} {id : String} {c : Component} {settings : Settings}
    (h : Describes d id c settings) (hnames : ∀ a ∈ c.arguments, IsPlainName a.name) :
    ∀ e ∈ d.defaults, IsLine e := by
  rw [h.defaults]
  intro e he
  rcases List.mem_cons.mp he with rfl | he
  · refine ⟨(by decide : ':' ∉ "title".toList), ?_⟩
    show '\n' ∉ (quotedLiteral c.name).toList
    rw [toList_quotedLiteral]
    exact Quoted.newline_notMem_encode _
  · obtain ⟨a, ha, rfl⟩ := List.mem_map.mp he
    refine ⟨(hnames a ha).notMem (by decide) (by decide), ?_⟩
    obtain ⟨i, -, rfl⟩ := Component.mem_arguments ha
    show '\n' ∉ (defaultLiteral _ _).toList
    rw [toList_defaultLiteral]
    exact Json.newline_notMem_chars _

/-- The controls of a component's arguments, by name. -/
def controls (c : Component) : List (String × Control) :=
  c.arguments.map fun a => (a.name, a.control)

/-- The controls of a component's arguments can be told apart. -/
theorem isControl_controls {c : Component} (hnames : ∀ a ∈ c.arguments, IsPlainName a.name) :
    ∀ e ∈ controls c, IsControl e := by
  intro e he
  obtain ⟨a, ha, rfl⟩ := List.mem_map.mp he
  refine ⟨(hnames a ha).notMem (by decide) (by decide), ?_⟩
  obtain ⟨i, -, rfl⟩ := Component.mem_arguments ha
  exact Control.isProper_ofDefinition i.2

theorem Describes.argTypes_eq {d : StoryDocument} {id : String} {c : Component}
    {settings : Settings} (h : Describes d id c settings) :
    d.argTypes = (controls c).map fun e => (e.1, e.2.literal) := by
  rw [h.argTypes, Component.controlEntries, controls, List.map_map]
  rfl

/-- The values of documents of the same story are told apart from what follows them. -/
theorem valueText_append_inj {c c' : Component} {id id' : String} {settings : Settings}
    {d d' : StoryDocument} (hd : Describes d id c settings) (hd' : Describes d' id' c' settings)
    (hargs : c.arguments ≠ []) (hargs' : c'.arguments ≠ [])
    (hnames : ∀ a ∈ c.arguments, IsPlainName a.name)
    (hnames' : ∀ a ∈ c'.arguments, IsPlainName a.name) {s s' : List Char}
    (h : d.valueText ++ s = d'.valueText ++ s') :
    d.defaults = d'.defaults ∧ controls c = controls c' ∧ s = s' := by
  have some_default : ∀ {c : Component} {d : StoryDocument} {id : String},
      Describes d id c settings → d.defaults ≠ [] := by
    intro c d id hdesc
    rw [hdesc.defaults]
    exact List.cons_ne_nil _ _
  have some_control : ∀ {c : Component}, c.arguments ≠ [] → controls c ≠ [] := by
    intro c hc hnil
    exact hc (List.map_eq_nil_iff.mp hnil)
  have hsplit : ∀ {c : Component} {d : StoryDocument} {id : String}, Describes d id c settings →
      ∀ s, d.valueText ++ s = "\n        name: '".toList ++ (settings.storyName.toList ++
        ("',\n        args: ".toList ++ ('{' :: ("\n            ".toList ++ (pairBlock d.defaults ++
          ("\n        \x7d".toList ++ (",\n        argTypes: ".toList ++ ('{' ::
            ("\n            ".toList ++ (pairBlock ((controls c).map fun e => (e.1, e.2.literal)) ++
              ("\n        \x7d".toList ++ s))))))))))) := by
    intro c d id hdesc s
    unfold valueText
    rw [hdesc.storyName, hdesc.argTypes_eq]
    simp only [List.append_assoc]
    rw [block_append, block_append]
  rw [hsplit hd, hsplit hd'] at h
  have hdefaults := List.append_cancel_left (List.cons.inj (List.append_cancel_left
    (List.append_cancel_left (List.append_cancel_left h)))).2
  obtain ⟨he, hrest⟩ := defaults_append_inj (hd.isLine hnames) (hd'.isLine hnames')
    (some_default hd) (some_default hd') hdefaults
  have hcontrols := List.append_cancel_left (List.cons.inj (List.append_cancel_left hrest)).2
  obtain ⟨hc, hs⟩ := controls_append_inj (isControl_controls hnames) (isControl_controls hnames')
    (some_control hargs) (some_control hargs') hcontrols
  exact ⟨he, hc, hs⟩

/-! ## Documents -/

theorem Describes.argsOrder_eq {d : StoryDocument} {id : String} {c : Component}
    {settings : Settings} (h : Describes d id c settings) :
    d.argsOrder = (controls c).map Prod.fst := by
  rw [h.argsOrder, controls, List.map_map]
  rfl

/-- What follows the options of documents that pass on the same names tells the components apart. -/
theorem componentId_eq_of_embedText_eq {d d' : StoryDocument} (horder : d.argsOrder = d'.argsOrder)
    (h : d.embedText = d'.embedText) : d.componentId = d'.componentId := by
  have hclosing : d.closingText = d'.closingText := by
    unfold closingText
    rw [horder]
  unfold embedText at h
  rw [hclosing] at h
  have hid : d.componentId.toList = d'.componentId.toList :=
    List.append_cancel_right (List.append_cancel_left h)
  exact String.toList_inj.mp hid

/-- Documents that are made under the same settings are the same if their titles, their identifiers,
their defaults and their controls are. -/
theorem Describes.eq_of_parts {c c' : Component} {id id' : String} {settings : Settings}
    {d d' : StoryDocument} (h : Describes d id c settings) (h' : Describes d' id' c' settings)
    (htitle : d.title = d'.title) (hstories : d.storiesId = d'.storiesId)
    (hcomponent : d.componentId = d'.componentId) (hdefaults : d.defaults = d'.defaults)
    (hcontrols : controls c = controls c') : d = d' := by
  have htypes : d.argTypes = d'.argTypes := by rw [h.argTypes_eq, h'.argTypes_eq, hcontrols]
  have horder : d.argsOrder = d'.argsOrder := by rw [h.argsOrder_eq, h'.argsOrder_eq, hcontrols]
  have hstory : d.storyId = d'.storyId := by rw [h.storyId, h'.storyId]
  have hname : d.storyName = d'.storyName := by rw [h.storyName, h'.storyName]
  have htags : d.tags = d'.tags := by rw [h.tags, h'.tags]
  obtain ⟨title, storiesId, componentId, storyId, storyName, argsOrder, defaults, argTypes, tags⟩ :=
    d
  dsimp only at htitle hstories hcomponent hstory hname horder hdefaults htypes htags
  rw [htitle, hstories, hcomponent, hstory, hname, horder, hdefaults, htypes, htags]

/-- **Rendering is unambiguous**: documents of components with plain names that are made under the
same settings are equal when their texts are, whatever the defaults, the values, the names for
people and the identifiers of the components are. -/
theorem eq_of_render_eq {c c' : Component} {id id' : String} {settings : Settings}
    {d d' : StoryDocument} (hd : assemble? id c c.arguments settings = some d)
    (hd' : assemble? id' c' c'.arguments settings = some d')
    (hmachine : IsPlainName c.machineName) (hmachine' : IsPlainName c'.machineName)
    (hnames : ∀ n ∈ c.inputs.names, IsPlainName n) (hnames' : ∀ n ∈ c'.inputs.names, IsPlainName n)
    (h : d.render = d'.render) : d = d' := by
  obtain ⟨hargs, hdesc⟩ := describes_of_assemble? hd
  obtain ⟨hargs', hdesc'⟩ := describes_of_assemble? hd'
  have hchars : d.chars = d'.chars := String.ofList_injective h
  rw [chars_eq, chars_eq] at hchars
  -- the header, and the opening of the story, which the settings give
  obtain ⟨hstories, htitle, hrest⟩ := headerText_append_inj (hdesc.isWord hmachine)
    (hdesc'.isWord hmachine') hchars
  have hopening : d.storyOpening = d'.storyOpening := by
    unfold storyOpening
    rw [hdesc.storyId, hdesc'.storyId]
  rw [hopening] at hrest
  -- the two blocks
  obtain ⟨hdefaults, hcontrols, hrest⟩ := valueText_append_inj hdesc hdesc' hargs hargs'
    (Component.forall_arguments hnames) (Component.forall_arguments hnames')
    (List.append_cancel_left hrest)
  -- the tags, which the settings give, and the identifier in front of the names
  have htags : d.tagText = d'.tagText := by
    unfold tagText
    rw [hdesc.tags, hdesc'.tags]
  rw [htags] at hrest
  have hembed : d.embedText = d'.embedText :=
    List.append_cancel_left (List.append_cancel_left hrest)
  have horder : d.argsOrder = d'.argsOrder := by
    rw [hdesc.argsOrder_eq, hdesc'.argsOrder_eq, hcontrols]
  exact hdesc.eq_of_parts hdesc' htitle hstories (componentId_eq_of_embedText_eq horder hembed)
    hdefaults hcontrols

/-- A component with one argument, at a path. -/
def placed (path : String) : Component :=
  (Component.bare "p:card" "Card" "my-card" path).withProperty "label"
    ⟨none, none, none, some [.text "a','b", .text "c"], none, false⟩

/-- The documents of a component at two paths have one text, and are one document. -/
theorem eq_of_render_eq_placed :
    ∃ d d', assemble? "p:card" (placed "a") (placed "a").arguments Settings.standard = some d ∧
      assemble? "p:card" (placed "b") (placed "b").arguments Settings.standard = some d' ∧
      d.render = d'.render ∧ d = d' := by
  obtain ⟨d, hd, -⟩ := exists_describes (c := placed "a") rfl "p:card" Settings.standard
  obtain ⟨d', hd', -⟩ := exists_describes (c := placed "b") rfl "p:card" Settings.standard
  have hrender : d.render = d'.render := by
    have hsame : assemble? "p:card" (placed "a") (placed "a").arguments Settings.standard =
        assemble? "p:card" (placed "b") (placed "b").arguments Settings.standard := rfl
    rw [hsame, hd', Option.some.injEq] at hd
    rw [hd]
  exact ⟨d, d', hd, hd', hrender,
    eq_of_render_eq hd hd' (by decide) (by decide) (by decide) (by decide) hrender⟩

end ComponentStories.StoryDocument
