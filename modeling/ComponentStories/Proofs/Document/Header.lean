import ComponentStories.Proofs.Document.Layout

/-
# The header of a document

A document begins with the tag that gives the identifier of its stories and their title, and the
reader takes the first such tag that it finds.  So the title and the identifier are read back from
every document of a component with a plain machine name, whatever the rest of the document says
(`storiesFile?_render_header`).
-/

namespace ComponentStories.StoryDocument

open Text Template

/-- The header of a document is read, whatever follows it. -/
theorem header?_chars {d : StoryDocument} (hid : IsWord d.storiesId.toList) :
    header? d.chars = some (d.storiesId.toList, d.title.toList) := by
  have h := header?_append hid d.title.toList (" \x7d %\x7d\n\n    ".toList ++ (d.storyOpening ++
    (d.valueText ++ (d.tagText ++ ("\x7d %\x7d".toList ++ d.embedText)))))
  rw [chars_eq]
  unfold headerText
  rw [toList_quotedLiteral]
  simp only [List.append_assoc] at h ⊢
  exact h

/-- The stories file of a document has the title and the identifier of the document, and its
stories are those of the text. -/
theorem storiesFile?_render {d : StoryDocument} (hid : IsWord d.storiesId.toList) (url : String) :
    storiesFile? d.render url = some
      { title := d.title
        server := ⟨if url = "" then none else some url, d.storiesId⟩
        stories := (stories 0 d.chars).map (storyEntry d.storiesId.toList) } := by
  have htext : d.render.toList = d.chars := String.toList_ofList
  rw [storiesFile?, htext, header?_chars hid, Option.map_some]
  dsimp only
  rw [String.ofList_toList, String.ofList_toList]

/-- **The header survives any content**: every component with inputs and a plain machine name has
a document, and the document has a stories file, whatever the texts of the component and of the
settings are.  The title in the file is that of the document: the group without the slashes at
its end, a slash, and the name.  The identifier in it is the machine name with each hyphen
replaced by an underscore. -/
theorem storiesFile?_render_header {c : Component} (hinputs : c.hasNoInputs = false)
    (hmachine : IsPlainName c.machineName) (id : String) (settings : Settings) (url : String) :
    ∃ d f, assemble? id c c.arguments settings = some d ∧ storiesFile? d.render url = some f ∧
      f.title = d.title ∧
      f.title = String.ofList (settings.group.toList.rdropWhile (· = '/')) ++ "/" ++ c.name ∧
      f.server.id = c.machineName.map fun ch => if ch = '-' then '_' else ch := by
  obtain ⟨d, hd, hdesc⟩ := exists_describes hinputs id settings
  refine ⟨d, _, hd, storiesFile?_render (hdesc.isWord hmachine) url, ?_, ?_, ?_⟩
  · rfl
  · exact hdesc.title.trans (titleOf_eq settings.group c.name)
  · exact hdesc.storiesId.trans (storiesIdOf_eq c.machineName)

/-- A component whose name, argument and default hold quotes, line breaks and tags. -/
def thorny : Component :=
  (Component.bare "p:my-card" "\"\n\\ \x7b% stories x with \x7b title: 'y' \x7d %\x7d" "my-card"
    "p/my-card").withProperty "a'b" ⟨none, none, none, none, some (.text "%\x7d"), false⟩

/-- Settings with slashes at the end of the group, and with a quote and a tag in the other texts. -/
def thornySettings : Settings := ⟨"A/'B'//", "\n%\x7d", "'", ["\x7b% stories z with"]⟩

/-- Its header is read. -/
theorem storiesFile?_render_header_thorny :
    ∃ d f, assemble? "\x7b%" thorny thorny.arguments thornySettings = some d ∧
      storiesFile? d.render "" = some f ∧ f.title = d.title ∧
      f.title = "A/'B'/\"\n\\ \x7b% stories x with \x7b title: 'y' \x7d %\x7d" ∧
      f.server.id = "my_card" := by
  obtain ⟨d, f, hd, hf, htitle, hname, hid⟩ :=
    storiesFile?_render_header (c := thorny) rfl (by decide) "\x7b%" thornySettings ""
  refine ⟨d, f, hd, hf, htitle, hname.trans ?_, hid.trans ?_⟩
  · decide
  · rw [← String.toList_inj, String.toList_map]
    decide

end ComponentStories.StoryDocument
