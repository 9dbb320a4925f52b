import ComponentStories.Proofs.Component.Frame

/-
# The configuration behind the commands for components

A template that is written is no configuration: it begins with a brace, and no line of a
configuration does (`ofText?_render`).  So a program that finds a configuration behind such a
command at a path where there was one before finds the same one (`OnlyTemplates.config_unique`).
-/

namespace ComponentStories

open ComponentStories.Path FileSystem

variable {fs g : FileSystem} {c c' : Config} {settings : Settings} {force : Bool} {r : Registry}
  {path s : String}

/-! ## Templates and configurations -/

/-- A text that begins with a brace is no configuration document. -/
theorem Toml.document?_brace (s : List Char) : document? ('{' :: s) = none := by
  have hkey : key? ('{' :: s) = none := rfl
  rw [document?, skipMark, Reading.lines?]
  · simp [skipGaps, isGap, Reading.pair?, pair?, hkey, lineBreak?]
  · simp

theorem StoryDocument.exists_chars_eq_cons (d : StoryDocument) : ∃ s, d.chars = '{' :: s := by
  have hopen : "\x7b% stories ".toList = '{' :: "% stories ".toList := by decide
  have hheader : ∀ s, ∃ t, d.headerText ++ s = '{' :: t := by
    intro s
    unfold headerText
    rw [hopen, List.cons_append, List.cons_append]
    exact ⟨_, rfl⟩
  obtain ⟨t, ht⟩ := hheader _
  exact ⟨t, d.chars_eq.trans ht⟩

theorem Config.ofText?_render (d : StoryDocument) : ofText? d.render = none := by
  obtain ⟨s, hs⟩ := d.exists_chars_eq_cons
  rw [ofText?, StoryDocument.render, String.toList_ofList, hs, Toml.document?_brace,
    Option.bind_none]

/-- A configuration is loaded that stands in the file, or the standard one if there is no file. -/
theorem Config.load_eq_ok_iff : load fs path = .ok c ↔
    fs.holds path = false ∧ c = standard ∨ ∃ s, fs.readText path = .ok s ∧ ofText? s = some c := by
  rw [load]
  by_cases hholds : fs.holds path = true
  · rw [if_pos hholds]
    cases hread : fs.readText path with
    | error e => simp [hholds]
    | ok s => cases hs : ofText? s <;> simp [hholds, hs]
  · rw [if_neg hholds]
    have hread : ∀ s, fs.readText path ≠ .ok s := fun s hs => hholds (holds_of_readText hs)
    simp [hholds, hread, eq_comm]

/-! ## Files behind the commands -/

namespace OnlyTemplates

/-- A path stands for something behind the commands if it did before. -/
theorem holds (htree : fs.IsTree) (h : OnlyTemplates fs settings force r g)
    (hholds : fs.holds path = true) : g.holds path = true := by
  obtain ⟨l, hlocate, hl⟩ := holds_iff.mp hholds
  have hsome : g.entryAt? l ≠ none := fun hnone => hl (h.eq_none hnone)
  have hlocate' := htree.locate_of_directory h.tree h.working
    (fun _ hd => h.directory_iff.mpr hd) hsome hlocate
  exact holds_iff.mpr ⟨l, hlocate', hsome⟩

/-- A text that is read behind the commands was read before, or it is that of a document. -/
theorem readText (htree : fs.IsTree) (h : OnlyTemplates fs settings force r g)
    (hread : g.readText path = .ok s) :
    fs.readText path = .ok s ∨ ∃ d : StoryDocument, s = d.render := by
  obtain ⟨time, hitem⟩ := readText_eq_ok_iff.mp hread
  obtain ⟨l, hlocate, hl⟩ := item_eq_ok_iff.mp hitem
  have hentry : g.entryAt? l = some (.file (.text s)) := entryAt?_eq_some_iff.mpr ⟨time, hl⟩
  rcases h.item l with hsame | ⟨x, dir, text, hmay, htext, rfl | ⟨rfl, hdir, -⟩⟩
  · left
    rw [hl] at hsame
    have hsome : fs.entryAt? l ≠ none := by simp [entryAt?, ← hsame]
    have hlocate' := h.tree.locate_of_directory htree h.working.symm
      (fun _ hd => h.directory_iff.mp hd) hsome hlocate
    exact readText_eq_ok_iff.mpr ⟨time, item_eq_ok_iff.mpr ⟨l, hlocate', hsame.symm⟩⟩
  · right
    obtain ⟨d, -, rfl⟩ := hmay.document
    rw [htext] at hentry
    simp only [Option.some.injEq, Entry.file.injEq, Content.text.injEq] at hentry
    exact ⟨d, hentry.symm⟩
  · exact absurd (hdir.symm.trans hentry) (by simp)

/-- **The configuration is the same behind the commands**, if there is one at all. -/
theorem config_unique (htree : fs.IsTree) (h : OnlyTemplates fs settings force r g)
    (hload : Config.load fs path = .ok c) (hload' : Config.load g path = .ok c') : c' = c := by
  rcases Config.load_eq_ok_iff.mp hload' with ⟨hmissing', rfl⟩ | ⟨s', hread', hs'⟩
  · rcases Config.load_eq_ok_iff.mp hload with ⟨-, rfl⟩ | ⟨s, hread, -⟩
    · rfl
    · -- there was a file, so there is one
      have hholds := h.holds htree (holds_of_readText hread)
      exact absurd (hmissing'.symm.trans hholds) Bool.false_ne_true
  · -- what is read is no document, so it was there before
    have hbefore : fs.readText path = .ok s' := by
      rcases h.readText htree hread' with hread | ⟨d, rfl⟩
      · exact hread
      · rw [Config.ofText?_render] at hs'
        exact absurd hs' (by simp)
    have hsame := hload.symm.trans (Config.load_eq_ok_iff.mpr (Or.inr ⟨s', hbefore, hs'⟩))
    exact (Except.ok.inj hsame).symm

end OnlyTemplates

end ComponentStories
