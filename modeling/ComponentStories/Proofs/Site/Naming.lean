import ComponentStories.Proofs.Component.Places
import ComponentStories.Proofs.FileSystem.Parts
import ComponentStories.Site

/-
# Names on the way from a definition to a stories file

A definition has the name of its component and a suffix in letters of any case.  The template of the
component is named for it, and so is the stories file of the template.  Every name that is looked at
as a definition has such a stem (`exists_machineName?_eq`), the names made from it are looked at
where they come next, and different stems make different names (`exists_stem_of_isComponent`).
-/

namespace ComponentStories

open ComponentStories.Path

namespace FileName

variable {m m' name path : String}

/-! ## Stems -/

/-- The name of a component: at least one character, and only those that may stand in a stem. -/
structure IsStem (m : String) : Prop where
  /-- It is not nothing. -/
  ne_empty : m ≠ ""
  /-- Its characters may stand in a stem. -/
  chars : m.toList.all isStemChar = true

theorem IsStem.notMem (h : IsStem m) {c : Char} (hc : isStemChar c = false) : c ∉ m.toList := by
  intro hmem
  have hstem := List.all_eq_true.mp h.chars c hmem
  rw [hc] at hstem
  exact Bool.false_ne_true hstem

/-- A stem with a suffix is the last part of a path that it is joined to. -/
theorem IsStem.parts_join_append (h : IsStem m) {suffix : String} (hslash : '/' ∉ suffix.toList)
    (hlong : 2 ≤ suffix.length) (path : String) :
    parts (join path (m ++ suffix)) = parts path ++ [.name (m ++ suffix)] := by
  have hlength : 2 < (m ++ suffix).length := by
    have hpos : 0 < m.length := Nat.pos_of_ne_zero (mt String.length_eq_zero_iff.mp h.ne_empty)
    rw [String.length_append]
    omega
  have hnone : '/' ∉ (m ++ suffix).toList := by
    rw [String.toList_append, List.mem_append, not_or]
    exact ⟨h.notMem (by decide), hslash⟩
  obtain ⟨hpiece, hstay, hup⟩ := isPiece_of_length hlength hnone
  exact parts_join path hpiece hstay hup

/-- **Every name that is looked at as a definition has a stem**, and the suffix is behind
it in letters of any case. -/
theorem exists_machineName?_eq (hname : fileName? path = some name)
    (hform : isComponent name = true) :
    ∃ m suffix, machineName? path = some m ∧ IsStem m ∧ name = m ++ suffix ∧
      suffix.toList.map Char.toLower = componentSuffix := by
  obtain ⟨m, hm, hchars⟩ := exists_hasStem_of_isComponent hform
  have hmachine := machineName?_eq_some_iff.mpr ⟨name, hname, hm⟩
  obtain ⟨suffix, hsplit, hne, hlower⟩ := hm
  exact ⟨m, suffix, hmachine, ⟨hne, hchars⟩, hsplit, hlower⟩

/-! ## Files of a component -/

theorem IsStem.parts_templatePath {c : Component} (h : IsStem c.machineName) :
    parts c.templatePath = parts c.path ++ [.name (FileName.template c.machineName)] :=
  h.parts_join_append (by decide) (by decide) c.path

theorem endsAsTemplate_templatePath (c : Component) : endsAsTemplate c.templatePath = true := by
  have htemplate := endsAsTemplate_template c.machineName
  rw [endsAsTemplate, List.isSuffixOf_iff_suffix] at htemplate ⊢
  exact htemplate.trans (toList_end_join c.path _)

/-- The stories file of the template of a component stands in the directory of the stories files. -/
theorem IsStem.storiesPath_templatePath {c : Component} (h : IsStem c.machineName) (site : Site) :
    site.storiesPath c.templatePath =
      join site.storiesDir (c.machineName ++ ".stories.json") := by
  have hfile : fileName? c.templatePath = some (FileName.template c.machineName) := by
    rw [fileName?, h.parts_templatePath, List.getLast?_concat]
    rfl
  rw [Site.storiesPath, hfile, Option.getD_some, storiesFile_template]

end FileName

open FileName

/-- A file whose name tells a component is not passed over for its name. -/
theorem FileSystem.loadComponent_ne_invalidFileName {path m : String}
    (h : machineName? path = some m)
    (fs : FileSystem) (provider other : String) :
    fs.loadComponent path provider ≠ .error (.invalidFileName other) := by
  rw [loadComponent, h]
  dsimp only
  split
  · simp
  · split <;> simp

/-- Only what does not end as a template is refused for its name. -/
theorem Site.templateFault?_ne_invalidTemplatePath {path : String} (h : endsAsTemplate path = true)
    (site : Site) (fs : FileSystem) (other : String) :
    site.templateFault? fs path ≠ some (.invalidTemplatePath other) := by
  rw [templateFault?, h, Bool.not_true, if_neg Bool.false_ne_true]
  split <;> simp

/-- **The names on the way from a definition to a stories file agree.**  Let a file be looked at as
a definition, whatever the case of the letters of its suffix.  Its name tells a component, by a stem
that is not empty and has neither a dot nor a slash, so it is never passed over for its name.  The
template of every component with this name is looked at as a template and is not refused for its
name, and its stories file stands right in the directory of the stories files, under the stem.
Another stem makes another name of a template and another name of a stories file. -/
theorem exists_stem_of_isComponent {path name : String} (hname : fileName? path = some name)
    (hform : isComponent name = true) :
    ∃ m suffix, machineName? path = some m ∧ name = m ++ suffix ∧
      suffix.toList.map Char.toLower = componentSuffix ∧ m ≠ "" ∧ '.' ∉ m.toList ∧ '/' ∉ m.toList ∧
      (∀ fs provider other,
        FileSystem.loadComponent fs path provider ≠ .error (.invalidFileName other)) ∧
      isTemplate (m ++ ".stories.twig") = true ∧
      (∀ c : Component, c.machineName = m →
        fileName? c.templatePath = some (m ++ ".stories.twig") ∧
          endsAsTemplate c.templatePath = true ∧
        ∀ site : Site,
          (∀ fs other, site.templateFault? fs c.templatePath ≠ some (.invalidTemplatePath other)) ∧
          site.storiesPath c.templatePath = join site.storiesDir (m ++ ".stories.json") ∧
          parts (site.storiesPath c.templatePath) =
            parts site.storiesDir ++ [.name (m ++ ".stories.json")]) ∧
      ∀ m', m' ≠ m → template m' ≠ template m ∧
        storiesFile (template m') ≠ storiesFile (template m) := by
  obtain ⟨m, suffix, hmachine, hstem, hsplit, hlower⟩ := exists_machineName?_eq hname hform
  refine ⟨m, suffix, hmachine, hsplit, hlower, hstem.ne_empty, hstem.notMem (by decide),
    hstem.notMem (by decide), FileSystem.loadComponent_ne_invalidFileName hmachine,
    isTemplate_template hstem.ne_empty hstem.chars, ?_, ?_⟩
  · rintro c rfl
    have hends := endsAsTemplate_templatePath c
    refine ⟨?_, hends, fun site => ⟨site.templateFault?_ne_invalidTemplatePath hends,
      hstem.storiesPath_templatePath site, ?_⟩⟩
    · rw [fileName?, hstem.parts_templatePath, List.getLast?_concat]
      rfl
    · rw [hstem.storiesPath_templatePath]
      exact hstem.parts_join_append (by decide) (by decide) site.storiesDir
  · intro m' hne
    refine ⟨fun heq => hne (template_injective heq), fun heq => hne ?_⟩
    rw [storiesFile_template, storiesFile_template, ← String.toList_inj, String.toList_append,
      String.toList_append, List.append_left_inj] at heq
    exact String.toList_inj.mp heq

/-- A name in mixed case whose stem has a long s and a Kelvin sign. -/
theorem exists_stem_of_isComponent_folded :
    fileName? "ui/./card/ſ\u212A-Big_1.Component.YML" = some "ſ\u212A-Big_1.Component.YML" ∧
    isComponent "ſ\u212A-Big_1.Component.YML" = true ∧
    ∀ c : Component, c.machineName = "ſ\u212A-Big_1" →
      fileName? c.templatePath = some "ſ\u212A-Big_1.stories.twig" ∧
      (Site.mk "web" "out/").storiesPath c.templatePath = "out/ſ\u212A-Big_1.stories.json" := by
  have hname : fileName? "ui/./card/ſ\u212A-Big_1.Component.YML" =
      some "ſ\u212A-Big_1.Component.YML" := by decide +kernel
  have hform : isComponent "ſ\u212A-Big_1.Component.YML" = true := by decide +kernel
  obtain ⟨m, -, hmachine, -, -, -, -, -, -, -, hfiles, -⟩ := exists_stem_of_isComponent hname hform
  have hstem : machineName? "ui/./card/ſ\u212A-Big_1.Component.YML" = some "ſ\u212A-Big_1" := by
    decide +kernel
  obtain rfl : m = "ſ\u212A-Big_1" := Option.some.inj (hmachine.symm.trans hstem)
  refine ⟨hname, hform, fun c hc => ⟨(hfiles c hc).1, ?_⟩⟩
  rw [((hfiles c hc).2.2 ⟨"web", "out/"⟩).2.1]
  decide +kernel

end ComponentStories
