import ComponentStories.Path

/-
# File names

A component is defined in a file `NAME.component.yml`, its story template is `NAME.stories.twig`,
and the stories file of that is `NAME.stories.json`.  The case of the letters of a suffix does not
matter when files are looked for.
-/

namespace ComponentStories.FileName

/-! ## Suffixes -/

/-- The suffix of the files that define components. -/
def componentSuffix : List Char := ".component.yml".toList

/-- The suffix of story templates. -/
def templateSuffix : List Char := ".stories.twig".toList

/-- What stands in front of the last `n` characters of a text, and these; none if the text has no
character in front of them. -/
def splitEnd? (n : Nat) (s : List Char) : Option (List Char × List Char) :=
  if n < s.length then some (s.take (s.length - n), s.drop (s.length - n)) else none

/-- The two parts of a text that is split make it up again, and the second
has the length asked for. -/
theorem splitEnd?_eq_some {n : Nat} {s a b : List Char} (h : splitEnd? n s = some (a, b)) :
    a ++ b = s ∧ b.length = n ∧ a ≠ [] := by
  simp only [splitEnd?] at h
  split at h
  · rename_i hn
    simp only [Option.some.injEq, Prod.mk.injEq] at h
    obtain ⟨rfl, rfl⟩ := h
    refine ⟨List.take_append_drop _ _, ?_, ?_⟩
    · simp only [List.length_drop]; omega
    · intro h0
      have := congrArg List.length h0
      simp only [List.length_take, List.length_nil] at this
      omega
  · cases h

/-- The name of the component that a path defines: the name of its file in front of the suffix,
whose ASCII letters may have either case. -/
def machineName? (path : String) : Option String := do
  let name ← Path.fileName? path
  let (stem, suffix) ← splitEnd? componentSuffix.length name.toList
  if suffix.map Char.toLower = componentSuffix then some (String.ofList stem) else none

/-! ## The names of files that are looked for -/

/-- Whether two characters are the same apart from their case; the first one is in lower case.  The
long s and the Kelvin sign are letters `s` and `k`. -/
def matchesLower (a c : Char) : Bool :=
  c.toLower == a || (a == 's' && c == 'ſ') || (a == 'k' && c == '\u212A')

/-- Whether a character may stand in the stem of a file that is looked for. -/
def isStemChar (c : Char) : Bool := Text.isWord c || c == '-' || c == 'ſ' || c == '\u212A'

/-- Whether two texts are the same apart from their case; the first one is in lower case. -/
def matchesAllLower : List Char → List Char → Bool
  | [], [] => true
  | a :: as, c :: cs => matchesLower a c && matchesAllLower as cs
  | _, _ => false

/-- Whether a name is a stem and a suffix. -/
def hasForm (suffix : List Char) (name : String) : Bool :=
  match splitEnd? suffix.length name.toList with
  | some (stem, rest) => stem.all isStemChar && matchesAllLower suffix rest
  | none => false

/-- Whether a file is looked at as the definition of a component. -/
def isComponent (name : String) : Bool := hasForm componentSuffix name

/-- Whether a file is looked at as a story template. -/
def isTemplate (name : String) : Bool := hasForm templateSuffix name

/-! ## The names of files that are written -/

/-- The name of the story template of a component. -/
def template (machineName : String) : String := machineName ++ String.ofList templateSuffix

/-- Whether a path ends in the suffix of story templates. -/
def endsAsTemplate (path : String) : Bool := templateSuffix.isSuffixOf path.toList

/-- The name with `twig` at its end taken off. -/
def withoutTwig (name : List Char) : List Char :=
  if "twig".toList.isSuffixOf name then name.take (name.length - 4) else name

/-- The name of the stories file of the template with a name. -/
def storiesFile (name : String) : String :=
  String.ofList (withoutTwig name.toList ++ "json".toList)

end ComponentStories.FileName
