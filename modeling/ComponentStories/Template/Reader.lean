import ComponentStories.Json.Reader
import ComponentStories.StoriesFile
import ComponentStories.Template.Options
import ComponentStories.Text.Blank

/-
# Reading story templates

A story template begins with the tag `stories`, which gives the identifier and the title of the
group, and holds a tag `story` for each story, whose options may give a name and tags.  The rest of
the template does not matter here.  A template without a complete `stories` tag has no stories file.
-/

namespace ComponentStories.Template

open ComponentStories.Text

/-! ## Tags -/

/-- The text without the blanks at its front. -/
def skipBlanks (s : List Char) : List Char := s.dropWhile isBlank

/-- The text without the blanks at its front, of which there is at least one. -/
def skipSomeBlanks? : List Char → Option (List Char)
  | [] => none
  | c :: s => if isBlank c then some (skipBlanks s) else none

/-- The word at the front and what follows it; the word is not empty. -/
def word? (s : List Char) : Option (List Char × List Char) :=
  match s.takeWhile isWord with
  | [] => none
  | w => some (w, s.dropWhile isWord)

/-- The tag `keyword` at the front, up to the brace that opens its options: the identifier,
and what follows the brace. -/
def openTag? (keyword : List Char) (s : List Char) : Option (List Char × List Char) := do
  let s ← dropLead? ['{', '%'] s
  let s := (dropLead? ['-'] s).getD s
  let s ← dropLead? keyword (skipBlanks s)
  let s ← skipSomeBlanks? s
  let (id, s) ← word? s
  let s ← skipSomeBlanks? s
  let s ← dropLead? "with".toList s
  let s ← dropLead? ['{'] (skipBlanks s)
  pure (id, s)

/-- The characters up to a quote and what follows the quote. -/
def untilQuote? (quote : Char) : List Char → Option (List Char × List Char)
  | [] => none
  | c :: s =>
    if c = quote then some ([], s) else (untilQuote? quote s).map fun x => (c :: x.1, x.2)

/-- A text between quotes of one kind at the front, without escapes. -/
def quotedBy? (quote : Char) : List Char → Option (List Char)
  | [] => none
  | c :: s => if c = quote then (untilQuote? quote s).map Prod.fst else none

/-! ## The header -/

/-- The characters of a quoted title behind its opening quote, the closing quote included.  A
backslash takes the next character with it, but no line feed. -/
def titleRest? : List Char → Option (List Char)
  | [] => none
  | '"' :: _ => some ['"']
  | ['\\'] => none
  | '\\' :: c :: s => if c = '\n' then none else (titleRest? s).map fun t => '\\' :: c :: t
  | c :: s => (titleRest? s).map (c :: ·)

/-- The title that a text in double quotes writes: what it decodes to or, if it does not, what
stands between its quotes. -/
def decodeTitle (quoted : List Char) : List Char :=
  match Quoted.decode quoted with
  | some (title, []) => title
  | _ => trimWhile (· == '"') quoted

/-- The title at the front, in double or single quotes. -/
def title? : List Char → Option (List Char)
  | '"' :: s => (titleRest? s).map fun t => decodeTitle ('"' :: t)
  | '\'' :: s => (untilQuote? '\'' s).map Prod.fst
  | _ => none

/-- The header at the front: the identifier and the title. -/
def headerHere? (s : List Char) : Option (List Char × List Char) := do
  let (id, s) ← openTag? "stories".toList s
  let s ← dropLead? "title:".toList (skipBlanks s)
  let title ← title? (skipBlanks s)
  pure (id, title)

/-- The first header. -/
def header? : List Char → Option (List Char × List Char)
  | [] => none
  | c :: s => (headerHere? (c :: s)).or (header? s)

/-! ## The stories -/

/-- The characters in front of the end of a tag; all of them if it has none. -/
def untilTagEnd : List Char → List Char
  | '%' :: '}' :: _ => []
  | c :: s => c :: untilTagEnd s
  | [] => []

/-- The stories: identifiers and the text of their tags behind the opening brace.  A tag is not
looked for inside another one's opening; `skip` counts the characters of it that are still ahead. -/
def stories : Nat → List Char → List (List Char × List Char)
  | _, [] => []
  | skip + 1, _ :: s => stories skip s
  | 0, c :: s =>
    match openTag? "story".toList (c :: s) with
    | some (id, r) => (id, untilTagEnd r) :: stories (s.length - r.length) s
    | none => stories 0 s

/-- Whether a key may begin behind the character. -/
def isKeyBoundary (c : Char) : Bool := isBlank c || c == ',' || c == '{'

/-- What `read` gives behind the first key of a name that begins behind a boundary. -/
def findKey {α : Type} (key : List Char) (read : List Char → Option α) :
    List Char → Option α
  | [] => none
  | c :: s =>
    if isKeyBoundary c then
      (((dropLead? key s).map skipBlanks).bind read).or (findKey key read s)
    else findKey key read s

/-- What `read` gives behind the first key of a name, at the start or behind a boundary. -/
def optionValue {α : Type} (key : List Char) (read : List Char → Option α) (s : List Char) :
    Option α :=
  (((dropLead? key s).map skipBlanks).bind read).or (findKey key read s)

/-- The name that the options give. -/
def nameOption (options : List Char) : Option (List Char) :=
  optionValue "name:".toList (fun s => (quotedBy? '\'' s).or (quotedBy? '"' s)) options

/-- Whether the character is a quote. -/
def isQuote (c : Char) : Bool := c == '\'' || c == '"'

/-- The tags of a list between brackets. -/
def tagsOf (list : List Char) : List (List Char) :=
  ((splitAt ',' list).map fun t => trimWhile isQuote (trim t)).filter fun t => !t.isEmpty

/-- The list of tags that the options give, between brackets. -/
def tagsOption (options : List Char) : Option (List (List Char)) :=
  optionValue "tags:".toList (fun s =>
    match s with
    | '[' :: s => (untilQuote? ']' s).map fun x => tagsOf x.1
    | _ => none) options

/-- The story of a tag. -/
def storyEntry (storiesId : List Char) (tag : List Char × List Char) : StoryEntry :=
  let options := topLevel tag.2
  { name := String.ofList ((nameOption options).getD tag.1)
    tags := ((tagsOption options).getD []).map String.ofList
    server := ⟨none, String.ofList (storiesId ++ '/' :: tag.1)⟩ }

/-- The stories file of a template; none without a header.  An empty server address is none. -/
def storiesFile? (source serverUrl : String) : Option StoriesFile :=
  (header? source.toList).map fun (id, title) =>
    { title := String.ofList title
      server := ⟨if serverUrl = "" then none else some serverUrl, String.ofList id⟩
      stories := (stories 0 source.toList).map (storyEntry id) }

end ComponentStories.Template
