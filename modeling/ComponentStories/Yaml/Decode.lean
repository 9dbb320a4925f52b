import ComponentStories.Yaml.Node
import ComponentStories.Yaml.Plain

/-
# Reading nodes as values

A node is read as a text, an optional value, a list, a mapping or any value.  References are
followed, at most a hundred times the size of the document, and collections are entered at most
`maxDepth` deep, so every reading ends.  Parts of a mapping that nobody asks for are not looked
into.
-/

namespace ComponentStories.Yaml

/-! ## Following references -/

/-- A reading of nodes; the state is the number of references that may still be followed. -/
abbrev Decode (α : Type) := StateT Nat Option α

/-- How many collections may be entered one inside the other. -/
def maxDepth : Nat := 128

/-- How many references may be followed for each unit of a document's size. -/
def followsPerUnit : Nat := 100

namespace Decode

/-- The node itself, or the node that a reference stands for. -/
def target (d : Document) : Node → Decode Node
  | .reference slot => fun left =>
    match left, d.nodeAt? slot with
    | left + 1, some n => some (n, left)
    | _, _ => none
  | n => pure n

/-- The text of a scalar, whatever its tag. -/
def text (d : Document) (n : Node) : Decode String := do
  match ← target d n with
  | .scalar _ _ s => pure (String.ofList s)
  | _ => failure

/-- What `read` gives, unless the node is a plain scalar that stands for null. -/
def optional {α : Type} (d : Document) (read : Node → Decode α) (n : Node) : Decode (Option α) := do
  let n ← target d n
  match n with
  | .scalar (some .null) true s => if Plain.isNull s then pure none else failure
  | .scalar none true s =>
    if s.isEmpty || Plain.isNull s then pure none
    else do
      let x ← read n
      pure (some x)
  | _ => do
    let x ← read n
    pure (some x)

/-- Whether the node is a plain scalar without characters. -/
def isBlankScalar : Node → Bool
  | .scalar _ true [] => true
  | _ => false

/-- What `read` gives for each item of a sequence.  A blank scalar is a sequence without items. -/
def list {α : Type} (d : Document) (read : Nat → Node → Decode α) (depth : Nat) (n : Node) :
    Decode (List α) := do
  let n ← target d n
  match n, depth with
  | .sequence _ items, depth + 1 => items.mapM (read depth)
  | _, _ => if isBlankScalar n then pure [] else failure

/-- The texts of the keys and what `read` gives for the values.  A blank scalar is
a mapping without entries. -/
def mapping {α : Type} (d : Document) (read : Nat → Node → Decode α) (depth : Nat) (n : Node) :
    Decode (List (String × α)) := do
  let n ← target d n
  match n, depth with
  | .mapping _ entries, depth + 1 =>
    entries.mapM fun e => do
      let k ← text d e.1
      let v ← read depth e.2
      pure (k, v)
  | _, _ => if isBlankScalar n then pure [] else failure

/-- The values of the known keys, none of which is given twice, and the depth to read them at. -/
def fields (d : Document) (known : List String) (depth : Nat) (n : Node) :
    Decode (Nat × List (String × Node)) := do
  let n ← target d n
  match n, depth with
  | .mapping _ entries, depth + 1 => do
    let found ← entries.foldlM (fun (found : List (String × Node)) e => do
      let k ← text d e.1
      if !known.contains k then pure found
      else if (found.lookup k).isSome then failure
      else pure ((k, e.2) :: found)) []
    pure (depth, found)
  | _, _ => if isBlankScalar n then pure (depth, []) else failure

/-- What `read` gives for the value of a key that may be missing or null. -/
def fieldOf {α : Type} (d : Document) (found : List (String × Node)) (name : String)
    (read : Node → Decode α) : Decode (Option α) :=
  match found.lookup name with
  | some n => optional d read n
  | none => pure none

/-! ## Any value -/

/-- The value of a scalar with a tag. -/
def tagged? : Tag → Bool → List Char → Option Json
  | .bool, _, s => (Plain.bool? s).map .bool
  | .int, _, s =>
    match Plain.integer s with
    | .fits n => some (.number n)
    | _ => none
  | .float, _, s => (Plain.fraction s).value?
  | .null, _, s => if Plain.isNull s then some .null else none
  | .named, _, _ => none
  | .unreadable, true, s => Plain.value? s
  | .unreadable, false, s => some (.text (String.ofList s))
  | .other, _, s => some (.text (String.ofList s))

/-- The value of a scalar. -/
def scalar? : Option Tag → Bool → List Char → Option Json
  | some t, plain, s => tagged? t plain s
  | none, true, s => Plain.value? s
  | none, false, s => some (.text (String.ofList s))

/-- Any value.  A tag of the document's own is an error. -/
def value (d : Document) : Nat → Node → Decode Json
  | depth, n => do
    match ← target d n with
    | .scalar tag plain s =>
      match scalar? tag plain s with
      | some v => pure v
      | none => failure
    | .sequence tag items =>
      match tag with
      | some .named => failure
      | _ =>
        match depth with
        | depth + 1 => do
          let vs ← items.mapM (value d depth)
          pure (.array vs)
        | 0 => failure
    | .mapping tag entries =>
      match tag with
      | some .named => failure
      | _ =>
        match depth with
        | depth + 1 => do
          let es ← entries.mapM fun e => do
            let k ← text d e.1
            let v ← value d depth e.2
            pure (k, v)
          pure (.ofFields es)
        | 0 => failure
    | .reference _ => failure

end Decode

/-- What `read` gives for the root of the only document of a source text, at full depth; `absent`
when the text holds no document. -/
def readDocument? {α : Type} (absent : α) (read : Document → Nat → Node → Decode α)
    (s : List Char) : Option α :=
  match document? s with
  | none => none
  | some none => some absent
  | some (some d) =>
    ((read d maxDepth d.root).run (followsPerUnit * d.size)).map Prod.fst

end ComponentStories.Yaml
