import ComponentStories.Yaml.Token

/-
# Nodes

The tokens of a document make a tree of scalars, sequences, mappings and references.  A node that
is given a name takes a *slot*; a reference holds the slot of its name, and `Document.slots` tells
which node took it.  The number of a slot is the number of distinct names seen before.  So a name
that is given again takes a new slot, and the next new name takes the same slot after it.
-/

namespace ComponentStories.Yaml

/-! ## The tree -/

/-- What a node's tag says about its value. -/
inductive Tag
  /-- The value is null. -/
  | null
  /-- The value is a truth value. -/
  | bool
  /-- The value is an integer. -/
  | int
  /-- The value is a number with a fraction. -/
  | float
  /-- A tag of the document's own, with a readable name. -/
  | named
  /-- A tag of the document's own whose name is no text. -/
  | unreadable
  /-- Any other tag. -/
  | other
  deriving DecidableEq

/-- The start of the tags that every document knows. -/
def commonTags : String := "tag:yaml.org,2002:"

/-- What the bytes of a tag say.  A tag ends at its first zero byte. -/
def Tag.ofBytes (bytes : List UInt8) : Tag :=
  let bytes := bytes.takeWhile (· ≠ 0)
  let is := fun name : String => bytes == (commonTags ++ name).toUTF8.toList
  if is "null" then .null
  else if is "bool" then .bool
  else if is "int" then .int
  else if is "float" then .float
  else
    match bytes with
    | b :: r =>
      if b = '!'.toNat.toUInt8 then
        if (ByteArray.mk r.toArray).validateUTF8 then .named else .unreadable
      else .other
    | [] => .other

/-- A node of a document. -/
inductive Node
  /-- A scalar: its tag, whether it is plain, and its text. -/
  | scalar (tag : Option Tag) (plain : Bool) (text : List Char)
  /-- A sequence. -/
  | sequence (tag : Option Tag) (items : List Node)
  /-- A mapping, in order. -/
  | mapping (tag : Option Tag) (entries : List (Node × Node))
  /-- A reference to the node of a slot. -/
  | reference (slot : Nat)

/-- The node that stands where nothing is written. -/
def Node.nothing : Node := .scalar none true []

/-- A node that took a slot.  `order` counts the named nodes by where they begin; of the nodes that
took the same slot the last one to begin keeps it. -/
structure SlotNode where
  /-- The slot. -/
  slot : Nat
  /-- How many named nodes began before. -/
  order : Nat
  /-- The node. -/
  node : Node

/-- A document: its root, the named nodes, and the number of its scalars,
references and ends of collections. -/
structure Document where
  /-- The root. -/
  root : Node
  /-- The named nodes. -/
  slots : List SlotNode
  /-- Scalars and references count once, collections twice. -/
  size : Nat

/-- The node that keeps a slot. -/
def Document.nodeAt? (d : Document) (slot : Nat) : Option Node :=
  let found := d.slots.filter fun s => s.slot == slot
  (found.foldl (fun best s =>
    match best with
    | some b => if b.order < s.order then some s else some b
    | none => some s) (none : Option SlotNode)).map SlotNode.node

/-! ## The state of the reader -/

/-- What the reader of nodes carries along. -/
structure Parse where
  /-- The tokens ahead. -/
  ahead : List Token
  /-- What the tag handles stand for. -/
  handles : List (List Char × List UInt8)
  /-- The slot of each name. -/
  names : List (List Char × Nat)
  /-- The named nodes that are complete. -/
  slots : List SlotNode
  /-- How many named nodes have begun. -/
  begun : Nat
  /-- The size so far. -/
  size : Nat

/-- Reading with a state; failure is final. -/
abbrev Reading (α : Type) := StateT Parse Option α

namespace Reading

/-- The next token. -/
def peek : Reading (Option Token) := fun p => some (p.ahead.head?, p)

/-- The next token is left behind. -/
def skip : Reading Unit := fun p => some ((), { p with ahead := p.ahead.drop 1 })

/-- The size grows. -/
def grow (n : Nat) : Reading Unit := fun p => some ((), { p with size := p.size + n })

/-- The empty scalar that stands where nothing is written. -/
def nothing : Reading Node := do
  grow 1
  pure Node.nothing

/-- The slot of a name. -/
def slotOf (name : List Char) : Reading Nat := fun p => (p.names.lookup name).map fun i => (i, p)

/-- The slot that a name takes from here on, and the order of its node. -/
def takeSlot (name : List Char) : Reading (Nat × Nat) := fun p =>
  let slot := p.names.length
  let names := (name, slot) :: p.names.filter fun e => e.1 ≠ name
  some ((slot, p.begun), { p with names := names, begun := p.begun + 1 })

/-- A named node is complete. -/
def keep (slot order : Nat) (node : Node) : Reading Unit := fun p =>
  some ((), { p with slots := ⟨slot, order, node⟩ :: p.slots })

/-- The bytes of a tag, its handle replaced by what it stands for. -/
def tagBytes (handle : List Char) (suffix : List UInt8) : Reading (List UInt8) := fun p =>
  if handle.isEmpty then some (suffix, p)
  else (p.handles.lookup handle).map fun b => (b ++ suffix, p)

/-- A name, if one stands here. -/
def anchor : Reading (Option (List Char)) := do
  match ← peek with
  | some (.anchor n) => do skip; pure (some n)
  | _ => pure none

/-- The bytes of a tag, if one stands here. -/
def tag : Reading (Option (List UInt8)) := do
  match ← peek with
  | some (.tag h s) => do skip; pure (some (← tagBytes h s))
  | _ => pure none

/-- A name and a tag in either order, each of which may be missing. -/
def properties : Reading (Option (List Char) × Option (List UInt8)) := do
  match ← anchor with
  | some n => do
    let t ← tag
    pure (some n, t)
  | none =>
    match ← tag with
    | some t => do
      let n ← anchor
      pure (n, some t)
    | none => pure (none, none)

/-! ## The grammar -/

mutual

/-- A node.  `block` tells whether block collections may stand here and `indentless` whether the
entries of a sequence may stand no further in than the mapping around. -/
def node (block indentless : Bool) : Nat → Reading Node
  | 0 => failure
  | fuel + 1 => do
    match ← peek with
    | some (.alias name) =>
      let slot ← slotOf name
      skip
      grow 1
      pure (.reference slot)
    | _ =>
      let (name, tagged) ← properties
      let mark ← match name with
        | some n => do
          let x ← takeSlot n
          pure (some x)
        | none => pure none
      let kind := tagged.map Tag.ofBytes
      let given := name.isSome || tagged.isSome
      let n ← content block indentless given tagged kind fuel
      match mark with
      | some (slot, order) => keep slot order n
      | none => pure ()
      pure n

/-- What stands behind the name and the tag of a node.  The tag `!` says nothing about a scalar. -/
def content (block indentless given : Bool) (tagged : Option (List UInt8)) (kind : Option Tag) :
    Nat → Reading Node
  | 0 => failure
  | fuel + 1 => do
    match ← peek with
    | some (.scalar plain text) =>
      skip
      grow 1
      if tagged = some (bytesOf ['!']) then pure (.scalar none plain text)
      else pure (.scalar kind plain text)
    | some .flowSequence =>
      skip
      grow 2
      pure (.sequence kind (← flowItems true fuel))
    | some .flowMapping =>
      skip
      grow 2
      pure (.mapping kind (← flowEntries true fuel))
    | some .blockEntry =>
      if indentless then
        grow 2
        pure (.sequence kind (← indentlessItems fuel))
      else if given then
        grow 1
        pure (.scalar kind true [])
      else failure
    | some .blockSequence =>
      if block then
        skip
        grow 2
        pure (.sequence kind (← blockItems fuel))
      else if given then
        grow 1
        pure (.scalar kind true [])
      else failure
    | some .blockMapping =>
      if block then
        skip
        grow 2
        pure (.mapping kind (← blockEntries fuel))
      else if given then
        grow 1
        pure (.scalar kind true [])
      else failure
    | _ =>
      if given then
        grow 1
        pure (.scalar kind true [])
      else failure

/-- The entries of a block sequence and its end. -/
def blockItems : Nat → Reading (List Node)
  | 0 => failure
  | fuel + 1 => do
    match ← peek with
    | some .blockEntry =>
      skip
      let n ← match ← peek with
        | some .blockEntry => nothing
        | some .blockEnd => nothing
        | _ => node true false fuel
      let ns ← blockItems fuel
      pure (n :: ns)
    | some .blockEnd =>
      skip
      pure []
    | _ => failure

/-- The entries of a sequence that stand no further in than the mapping around. -/
def indentlessItems : Nat → Reading (List Node)
  | 0 => failure
  | fuel + 1 => do
    match ← peek with
    | some .blockEntry =>
      skip
      let n ← match ← peek with
        | some .blockEntry => nothing
        | some .key => nothing
        | some .value => nothing
        | some .blockEnd => nothing
        | _ => node true false fuel
      let ns ← indentlessItems fuel
      pure (n :: ns)
    | _ => pure []

/-- The node behind a key or value token of a block mapping. -/
def blockSide : Nat → Reading Node
  | 0 => failure
  | fuel + 1 => do
    match ← peek with
    | some .key => nothing
    | some .value => nothing
    | some .blockEnd => nothing
    | _ => node true true fuel

/-- The entries of a block mapping and its end. -/
def blockEntries : Nat → Reading (List (Node × Node))
  | 0 => failure
  | fuel + 1 => do
    match ← peek with
    | some .key =>
      skip
      let k ← blockSide fuel
      let v ← match ← peek with
        | some .value => do skip; blockSide fuel
        | _ => nothing
      let es ← blockEntries fuel
      pure ((k, v) :: es)
    | some .blockEnd =>
      skip
      pure []
    | _ => failure

/-- The items of a flow sequence and its end.  A pair of key and value is a mapping of its own.
A pair whose key is missing swallows the token in place of the key. -/
def flowItems (first : Bool) : Nat → Reading (List Node)
  | 0 => failure
  | fuel + 1 => do
    match ← peek with
    | some .flowSequenceEnd =>
      skip
      pure []
    | found =>
      let found ← if first then pure found
        else match found with
          | some .flowEntry => do skip; peek
          | _ => failure
      match found with
      | some .flowSequenceEnd =>
        skip
        pure []
      | some .key =>
        skip
        grow 2
        let k ← match ← peek with
          | some .value => do skip; nothing
          | some .flowEntry => do skip; nothing
          | some .flowSequenceEnd => do skip; nothing
          | _ => node false false fuel
        let v ← match ← peek with
          | some .value =>
            skip
            match ← peek with
            | some .flowEntry => nothing
            | some .flowSequenceEnd => nothing
            | _ => node false false fuel
          | _ => nothing
        let ns ← flowItems false fuel
        pure (.mapping none [(k, v)] :: ns)
      | _ =>
        let n ← node false false fuel
        let ns ← flowItems false fuel
        pure (n :: ns)

/-- The entries of a flow mapping and its end. -/
def flowEntries (first : Bool) : Nat → Reading (List (Node × Node))
  | 0 => failure
  | fuel + 1 => do
    match ← peek with
    | some .flowMappingEnd =>
      skip
      pure []
    | found =>
      let found ← if first then pure found
        else match found with
          | some .flowEntry => do skip; peek
          | _ => failure
      match found with
      | some .flowMappingEnd =>
        skip
        pure []
      | some .key =>
        skip
        let k ← match ← peek with
          | some .value => nothing
          | some .flowEntry => nothing
          | some .flowMappingEnd => nothing
          | _ => node false false fuel
        let v ← match ← peek with
          | some .value =>
            skip
            match ← peek with
            | some .flowEntry => nothing
            | some .flowMappingEnd => nothing
            | _ => node false false fuel
          | _ => nothing
        let es ← flowEntries false fuel
        pure ((k, v) :: es)
      | _ =>
        let k ← node false false fuel
        let v ← nothing
        let es ← flowEntries false fuel
        pure ((k, v) :: es)

end

/-! ## Documents -/

/-- The tag handles that every document knows, unless it gives them a meaning of its own. -/
def defaultHandles : List (List Char × List UInt8) :=
  [(['!'], bytesOf ['!']), (['!', '!'], bytesOf commonTags.toList)]

/-- The directives in front of a document.  A version is given once and is 1.1 or 1.2,
and a handle is given once. -/
def directives : Nat → Bool → Reading Unit
  | 0, _ => failure
  | fuel + 1, versioned => do
    match ← peek with
    | some (.version major minor) =>
      if versioned || major ≠ 1 || (minor ≠ 1 && minor ≠ 2) then failure
      else
        skip
        directives fuel true
    | some (.tagPrefix handle stands) => do
      let p ← get
      if (p.handles.lookup handle).isSome then failure
      else
        set { p with handles := (handle, stands) :: p.handles }
        skip
        directives fuel versioned
    | _ => pure ()

/-- The tokens that end documents are left behind. -/
def skipDocumentEnds : Nat → Reading Unit
  | 0 => pure ()
  | fuel + 1 => do
    match ← peek with
    | some .documentEnd =>
      skip
      skipDocumentEnds fuel
    | _ => pure ()

/-- The only document of a stream; none when the stream is empty.  Without directives and without
a marker the document begins at once. -/
def stream (fuel : Nat) : Reading (Option Node) := do
  match ← peek with
  | none => pure none
  | some first =>
    let explicit := match first with
      | .version .. => true
      | .tagPrefix .. => true
      | .documentStart => true
      | _ => false
    if explicit then
      directives fuel false
      match ← peek with
      | some .documentStart => skip
      | _ => failure
    modify fun p => { p with handles := p.handles ++ defaultHandles }
    let n ← if explicit then
        match ← peek with
        | none => nothing
        | some (.version ..) => nothing
        | some (.tagPrefix ..) => nothing
        | some .documentStart => nothing
        | some .documentEnd => nothing
        | _ => node true false fuel
      else node true false fuel
    skipDocumentEnds fuel
    match ← peek with
    | none => pure (some n)
    | some _ => failure

end Reading

/-- The document of a source text.  The outer `none` stands for a text that is no stream of at most
one document, the inner one for a stream without a document. -/
def document? (s : List Char) : Option (Option Document) :=
  match tokens? s with
  | none => none
  | some ts =>
    match (Reading.stream (4 * ts.length + 8)).run ⟨ts, [], [], [], 0, 0⟩ with
    | none => none
    | some (none, _) => some none
    | some (some root, p) => some (some ⟨root, p.slots, p.size⟩)

end ComponentStories.Yaml
