import ComponentStories.Ordered

/-
# Tables of configuration documents

A document is a table of named values and of further tables.  Headers `[a.b]` and `[[a.b]]` and
dotted keys `a.b = v` open tables; how a table was opened decides whether it may be opened again or
added to. `addValue?`, `openTable?` and `openElement?` refuse what would define something twice.
-/

namespace ComponentStories.Toml

/-! ## Nodes -/

/-- How a table was opened. -/
inductive Opening
  /-- By a header of its own. -/
  | header
  /-- By the header of a table inside it. -/
  | path
  /-- By a dotted key. -/
  | dotted
  deriving DecidableEq, Repr

/-- What a name stands for in a document. -/
inductive Node
  /-- A text. -/
  | text (s : String)
  /-- A number or a truth value, of which only this much is kept. -/
  | plain
  /-- A date or a time of day, of which only this much is kept. -/
  | moment
  /-- A list of values. -/
  | array (items : List Node)
  /-- A table that stands in one piece as a value. -/
  | closed (entries : List (String × Node))
  /-- A table that may grow. -/
  | table (opening : Opening) (entries : List (String × Node))
  /-- A list of tables that may grow; the last one stands first. -/
  | tables (last : Node) (earlier : List Node)

instance : Inhabited Node := ⟨.plain⟩

/-! ## Growing -/

/-- The node with the table at the end of a path replaced by what `f` gives for it.  Missing tables
are opened on the way, by dotted keys or by headers.  Dotted keys do not lead into a table with a
header of its own; in a list of tables the way leads into the last one. -/
def within (dotted : Bool) (f : Node → Option Node) : List String → Node → Option Node
  | [], n => f n
  | key :: rest, .table opening entries =>
    let fresh : Node := .table (if dotted then .dotted else .path) []
    let grown : Option Node :=
      match (entries.lookup key).getD fresh with
      | .table .header inner =>
        if dotted then none else within dotted f rest (.table .header inner)
      | .table o inner => within dotted f rest (.table o inner)
      | .tables last earlier => (within dotted f rest last).map fun n => .tables n earlier
      | _ => none
    grown.map fun n => .table opening (putEntry key n entries)
  | _ :: _, _ => none

/-- The table with a new value. -/
def addValue? (key : String) (value : Node) (needed : Option Opening) : Node → Option Node
  | .table opening entries =>
    if needed.any (· ≠ opening) ∨ (entries.lookup key).isSome then none
    else some (.table opening (putEntry key value entries))
  | _ => none

/-- The table with a value at the end of a dotted path; the last table on the way
was opened by a dotted key. -/
def addDotted? (path : List String) (value : Node) (n : Node) : Option Node :=
  match path.reverse with
  | [] => none
  | [key] => addValue? key value none n
  | key :: above => within true (addValue? key value (some .dotted)) above.reverse n

/-- The table in which a header opens a table. -/
def openTable? (key : String) : Node → Option Node
  | .table opening entries =>
    match entries.lookup key with
    | none => some (.table opening (putEntry key (.table .header []) entries))
    | some (.table .path inner) =>
      some (.table opening (putEntry key (.table .header inner) entries))
    | some _ => none
  | _ => none

/-- The table in which a header opens one more table of a list. -/
def openElement? (key : String) : Node → Option Node
  | .table opening entries =>
    match entries.lookup key with
    | none => some (.table opening (putEntry key (.tables (.table .header []) []) entries))
    | some (.tables last earlier) =>
      some (.table opening (putEntry key (.tables (.table .header []) (last :: earlier)) entries))
    | some _ => none
  | _ => none

/-- What `f` gives for the table in front of the last part of a header. -/
def atHeader (f : String → Node → Option Node) (path : List String) (n : Node) : Option Node :=
  match path.reverse with
  | [] => none
  | key :: above => within false (f key) above.reverse n

/-- The entries of a table. -/
def Node.entries : Node → List (String × Node)
  | .closed entries => entries
  | .table _ entries => entries
  | _ => []

end ComponentStories.Toml
