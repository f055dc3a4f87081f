import System370.Bytes

/-!
# TOML documents

A document assigns values to keys, which are paths of names.  A key or a table
header brings the tables on its way into existence.  Such a table is implicit:
it may be defined once more in its own right.  Anything else is defined only
once.

* `Toml.Document.ofStatements?` builds a document and refuses a second
  definition;
* `Toml.Document.keys` are the keys that were written, in order.
-/

namespace System370

namespace Toml

/-- A path of names. -/
abbrev Key := List Bytes

/-- What a key is assigned.  The size of a floating-point number does not matter
here. -/
inductive Value where
  | text (s : Bytes)
  | integer (n : Int64)
  | boolean (b : Bool)
  | float
  deriving DecidableEq, Repr

/-- A line of a document. -/
inductive Statement where
  | table (key : Key)
  | assign (key : Key) (value : Value)
  deriving DecidableEq, Repr

/-- What stands at a key. -/
inductive Node where
  | table
  | leaf (value : Value)
  deriving DecidableEq, Repr

/-- A document. -/
structure Document where
  nodes : List (Key × Node) := []
  /-- The tables that may be defined once more. -/
  implicit : List Key := []
  /-- The keys that were written, in order. -/
  keys : List Key := []
  /-- The table that assignments go to. -/
  context : Key := []
  deriving DecidableEq, Repr

namespace Document

/-- What stands at a key. -/
def node? (d : Document) (key : Key) : Option Node :=
  (d.nodes.find? (·.1 = key)).map (·.2)

/-- Whether a table stands at a key; the whole document is one. -/
def isTable (d : Document) (key : Key) : Bool :=
  key = [] || d.node? key = some .table

/-- The keys above a key, the whole document first. -/
def above (key : Key) : List Key := (List.range key.length).map key.take

/-- Puts a node at a key.  An implicit table there stays and becomes
explicit. -/
def put? (d : Document) (key : Key) (node : Node) : Option Document :=
  if (above key).any fun k => !d.isTable k then none
  else if (d.node? key).isSome then
    if key ∈ d.implicit then
      some { d with implicit := d.implicit.filter (· ≠ key) } else none
  else some { d with nodes := d.nodes ++ [(key, node)] }

/-- Makes sure that a table stands at a key, an implicit one if there was
nothing. -/
def passThrough? (d : Document) (key : Key) : Option Document :=
  match d.node? key with
  | some .table => some d
  | some (.leaf _) => none
  | none => some
      { d with
        nodes := d.nodes ++ [(key, .table)], implicit := key :: d.implicit }

/-- Enters the table at a key. -/
def enter? (d : Document) (key : Key) : Option Document := do
  let d ← (above key).tail.foldlM passThrough? d
  let d ← d.put? key .table
  return { d with context := key }

/-- Enters the tables that the leading names of a dotted key stand for; each may
be entered again. -/
def descend? (d : Document) (names : List Bytes) : Option Document :=
  names.foldlM
    (fun d name =>
      let key := d.context ++ [name]
      { d with implicit := key :: d.implicit }.enter? key) d

/-- Carries a statement out. -/
def step? (d : Document) : Statement → Option Document
  | .table key => do
    let d ← d.enter? key
    return { d with keys := d.keys ++ [key] }
  | .assign key value => do
    let inner ← d.descend? key.dropLast
    let full := d.context ++ key
    let inner ← inner.put? full (.leaf value)
    return { inner with keys := inner.keys ++ [full], context := d.context }

/-- The document that statements make; none if one of them defines something a
second time. -/
def ofStatements? (statements : List Statement) : Option Document :=
  statements.foldlM step? {}

end Document

end Toml

end System370
