import System370.Assembly

/-!
# Symbol maps

A symbol map leads from addresses of the module back to the source: for every
address where code was generated, the offset of the line that generated it, and
for every label its place, its length and its line.
-/

namespace System370

/-- What a symbol map says about a label. -/
structure SymbolMap.Label where
  name : Bytes
  value : Int64
  sectionId : Int
  length : Int64
  line : Int
  deriving DecidableEq, Repr

/-- A way back from a module to its source. -/
structure SymbolMap where
  source : Bytes
  /-- Addresses in increasing order, each with the offset of its line. -/
  lines : List (Int64 × Nat)
  /-- In the order of their names. -/
  labels : List SymbolMap.Label
  deriving DecidableEq, Repr

namespace SymbolMap

/-- The address of a record that generated code in a control section, with the
offset of its line. -/
def lineOf? (r : Record) : Option (Int64 × Nat) :=
  if 0 < r.sectionId ∧ r.object.any (· ≠ []) then
    some (r.loc, r.statement.position.lineByte)
  else none

/-- Keeps the first entry of each address. -/
def firstOnly (lines : List (Int64 × Nat)) : List (Int64 × Nat) :=
  lines.foldl (fun kept line => if kept.any (·.1 = line.1) then kept else
    kept ++ [line]) []

/-- The entry of a defined symbol. -/
def labelOf? (s : Symbol) : Option Label :=
  s.definition.map fun d => ⟨s.name, d.value.number, d.value.sectionId,
    d.length, d.line⟩

/-- The symbol map of an assembly of a named source. -/
def ofAssembly (a : Assembly) (source : Bytes) : SymbolMap where
  source := source
  lines := sortByKey (·.1.toInt) (firstOnly (a.records.filterMap lineOf?))
  labels := a.symbols.sorted.filterMap labelOf?

/-- Words on a line of a file. -/
def fileLine (parts : List Bytes) : Bytes := Bytes.join [blank] parts ++ [0x0A]

/-- The text of a symbol map in a file: the source, then the addresses, then the
labels, one to a line. -/
def render (m : SymbolMap) : Bytes :=
  fileLine [bytes "source", m.source] ++
    (m.lines.flatMap fun (address, offset) =>
      fileLine [bytes "line", hexField 6 address.toInt, decimal offset]) ++
    (m.labels.flatMap fun l =>
      fileLine [bytes "label", l.name, hexField 6 l.value.toInt,
        decimal l.sectionId, decimal l.length.toInt, decimal l.line])

end SymbolMap

end System370
