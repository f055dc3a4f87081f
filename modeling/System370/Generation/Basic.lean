import System370.BaseRegisters
import System370.Deck.Basic
import System370.Layout.Program
import System370.Storage

/-!
# Generating code

When every symbol has its address, the records are gone through once more, in
order, to generate code.  On the way base registers come and go, every symbol
that is read is recorded, and what is wrong is reported.

`Generation` is the state between records.  A step of type `Generate` works on
that state and on the record at hand, whose error mark, addresses and code it
may set.  A record whose code does not fit its own length is a fault, which ends
the generation.
-/

namespace System370

/-- Code generated at an address of a control section. -/
structure Run where
  sectionId : Int
  start : Int64
  data : Bytes
  deriving DecidableEq, Repr

/-- What is known between two records. -/
structure Generation where
  symbols : SymbolTable
  literals : LiteralPool
  bases : BaseRegisters := {}
  diagnostics : List Diagnostic := []
  /-- The code generated so far, in order. -/
  runs : List Run := []
  relocations : List Deck.Relocation := []
  ending : Deck.End := {}
  /-- The fault that ended the generation, if there was one. -/
  fault : Option StorageFault := none

/-- A step on the state and the record at hand. -/
abbrev Generate := StateT Record (StateM Generation)

namespace Generate

/-- Reports a problem of the record. -/
def report (cursor : Cursor) (problem : Problem) : Generate Unit := do
  modifyThe Generation fun g =>
    { g with diagnostics := g.diagnostics ++ [⟨cursor, problem⟩] }
  modifyThe Record fun r =>
    { r with errored := r.errored || problem.severity.isError }

/-- The statement of the record. -/
def statement : Generate Statement := return (← getThe Record).statement

/-- Records that a line reads symbols. -/
def reference (line : Int) (usage : Usage) (names : List Bytes) :
    Generate Unit :=
  modifyThe Generation fun g =>
    { g with symbols :=
      names.foldl (fun t name => t.reference name ⟨line, usage⟩) g.symbols }

/-- Evaluates an expression that stands at a place, and records what it
reads. -/
def evaluateAt (place : Expression.Place) (line : Int) (usage : Usage)
    (text : Bytes) :
    Generate (Except Problem Expression.Result) := do
  let outcome := Expression.evaluate (← getThe Generation).symbols place text
  reference line usage outcome.names
  return outcome.result

/-- Evaluates an expression of the record. -/
def evaluate (usage : Usage) (text : Bytes) :
    Generate (Except Problem Expression.Result) := do
  let r ← getThe Record
  evaluateAt r.place r.statement.line usage text

/-- Evaluates an expression of the record that may not be relocatable. -/
def absolute (usage : Usage) (text : Bytes) :
    Generate (Except Problem Int64) := do
  let r ← getThe Record
  let outcome := Expression.absolute (← getThe Generation).symbols r.place text
  reference r.statement.line usage outcome.names
  return outcome.result

/-- The register that a number names. -/
def registerOf? (n : Int64) : Option Register :=
  if h : 0 ≤ n.toInt ∧ n.toInt.toNat < 16 then
    some ⟨n.toInt.toNat, h.2⟩ else none

/-- Evaluates a register. -/
def register (usage : Usage) (text : Bytes) :
    Generate (Except Problem Register) := do
  match ← absolute usage text with
  | .error problem => return .error problem
  | .ok n =>
    match registerOf? n with
    | some r => return .ok r
    | none => return .error .invalidRegister

/-- The base register and displacement for an address.  Addresses below 4096
need no register. -/
def resolve (v : Value) : Generate (Except Problem BaseRegisters.Choice) := do
  let search := fun sectionId : Int => do
    let (choice, bases) :=
      (← getThe Generation).bases.resolve v.number sectionId
    modifyThe Generation fun g => { g with bases }
    match choice with
    | some c => return .ok c
    | none => return .error (.unaddressable v.number)
  match v.classify with
  | .absolute =>
    if 0 ≤ v.number ∧ v.number < Domain.limit then
      return .ok ⟨0, v.number⟩ else search 0
  | .relocatable => if v.sectionId = 0 then return .error .relocatableTerm else
    search v.sectionId
  | .complex =>
    return .error (.invalidOperand [.absolute, .relocatable] .complex)

/-- The octets of a base register and a displacement. -/
def baseDisplacement (c : BaseRegisters.Choice) : Bytes :=
  Field.put 2 (c.register.val * 4096 + c.displacement.toInt)

/-- Sets the code of the record.  Control sections keep it as text. -/
def emit (data : Bytes) : Generate Unit := do
  let r ← getThe Record
  set { r with object := some data }
  if 0 < r.sectionId ∧ data ≠ [] then
    modifyThe Generation fun g =>
      { g with runs := g.runs ++ [⟨r.sectionId, r.loc, data⟩] }

/-- Ends the generation. -/
def fail (e : StorageFault) : Generate Unit :=
  modifyThe Generation fun g => { g with fault := some e }

end Generate

end System370
