import System370.Generation.Constant
import System370.Generation.Instruction

/-!
# Generating a program

Besides instructions and constants, the statements on base registers, the end
statement and the filling of a conditional no-operation take effect here.
Records with errors are passed over.

* `Generation.run` goes through the records of a program.
-/

namespace System370

namespace Generate

/-- The registers of a `USING` statement; none if one of them is wrong. -/
def baseOperands (seen : List Register) :
    List (Nat × Bytes) → Generate (Option (List Register))
  | [] => return some seen
  | (i, text) :: rest => do
    let cursor := (← statement).operandCursor i
    match ← register .base text with
    | .error problem =>
      report cursor problem
      return none
    | .ok r =>
      if r ∈ seen then
        report cursor (.duplicateRegister r.val)
        return none
      baseOperands (seen ++ [r]) rest

/-- The octets of a section from an address on, none for an absolute address,
which is not in any section. -/
def remainingFrom (t : SymbolTable) (v : Value) : Option Int64 :=
  if v.isAbsolute then none
  else
    let left := match t.section? v.sectionId with
      | some s => if 0 < s.id then s.base + s.length - v.number else
        s.length - v.number
      | none => 0
    some (if left < 0 then 0 else left)

/-- Gives registers their domains, each 4096 octets behind the one before.  `k`
is the number of registers before these. -/
def useRegisters (v : Value) (remaining : Option Int64) (k : Nat) :
    List Register → Generate Unit
  | [] => return
  | r :: rest => do
    let s ← statement
    let distance := Int64.ofNat k * Domain.limit
    let left := match remaining with
      | some n => if n - distance < 0 then 0 else n - distance
      | none => -1
    if let some previous := (← getThe Generation).bases.domain? r then
      report (s.operandCursor (k + 1)) (.replacedBase r.val previous.line)
    modifyThe Generation fun g =>
      { g with bases :=
        g.bases.use r (v.number + distance) v.sectionId left s.line }
    useRegisters v remaining (k + 1) rest

/-- A `USING` statement. -/
def useBases : Generate Unit := do
  let s ← statement
  if s.operands.length < 2 then return
  match ← baseOperands [] (s.numbered.drop 1) with
  | none => return
  | some registers =>
    let cursor := s.operandCursor 0
    match ← evaluate .base (s.operands.headD []) with
    | .error problem => report cursor problem
    | .ok result =>
      let v := result.value
      if v.isAbsolute = false ∧ v.sectionId = 0 then
        report cursor
          (.invalidOperand [.absolute, .relocatable] (Expression.classOf v))
      else
        useRegisters v (remainingFrom (← getThe Generation).symbols v) 0
          registers

/-- Takes the domains of all registers away. -/
def dropAll : Generate Unit :=
  modifyThe Generation fun g => { g with bases := {} }

/-- One operand of a `DROP` statement. -/
def dropOperand (operand : Nat × Bytes) : Generate Unit := do
  let cursor := (← statement).operandCursor operand.1
  match ← register .drop operand.2 with
  | .error problem => report cursor problem
  | .ok r =>
    if ((← getThe Generation).bases.domain? r).isNone then
      report cursor (.inactiveRegister r.val)
    modifyThe Generation fun g => { g with bases := g.bases.drop r }

/-- A `DROP` statement. -/
def dropBases : Generate Unit := do
  let s ← statement
  if s.operands = [] then dropAll else s.numbered.forM dropOperand

/-- The entry point of a module without one of its own: its first section. -/
def defaultEnding (t : SymbolTable) : Deck.End :=
  match t.sections with
  | [] => {}
  | first :: _ =>
    { hasEntry := true, address := first.base, sectionId := first.id
      length := first.length }

/-- The entry point at a value, which has to be in a control section or
external. -/
def endingAt? (t : SymbolTable) (v : Value) : Option Deck.End :=
  match v.classify, v.terms with
  | .relocatable, [⟨.external name _, _⟩] => some { hasEntry := true, name }
  | .relocatable, [⟨.origin id, _⟩] =>
    if 0 < id then
      some
        { hasEntry := true
          address := v.number
          sectionId := id
          length := ((t.section? id).map (·.length)).getD 0 }
    else none
  | _, _ => none

/-- An `END` statement. -/
def endProgram : Generate Unit := do
  dropAll
  let s ← statement
  let setEnding := fun ending => modifyThe Generation fun g => { g with ending }
  match s.operands with
  | [] =>
    let t := (← getThe Generation).symbols
    if t.sections ≠ [] then setEnding (defaultEnding t)
  | text :: _ =>
    let cursor := s.operandCursor 0
    match ← evaluate .plain text with
    | .error problem => report cursor problem
    | .ok result =>
      match endingAt? (← getThe Generation).symbols result.value with
      | some ending => setEnding ending
      | none =>
        report cursor
          (.invalidOperand [.relocatable] (Expression.classOf result.value))

/-- No-operations of two octets.  An odd start gets a zero octet first. -/
def filling (loc : Int64) (length : Nat) : Bytes :=
  let lead := if loc % 2 ≠ 0 ∧ 0 < length then 1 else 0
  List.replicate lead 0 ++
    (List.replicate ((length - lead) / 2) [0x07, 0x00]).flatten ++
    List.replicate ((length - lead) % 2) 0

/-- Generates the code of the record. -/
def generate : Generate Unit := do
  let r ← getThe Record
  match r.body, r.directive with
  | .instruction op _, _ => emit (← instructionOctets op)
  | .storage parts, some .dc => emitParts (← storageParts parts)
  | .pool ids, _ => emitParts (← poolParts ids)
  | .equate ..,
    _ => r.statement.operands.forM fun text => do discard (evaluate .plain text)
  | .located, some .use => useBases
  | .located, some .drop => dropBases
  | .located, some .ending => endProgram
  | .located, some .cnop =>
    if r.length < 0 then fail .noOctet else
      emit (filling r.loc r.length.toInt.toNat)
  | _, _ => return

end Generate

namespace Generation

/-- Generates the code of one record, unless it has errors or the generation has
ended. -/
def step (g : Generation) (r : Record) : Record × Generation :=
  if r.errored ∨ g.fault.isSome then (r, g)
  else
    let (((), r), g) := StateT.run (StateT.run Generate.generate r) g
    (r, g)

/-- Generates the code of records one after the other. -/
def run (g : Generation) : List Record → List Record × Generation
  | [] => ([], g)
  | r :: rest =>
    let (r, g) := g.step r
    let (others, g) := g.run rest
    (r :: others, g)

/-- The state before the first record of a program. -/
def new (p : Program) : Generation where
  symbols := p.layout.symbols
  literals := p.layout.literals
  diagnostics := p.layout.diagnostics

/-- Whether a name is an address in a control section. -/
def isAddress (t : SymbolTable) (name : Bytes) : Bool :=
  (t.definition? name).any fun d => 0 < d.value.sectionId

/-- Reports the names for other assemblies that are no addresses. -/
def checkEntries (g : Generation) (cursors : List (Bytes × Cursor)) :
    Generation :=
  let missing :=
    (g.symbols.entries.filter fun e => !isAddress g.symbols e.name).map fun e =>
    let cursor := match cursors.find? (·.1 = e.name) with
      | some (_, cursor) => cursor
      | none => ⟨e.line.toNat, 1, 0, 0, 0⟩
    ⟨cursor, .undefinedSymbol e.name⟩
  { g with diagnostics := g.diagnostics ++ missing }

end Generation

end System370
