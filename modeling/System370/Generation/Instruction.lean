import System370.Generation.Basic

/-!
# Generating instructions

The fields of an instruction are filled from its operands.  A storage operand is
either written out, `D(X,B)` or `D(L,B)` or `D(B)`, or it is an address, for
which a base register is chosen; a literal is such an address.  An operand that
is wrong is reported and leaves its field as far as it got.

Registers and storage operands are evaluated from left to right, then lengths,
then immediate values.
-/

namespace System370

/-- A storage operand. -/
structure StorageOperand where
  choice : BaseRegisters.Choice := ⟨0, 0⟩
  /-- The index register or the length, if it is written out. -/
  inner : Option Int64 := none
  /-- The address, if a base register was looked for. -/
  address : Option Int64 := none
  /-- The length attribute of the address. -/
  length : Int64 := 0
  deriving DecidableEq, Repr

/-- The displacement and the parts of the parentheses behind it.  An operand
that is only parentheses is not taken apart. -/
def splitAddress (text : Bytes) : Bytes × List Bytes :=
  match Scan.closingGroup text with
  | some (n + 1) => (text.take (n + 1),
    Bytes.splitOn comma ((text.drop (n + 2)).dropLast))
  | _ => (text, [])

/-- How an instruction uses the storage operand at a position. -/
def Instruction.usage (op : Instruction) (i : Nat) : Usage :=
  match op.use with
  | .executes => .execute
  | .branches => .branch
  | .modifiesFirst => if op.format.ordinal i = 1 then .modify else .plain
  | .modifiesSecond => if op.format.ordinal i = 2 then .modify else .plain
  | .reads => .plain

namespace Generate

/-- The index register or length that is written first in the parentheses. -/
def innerValue (kind : Inner) (parts : List Bytes) :
    Generate (Except Problem (Option Int64)) := do
  match kind, parts with
  | .base, _ | _, [] => return .ok none
  | kind, text :: _ =>
    if isBlank text then return .ok none
    else if kind = .index then
      match ← register .plain text with
      | .ok r => return .ok (some (Int64.ofNat r.val))
      | .error problem => return .error problem
    else
      match ← absolute .plain text with
      | .ok n => return .ok (some n)
      | .error problem => return .error problem

/-- A storage operand with its base register written out. -/
def explicitBase (operand : StorageOperand) (v : Value) (text : Bytes) :
    Generate (StorageOperand × Option Problem) := do
  match ← register .plain text with
  | .error problem => return (operand, some problem)
  | .ok r =>
    let operand := { operand with choice := ⟨r, 0⟩ }
    if v.isAbsolute = false then
      return (operand,
        some (.invalidOperand [.absolute] (Expression.classOf v)))
    else if v.number < 0 ∨ Domain.limit ≤ v.number then
      return (operand, some (.oversizedValue 4095 v.number.toInt))
    else return ({ operand with choice := ⟨r, v.number⟩ }, none)

/-- A storage operand whose base register is looked for. -/
def implicitBase (operand : StorageOperand) (v : Value) :
    Generate (StorageOperand × Option Problem) := do
  match ← resolve v with
  | .ok choice => return ({ operand with choice }, none)
  | .error problem => return (operand, some problem)

/-- A storage operand that is written out or is an expression. -/
def expressionOperand (kind : Inner) (usage : Usage) (text : Bytes) :
    Generate (StorageOperand × Option Problem) := do
  let (displacement, parts) := splitAddress text
  let allowed := if kind = .base then 1 else 2
  if allowed < parts.length then
    return ({}, some (.operandCount allowed parts.length))
  match ← evaluate usage displacement with
  | .error problem => return ({}, some problem)
  | .ok result =>
    match ← innerValue kind parts with
    | .error problem => return ({}, some problem)
    | .ok inner =>
      if parts.length = allowed then
        explicitBase { inner } result.value (parts.getLastD [])
      else
        let address :=
          if result.value.classify = .relocatable then
            some result.value.number else none
        implicitBase { inner, address, length := result.length } result.value

/-- The literal that an operand of the record is bound to. -/
def boundLiteral? (r : Record) (literals : LiteralPool) (i : Nat) :
    Option Literal :=
  match r.body with
  | .instruction _ bound =>
    (bound.find? (·.1 = i)).bind fun binding => literals.literals[binding.2]?
  | _ => none

/-- A storage operand of the record. -/
def storageOperand (op : Instruction) (kind : Inner) (i : Nat) (text : Bytes) :
    Generate (StorageOperand × Option Problem) := do
  match boundLiteral? (← getThe Record) (← getThe Generation).literals i with
  | some literal =>
    let address := (literal.place.map (·.address)).getD 0
    let length := (literal.descriptor.map (·.lengthAttribute)).getD 1
    implicitBase { address := some address, length := Int64.ofNat length }
      (Value.relocatable address literal.sectionId)
  | none =>
    if text.head? = some (octet '=') then return ({}, some .invalidTerm)
    else expressionOperand kind (op.usage i) text

/-- Notes the address of a storage operand in the record, and reports one that
is not on the boundary that the instruction expects. -/
def noteAddress (op : Instruction) (i : Nat) (cursor : Cursor)
    (address : Int64) : Generate Unit := do
  if op.format.ordinal i = 1 then
    modifyThe Record fun r => { r with firstAddress := some address }
  else
    modifyThe Record fun r => { r with secondAddress := some address }
  if op.format.checksAlignment ∧ 1 < op.alignment ∧ op.use ≠ .branches ∧
      address % Int64.ofNat op.alignment ≠ 0 then
    report cursor (.misaligned op.alignment address)

/-- The text of an operand of the record and its place. -/
def operandText (i : Nat) : Generate (Bytes × Cursor) := do
  let s ← statement
  return (s.operands.getD i [], s.operandCursor i)

/-- Evaluates a storage operand of the record. -/
def address (op : Instruction) (kind : Inner) (i : Nat) :
    Generate StorageOperand := do
  let (text, cursor) ← operandText i
  let (operand, problem) ← storageOperand op kind i text
  if let some problem := problem then report cursor problem
  if let some address := operand.address then noteAddress op i cursor address
  return operand

/-- Evaluates a register operand of the record, zero if it is wrong. -/
def registerField (i : Nat) : Generate Nat := do
  let (text, cursor) ← operandText i
  match ← register .plain text with
  | .ok r => return r.val
  | .error problem =>
    report cursor problem
    return 0

/-- Evaluates an immediate operand of the record, zero if it is wrong.  A whole
octet may also be negative. -/
def immediateField (i limit : Nat) : Generate Nat := do
  let (text, cursor) ← operandText i
  match ← absolute .plain text with
  | .error problem =>
    report cursor problem
    return 0
  | .ok n =>
    if limit = 0xFF ∧ -128 ≤ n ∧ n < 0 then return (n.toInt % 256).toNat
    else if n < 0 ∨ Int64.ofNat limit < n then
      report cursor (.oversizedValue limit n.toInt)
      return 0
    else return n.toInt.toNat

/-- The length field of a storage operand: one less than the length, zero for
the length zero. -/
def lengthField (operand : StorageOperand) (i limit : Nat) : Generate Nat := do
  let n := operand.inner.getD operand.length
  if n = 0 then return 0
  else if n < 0 ∨ Int64.ofNat limit < n then
    report ((← statement).operandCursor i) (.oversizedValue limit n.toInt)
    return 0
  else return n.toInt.toNat - 1

/-- The index register of a storage operand, zero if there is none. -/
def indexField (operand : StorageOperand) : Nat :=
  (operand.inner.getD 0).toInt.toNat

/-- The octets of the base registers and displacements of storage operands. -/
def addressOctets (operands : List StorageOperand) : Bytes :=
  operands.flatMap fun operand => baseDisplacement operand.choice

/-- The second octet of an instruction and the octets behind it. -/
def fields (op : Instruction) : Generate (Nat × Bytes) := do
  let implied := op.secondOctet.toNat
  match op.format with
  | .rr =>
    let r1 ← registerField 0
    let r2 ← registerField 1
    return (r1 * 16 + r2, [])
  | .rrSingle =>
    let r1 ← registerField 0
    return (r1 * 16, [])
  | .rrImmediate => return (← immediateField 0 0xFF, [])
  | .rrMask => return (implied + (← registerField 0), [])
  | .rx =>
    let r1 ← registerField 0
    let second ← address op .index 1
    return (r1 * 16 + indexField second, addressOctets [second])
  | .rxMask =>
    let second ← address op .index 0
    return (implied + indexField second, addressOctets [second])
  | .rs =>
    let r1 ← registerField 0
    let r3 ← registerField 1
    let second ← address op .base 2
    return (r1 * 16 + r3, addressOctets [second])
  | .rsShift =>
    let r1 ← registerField 0
    let second ← address op .base 1
    return (r1 * 16, addressOctets [second])
  | .si =>
    let first ← address op .base 0
    return (← immediateField 1 0xFF, addressOctets [first])
  | .s => return (implied, addressOctets [← address op .base 0])
  | .sNone => return (implied, [0, 0])
  | .ssLength =>
    let first ← address op .length 0
    let second ← address op .base 1
    return (← lengthField first 0 256, addressOctets [first, second])
  | .ssLengths =>
    let first ← address op .length 0
    let second ← address op .length 1
    let l1 ← lengthField first 0 16
    let l2 ← lengthField second 1 16
    return (l1 * 16 + l2, addressOctets [first, second])
  | .ssShift =>
    let first ← address op .length 0
    let second ← address op .base 1
    let l1 ← lengthField first 0 16
    let rounding ← immediateField 2 0x0F
    return (l1 * 16 + rounding, addressOctets [first, second])

/-- The octets of an instruction. -/
def instructionOctets (op : Instruction) : Generate Bytes := do
  if (← statement).operands.length < op.operandCount then return op.skeleton
  let (second, rest) ← fields op
  return op.skeleton.take 1 ++ [second.toUInt8] ++ rest

end Generate

end System370
