import System370.Constant.Encode
import System370.Layout.Basic

/-!
# Laying out instructions and constants

An instruction starts on an even location and takes as many octets as its format
says; literals among its operands join the pool of the section.  A storage
statement places its constants one behind the other, each on the boundary of its
type; the statement starts where its first constant does.  Operands that are
wrong are reported and left out.
-/

namespace System370

namespace Draft

/-- Makes the names of an external address constant known, up to the first that
is no symbol. -/
def registerExternals (d : Draft) (cursor : Cursor) : List Bytes → Bool × Draft
  | [] => (true, d)
  | nominal :: rest =>
    let name := toUpper nominal
    if isSymbol name then
      (d.mapSymbols (·.referenceExternal name
        d.statement.line)).registerExternals cursor rest
    else (false, d.report cursor (.invalidExpression nominal))

/-- Refuses a constant that has no octets, and marks the layout if its
conversion never comes to an end. -/
def refuse (d : Draft) (failure : Constant.Failure) (cursor : Cursor) : Draft :=
  let endless := d.layout.endless || failure = .endless
  { d with layout := { d.layout with endless } }.report cursor
    (.invalidConstant failure.cause)

/-- Checks the values of a constant as far as no address is needed. -/
def checkValues (d : Draft) (descriptor : Constant.Descriptor)
    (cursor : Cursor) : Bool × Draft :=
  if descriptor.kind = .externalAddress then
    d.registerExternals cursor descriptor.nominal
  else if descriptor.kind.isAddress then (true, d)
  else match descriptor.validation with
    | .ok () => (true, d)
    | .error failure => (false, d.refuse failure cursor)

/-- Notes that an operand of the instruction is a literal. -/
def bindLiteral (d : Draft) (operand id : Nat) : Draft :=
  match d.record.body with
  | .instruction op literals =>
    d.withBody (.instruction op (literals ++ [(operand, id)]))
  | _ => d

/-- Puts a literal into the pool of the section. -/
def internLiteral (d : Draft) (text : Bytes) (descriptor : Constant.Descriptor)
    (operand : Nat) :
    Draft :=
  let cursor := d.statement.operandCursor operand
  match d.layout.literals.intern d.record.sectionId text (some descriptor)
    d.statement.line with
  | .ok (literals, literal) =>
    { d with layout := { d.layout with literals } }.bindLiteral
      operand literal.id
  | .error (.outsideSection text) =>
    d.report cursor (.literalOutsideSection text)
  | .error (.tooMany limit) => d.report cursor (.tooManyLiterals limit)

/-- Lays out an operand that is a literal. -/
def layOutLiteral (d : Draft) (operand : Nat) (text : Bytes) : Draft :=
  let cursor := d.statement.operandCursor operand
  let (outcome, d) := d.parseConstant text.tail
  match outcome with
  | .error problem => d.report cursor problem
  | .ok descriptor =>
    if descriptor.nominal = [] ∨ descriptor.size = 0 then
      d.report cursor .invalidTerm
    else
      let (accepted, d) := d.checkValues descriptor cursor
      if accepted then d.internLiteral text descriptor operand else d

/-- Lays out the literals among the operands of an instruction. -/
def layOutLiterals (d : Draft) (op : Instruction) : Draft :=
  d.statement.numbered.foldl
    (fun d (i, text) =>
      if text.head? = some (octet '=') ∧ op.format.isStorageOperand i then
        d.layOutLiteral i text
      else d) d

/-- Lays out an instruction. -/
def layOutInstruction (d : Draft) (op : Instruction) : Draft :=
  let d := d.ensureSection
  let loc := alignUp d.loc 2
  let length := Int64.ofNat op.length
  let d := { d with record :=
    { d.record with body := .instruction op [], loc, length } }
  let d := (d.setLoc (loc + length)).defineLabel loc length (octet 'I')
  let required := op.operandCount
  let received := d.statement.operands.length
  if d.record.errored ∨ required = 0 then d
  else if received < required then
    d.report d.statement.operandsCursor (.missingOperand required received)
  else if required < received then
    d.report (d.statement.operandCursor required)
      (.operandCount required received)
  else d.layOutLiterals op

/-- Checks an operand of a data constant, which needs values. -/
def acceptData (d : Draft) (descriptor : Constant.Descriptor)
    (cursor : Cursor) : Bool × Draft :=
  if descriptor.nominal = [] then
    (false, d.report cursor (.invalidConstant .missingNominal))
  else d.checkValues descriptor cursor

/-- The constants laid out so far. -/
def parts (d : Draft) : List (Constant.Descriptor × Int64) :=
  match d.record.body with
  | .storage parts => parts
  | _ => []

/-- Places a constant at a location on its boundary.  The first one gives the
statement its location and its label a meaning. -/
def placeConstant (d : Draft) (descriptor : Constant.Descriptor)
    (loc : Int64) : Draft :=
  let d :=
    if d.parts = [] then
      (d.withLoc loc).defineLabel loc (Int64.ofNat descriptor.lengthAttribute)
        descriptor.kind.letter
    else d
  d.withBody (.storage (d.parts ++ [(descriptor, loc - d.record.loc)]))

/-- Lays out one operand of a storage statement, and gives the location behind
it. -/
def layOutConstant (isData : Bool) (state : Draft × Int64)
    (operand : Nat × Bytes) : Draft × Int64 :=
  let (d, loc) := state
  let cursor := d.statement.operandCursor operand.1
  let (outcome, d) := d.parseConstant operand.2
  match outcome with
  | .error problem => (d.report cursor problem, loc)
  | .ok descriptor =>
    let (accepted, d) :=
      if isData then d.acceptData descriptor cursor else (true, d)
    if accepted then
      let loc := alignUp loc (Int64.ofNat descriptor.alignment)
      (d.placeConstant descriptor loc, loc + Int64.ofNat descriptor.size)
    else (d, loc)

/-- Lays out a storage statement.  Only a data statement needs values. -/
def layOutStorage (d : Draft) (isData : Bool) : Draft :=
  let d := d.ensureSection.withBody (.storage [])
  if d.statement.operands = [] then
    (d.report d.statement.mnemonicCursor (.missingOperand 1 0)).defineMark d.loc
  else
    let (d, behind) :=
      d.statement.numbered.foldl (layOutConstant isData) (d, d.loc)
    if d.parts = [] then d.defineMark d.loc
    else
      { d with record :=
          { d.record with length := behind - d.record.loc } }.setLoc behind

end Draft

end System370
