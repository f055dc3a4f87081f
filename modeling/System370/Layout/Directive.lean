import System370.Layout.Storage

/-!
# Laying out directives

The rules for the statements to the assembler: sections, equates, origins,
alignment, pools, linkage and modes.
-/

namespace System370

namespace Draft

/-- The value of an equate and its length attribute, or what is wrong and where.
Nothing is recorded as read. -/
def equateValue (d : Draft) : Except Diagnostic Expression.Result :=
  let s := d.statement
  let table := d.layout.symbols
  match (Expression.evaluate table d.record.place (s.operands.headD [])).result
    with
  | .error problem => .error ⟨s.operandCursor 0, problem⟩
  | .ok result =>
    match s.operands[1]?.filter (· ≠ []) with
    | none => .ok result
    | some text =>
      match (Expression.absolute table d.record.place text).result with
      | .error problem => .error ⟨s.operandCursor 1, problem⟩
      | .ok length => .ok { result with length }

/-- Whether a problem may go away when more symbols are defined. -/
def isUndefined : Problem → Bool
  | .undefinedSymbol _ => true
  | _ => false

/-- Defines the label of an equate.  Unless this is the `last` attempt, an
equate whose symbols are not all defined waits. -/
def settle (d : Draft) (last : Bool) : Draft :=
  match d.equateValue with
  | .error e =>
    if isUndefined e.problem && !last then
      d.withBody (.equate (.absolute 0) true)
    else (d.withBody (.equate (.absolute 0) false)).report e.cursor e.problem
  | .ok result =>
    (d.withBody (.equate result.value false)).define d.record.label
      ⟨result.value, result.length, plainKind, d.statement.line⟩

/-- Reports that a statement has no label, unless its label is malformed. -/
def requireLabel (d : Draft) : Draft :=
  if d.statement.label = [] then
    d.report d.statement.mnemonicCursor (.missingLabel d.statement.mnemonic)
  else d

/-- Lays out an equate. -/
def layOutEquate (d : Draft) : Draft :=
  let d := d.locate.withBody (.equate (.absolute 0) false)
  if d.record.label = [] then d.requireLabel
  else if d.statement.operands = [] then
    d.report d.statement.mnemonicCursor (.missingOperand 1 0)
  else d.settle false

/-- Moves the location counter to a place of the current section. -/
def moveTo (d : Draft) (target : Int64) : Draft :=
  ((d.setLoc target).withLoc target).defineMark target

/-- Lays out an origin: the place that its operand names, or the highest
location reached so far. -/
def layOutOrigin (d : Draft) : Draft :=
  let d := d.ensureSection.withBody .located
  match d.statement.operands.head?.filter (· ≠ []) with
  | none => d.moveTo ((d.currentSection?.map (·.length)).getD 0)
  | some text =>
    let cursor := d.statement.operandCursor 0
    let (outcome, d) := d.evaluate text
    match outcome with
    | .error problem => d.report cursor problem
    | .ok result =>
      if result.value.sectionId ≠ d.record.sectionId ∨
        result.value.number < 0 then
        d.report cursor
          (.invalidOperand [.relocatable] (Expression.classOf result.value))
      else d.moveTo result.value.number

/-- The first location whose remainder by `width` is `offset`, counting on from
`loc`; behind the greatest location counting goes on with the least one.
Remainders have the sign of the location, so that below zero only the offset
zero is met. -/
def alignTo (loc offset width : Int64) : Int64 :=
  let target := loc + (offset - loc % width + width) % width
  if offset ≠ 0 ∧ (loc < 0 ∨ target < 0) then offset else target

/-- Evaluates two absolute operands; the first problem ends it. -/
def absolutePair (d : Draft) (a b : Bytes) :
    Except Diagnostic (Int64 × Int64) × Draft :=
  let (first, d) := d.absolute a
  match first with
  | .error problem => (.error ⟨d.statement.operandCursor 0, problem⟩, d)
  | .ok m =>
    let (second, d) := d.absolute b
    match second with
    | .error problem => (.error ⟨d.statement.operandCursor 1, problem⟩, d)
    | .ok n => (.ok (m, n), d)

/-- Lays out a conditional no-operation, which fills up to an offset inside a
word or doubleword. -/
def layOutAlignment (d : Draft) : Draft :=
  let d := d.ensureSection.withBody .located
  match d.statement.operands with
  | [a, b] =>
    let (outcome, d) := d.absolutePair a b
    match outcome with
    | .error e => d.report e.cursor e.problem
    | .ok (offset, width) =>
      if width ≠ 4 ∧ width ≠ 8 then
        d.report (d.statement.operandCursor 1) .invalidTerm
      else if offset < 0 ∨ width ≤ offset ∨ offset % 2 ≠ 0 then
        d.report (d.statement.operandCursor 0) .invalidTerm
      else
        let target := alignTo d.loc offset width
        let d := { d with record := { d.record with length := target - d.loc } }
        (d.setLoc target).defineMark target
  | operands =>
    let received := operands.length
    if received < 2 then
      d.report d.statement.operandsCursor (.missingOperand 2 received)
    else d.report (d.statement.operandCursor 2) (.operandCount 2 received)

/-- Lays out the literals that wait in the current section. -/
def layOutPool (d : Draft) : Draft :=
  let d := d.ensureSection
  let loc := d.loc
  let flushed := d.layout.literals.flush d.record.sectionId loc
  let d := { d with layout := { d.layout with literals := flushed.pool } }
  match flushed.placed with
  | [] => (d.withBody .located).defineMark loc
  | placed =>
    let start := alignUp loc 8
    let body := .pool (placed.map (·.id))
    let d := { d with record :=
      { d.record with body, loc := start, length := flushed.behind - start } }
    (d.setLoc flushed.behind).defineMark start

/-- Starts a section at the location that its operand gives. -/
def startAt (d : Draft) (text : Bytes) : Draft :=
  let cursor := d.statement.operandCursor 0
  let (outcome, d) := d.absolute text
  match outcome with
  | .error problem => d.report cursor problem
  | .ok origin =>
    if origin < 0 then d.report cursor .invalidTerm
    else
      let origin := alignUp origin 8
      let value := Value.relocatable origin d.record.sectionId
      let d := (d.setLoc origin).withLoc origin
      if d.record.label = [] then d else
        d.mapSymbols (·.move d.record.label value)

/-- Opens a section. -/
def openSection (d : Draft) (kind : SectionKind) : Draft :=
  match d.layout.symbols.openSection d.record.label kind d.statement.line with
  | .error _ =>
    d.report d.statement.labelCursor (.redeclaredLabel d.record.label)
  | .ok t => ((d.mapSymbols fun _ => t).withBody .located).locate

/-- Lays out a section statement.  Only the first part of a section can have a
starting location. -/
def layOutSection (d : Draft) (directive : Directive) : Draft :=
  if directive = .dsect then
    if d.record.label = [] then d.requireLabel else d.openSection .dummy
  else
    let opened :=
      d.openSection (if d.record.label = [] then .unnamed else .named)
    match opened.record.body, d.statement.operands with
    | .located, text :: _ =>
      if directive = .start ∧ opened.currentSection?.all (!·.continued) then
        opened.startAt text
      else opened
    | _, _ => opened

/-- Handles each operand as a name.  An operand that is no symbol is
reported. -/
def forEachName (d : Draft) (handle : Draft → Cursor → Bytes → Draft) : Draft :=
  if d.statement.operands = [] then
    d.report d.statement.mnemonicCursor (.missingOperand 1 0)
  else
    d.statement.numbered.foldl
      (fun d (i, operand) =>
        let cursor := d.statement.operandCursor i
        let name := toUpper operand
        if isSymbol name then handle d cursor name
        else d.report cursor (.invalidExpression operand)) d

/-- Offers a name to other assemblies. -/
def offer (d : Draft) (cursor : Cursor) (name : Bytes) : Draft :=
  let d := (d.mapSymbols (·.addEntry name d.statement.line)).reference [name]
  if d.layout.entryCursors.any (·.1 = name) then d
  else { d with layout :=
      { d.layout with entryCursors :=
        d.layout.entryCursors ++ [(name, cursor)] } }

/-- Declares an external symbol. -/
def declare (weak : Bool) (d : Draft) (cursor : Cursor)
    (name : Bytes) : Draft :=
  match d.layout.symbols.declareExternal name weak d.statement.line with
  | .ok t => d.mapSymbols fun _ => t
  | .error _ => d.report cursor (.redeclaredLabel name)

/-- Sets a mode of a section. -/
def setMode (modes : List (Bytes × Modes)) (label : Bytes) (f : Modes → Modes) :
    List (Bytes × Modes) :=
  if modes.any (·.1 = label) then modes.map fun m => if m.1 = label then
    (label, f m.2) else m
  else modes ++ [(label, f {})]

/-- Lays out a mode statement. -/
def layOutMode (d : Draft) (isAddressing : Bool) : Draft :=
  match d.statement.operands with
  | [operand] =>
    let mode := toUpper operand
    let valid := if isAddressing then validAddressingMode mode else
      validResidenceMode mode
    if valid then
      let set := fun m : Modes =>
        if isAddressing then { m with addressing := mode } else
          { m with residence := mode }
      { d with layout :=
        { d.layout with modes := setMode d.layout.modes d.record.label set } }
    else d.report (d.statement.operandCursor 0) (.invalidExpression operand)
  | operands => d.report d.statement.operandsCursor
    (.operandCount 1 operands.length)

/-- Lays out a title, whose label may name the deck. -/
def layOutTitle (d : Draft) : Draft :=
  if d.layout.deckId = [] then
    { d with layout := { d.layout with deckId := d.record.label } } else d

/-- Lays out a statement that is only a place for its label. -/
def layOutMark (d : Draft) : Draft :=
  let d := d.ensureSection.withBody .located
  d.defineMark d.loc

/-- Lays out a directive other than the end. -/
def layOutDirective (d : Draft) (directive : Directive) : Draft :=
  match directive with
  | .start | .csect | .rsect | .dsect => d.layOutSection directive
  | .dc => d.layOutStorage true
  | .ds => d.layOutStorage false
  | .equ => d.layOutEquate
  | .org => d.layOutOrigin
  | .cnop => d.layOutAlignment
  | .ltorg => d.layOutPool
  | .use =>
    let d := d.locate.withBody .located
    let received := d.statement.operands.length
    if received < 2 then
      d.report d.statement.operandsCursor (.missingOperand 2 received) else d
  | .drop => d.locate.withBody .located
  | .entry => (d.locate.withBody .located).forEachName offer
  | .extrn => (d.withBody .located).forEachName (declare false)
  | .wxtrn => (d.withBody .located).forEachName (declare true)
  | .amode => d.layOutMode true
  | .rmode => d.layOutMode false
  | .title => d.layOutTitle
  | .ending | .eject | .space | .print => d

end Draft

end System370
