import System370.Layout.Directive

/-!
# Laying out a program

A statement is an instruction, a directive or a mere label.  Behind the end
statement nothing counts any more.  The end statement places the literals that
still wait, section by section; if it is missing it is supplied.

Equates may name symbols that are defined further down.  They wait until all
statements are laid out, and are then settled in rounds, for as long as a round
settles any (`Layout.settleAll`).  Then the sections are placed and every record
moves along with its section (`Program.normalize`).

* `Program.ofStatements` is the whole of it.
-/

namespace System370

/-- A program whose statements have their places. -/
structure Program where
  layout : Layout
  records : List Record
  deriving DecidableEq, Repr

namespace Layout

/-- The record of the literals that wait in a section, placed at the end of the
section, or at the location counter of the current one. -/
def flushSection (l : Layout) (statement : Statement) (id : Int) :
    Layout × Option Record :=
  match l.symbols.section? id with
  | none => (l, none)
  | some s =>
    let loc := if l.symbols.current = some id then s.loc else s.length
    let flushed := l.literals.flush id loc
    match flushed.placed with
    | [] => (l, none)
    | placed =>
      let start := alignUp loc 8
      ({ l with
          literals := flushed.pool
          symbols := l.symbols.modifySection id (·.setLoc flushed.behind) },
        some
          { statement
            body := .pool (placed.map (·.id))
            sectionId := id
            loc := start
            length := flushed.behind - start })

/-- The records of the literals that wait in some sections. -/
def flushSections (l : Layout) (statement : Statement) :
    List Int → Layout × List Record
  | [] => (l, [])
  | id :: rest =>
    let (l, pool) := l.flushSection statement id
    let (l, pools) := l.flushSections statement rest
    (l, pool.toList ++ pools)

/-- Lays out the end statement: the literals that still wait, then the record of
the statement itself. -/
def layOutEnd (d : Draft) : Layout × List Record :=
  let d := d.locate.withBody .located
  let l := { d.layout with ended := true }
  let (l, pools) := l.flushSections d.statement l.literals.waitingSections
  let loc := match l.symbols.currentSection? with
    | some s => if s.id = d.record.sectionId then s.loc else d.record.loc
    | none => d.record.loc
  (l, pools ++ [{ d.record with loc }])

/-- Lays out a statement by its mnemonic.  A directive whose operands could not
be split only keeps its place. -/
def layOutStatement (d : Draft) : Layout × List Record :=
  let single := fun d : Draft => (d.layout, [d.record])
  let mnemonic := d.statement.mnemonic
  if mnemonic = [] then single d.layOutMark
  else match Instruction.find? mnemonic with
    | some op => single (d.layOutInstruction op)
    | none =>
      match Directive.ofMnemonic? mnemonic with
      | some directive =>
        let d :=
          { d with record := { d.record with directive := some directive } }
        if directive = .ending then layOutEnd d
        else if d.record.errored then single d.locate
        else single (d.layOutDirective directive)
      | none =>
        if d.record.errored then single d
        else
          single (d.report d.statement.mnemonicCursor
            (.unknownMnemonic mnemonic)).layOutMark

/-- Lays out one statement. -/
def step (l : Layout) (statement : Statement) : Layout × List Record :=
  let l := { l with diagnostics := l.diagnostics ++ statement.faults }
  if statement.isComment then (l, [{ statement }])
  else if l.ended then
    let l := if l.afterEnd then l else l.report ⟨statement.position, .afterEnd⟩
    ({ l with afterEnd := true }, [{ statement }])
  else
    let errored := statement.faults.any (·.severity.isError)
    layOutStatement (Draft.mk l { statement, errored }).checkLabel

/-- Lays out statements one after the other. -/
def run (l : Layout) : List Statement → Layout × List Record
  | [] => (l, [])
  | statement :: rest =>
    let (l, records) := l.step statement
    let (l, others) := l.run rest
    (l, records ++ others)

/-- The end statement that is supplied on a line. -/
def suppliedEnd (line : Nat) : Statement where
  line := line
  lines := [bytes "         END"]
  position := ⟨line, 1, 0, 0, 0⟩
  mnemonic := bytes "END"

/-- Supplies the end statement behind all others if it is missing. -/
def supplyEnd (l : Layout) (statements : List Statement) :
    Layout × List Record :=
  if l.ended then (l, [])
  else
    let (cursor, line) : Cursor × Nat := match statements.getLast? with
      | some last => (last.position, last.line + last.lines.length)
      | none => (⟨1, 1, 0, 0, 0⟩, 1)
    (l.report ⟨cursor, .missingEnd⟩).step (suppliedEnd line)

/-- Whether a record is an equate that waits. -/
def isWaiting (r : Record) : Bool :=
  match r.body with
  | .equate _ waiting => waiting
  | _ => false

/-- Tries to settle every equate that waits, from the first to the last. -/
def settleRound (last : Bool) (l : Layout) : List Record → Layout × List Record
  | [] => (l, [])
  | r :: rest =>
    let d : Draft := ⟨l, r⟩
    let d := if isWaiting r then d.settle last else d
    let (l, others) := settleRound last d.layout rest
    (l, d.record :: others)

/-- Settles equates in rounds.  A round that settles none is the last: what it
leaves is reported. -/
def settleAll : Nat → Layout → List Record → Layout × List Record
  | 0, l, records => (l, records)
  | fuel + 1, l, records =>
    let waiting := records.countP isWaiting
    if waiting = 0 then (l, records)
    else
      let (l, records) := settleRound false l records
      if records.countP isWaiting = waiting then settleRound true l records
      else settleAll fuel l records

end Layout

namespace Program

/-- A record moved along with its section. -/
def moveRecord (t : SymbolTable) (r : Record) : Record :=
  let body := match r.body with
    | .equate value waiting => .equate (t.relocate value) waiting
    | body => body
  { r with body, loc := if 0 < r.sectionId then
    r.loc + t.offset r.sectionId else r.loc }

/-- Places the sections and moves everything in them. -/
def normalize (p : Program) : Program :=
  let symbols := p.layout.symbols.normalize
  let literals := p.layout.literals.relocate symbols.offset
  { layout := { p.layout with symbols, literals }
    records := p.records.map (moveRecord symbols) }

/-- Lays out the statements of a program, each section from the location zero
on. -/
def unplaced (options : Options) (statements : List Statement) : Program :=
  let (l, records) := (Layout.new options).run statements
  let (l, supplied) := l.supplyEnd statements
  let records := records ++ supplied
  let (layout, records) := Layout.settleAll (records.length + 1) l records
  ⟨layout, records⟩

/-- Lays out the statements of a program and places its sections. -/
def ofStatements (options : Options) (statements : List Statement) : Program :=
  (unplaced options statements).normalize

end Program

end System370
