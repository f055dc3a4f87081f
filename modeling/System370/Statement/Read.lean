import System370.Scan
import System370.Statement.Basic
import System370.Text.Blank
import System370.Text.LetterCase

/-!
# Reading statements

Source lines have a fixed format.  Columns 1 to 71 hold the statement; a
character in column 72 continues it on the next line from column 16; the columns
behind are not looked at.  A line that is blank or begins with `*` or `.*` is a
comment.

A label begins in column 1, and blanks divide it from the mnemonic and the
mnemonic from the operand field.  The field ends at the first blank outside
strings.  It goes on with the next line of the statement if it reaches the end
of its line, or if a comma stands before the blank.

* `Statement.readAll` reads a source, unless one of its lines is too long.
-/

namespace System370

/-- A source line that is too long to be read. -/
inductive ReadError where
  | lineTooLong
  deriving DecidableEq, Repr

/-- The text of the failure. -/
def ReadError.message : ReadError → Bytes
  | lineTooLong => bytes "bufio.Scanner: token too long"

/-- A line of the source. -/
structure Line where
  number : Nat
  /-- The offset in the source. -/
  start : Nat
  /-- The line as written, without its end. -/
  raw : Bytes
  deriving DecidableEq, Repr

namespace Line

/-- The greatest number of octets of a line. -/
def maxLength : Nat := 65535

/-- The last column of a statement. -/
def lastColumn : Nat := 71

/-- The column where a continued statement goes on. -/
def continueColumn : Nat := 16

/-- The line with blanks for tabs. -/
def blanked (l : Line) : Bytes := l.raw.map fun c => if c = 0x09 then
  blank else c

/-- The columns of the statement. -/
def text (l : Line) : Bytes := l.blanked.take lastColumn

/-- Whether the next line belongs to the same statement. -/
def isContinued (l : Line) : Bool := l.blanked[lastColumn]?.any (· ≠ blank)

/-- The line without one carriage return at its end. -/
def dropReturn (piece : Bytes) : Bytes :=
  if piece.getLast? = some 0x0D then piece.dropLast else piece

/-- Lines in order.  One carriage return belongs to the end of a line and is not
counted in offsets; further ones are dropped from the text only. -/
def enumerate (n start : Nat) : List Bytes → List Line
  | [] => []
  | piece :: rest =>
    let piece := dropReturn piece
    ⟨n, start, Bytes.dropRightWhile (· = 0x0D) piece⟩ ::
      enumerate (n + 1) (start + piece.length + 1) rest

/-- The lines of a source; the end of the source also ends a line. -/
def ofSource (source : Bytes) : Except ReadError (List Line) :=
  let pieces := Bytes.splitOn 0x0A source
  let pieces := if pieces.getLast? = some [] then pieces.dropLast else pieces
  if pieces.any fun piece => maxLength < piece.length then .error .lineTooLong
  else .ok (enumerate 1 0 pieces)

/-- The lines of each statement: a line and those that continue it. -/
def group (lines : List Line) : List (List Line) :=
  lines.foldr
    (fun line groups =>
      if line.isContinued then
        match groups with
        | [] => [[line]]
        | g :: rest => (line :: g) :: rest
      else [line] :: groups) []

end Line

/-- A stretch of source text that may belong to an operand field. -/
structure Segment where
  text : Bytes
  line : Nat
  column : Nat
  lineByte : Nat
  deriving DecidableEq, Repr

namespace Segment

/-- The part of a line from a column on, which counts from one. -/
def ofLine (l : Line) (column : Nat) : Segment :=
  ⟨l.text.drop (column - 1), l.number, column, l.start⟩

/-- The segment behind its leading blanks. -/
def skipBlanks (s : Segment) : Segment :=
  { s with
    text := s.text.dropWhile (· = blank)
    column := s.column + (s.text.takeWhile (· = blank)).length }

end Segment

/-- An operand field in the making. -/
structure OperandField.Scanned where
  /-- The field so far, nearest octet first. -/
  before : Bytes
  state : Scan.Quoting
  /-- Whether the last segment ended at a blank. -/
  stopped : Bool := false
  spans : List Span := []

/-- Takes octets into the field until a blank outside strings. -/
def OperandField.scanText (before : Bytes) (state : Scan.Quoting) :
    Bytes → OperandField.Scanned
  | [] => ⟨before, state, false, []⟩
  | c :: rest =>
    if state = .outside ∧ c = blank then ⟨before, state, true, []⟩
    else scanText (c :: before) (state.step before rest.head? c).2 rest

/-- Collects the field from segments. -/
def OperandField.scan (before : Bytes) (state : Scan.Quoting) (skip : Bool) :
    List Segment → OperandField.Scanned
  | [] => ⟨before, state, skip, []⟩
  | s :: rest =>
    let s := if skip then s.skipBlanks else s
    let span : Span := ⟨before.length, s.line, s.column, s.lineByte⟩
    let scanned := scanText before state s.text
    if scanned.stopped = false ∨ scanned.before.head? = some comma then
      let field := scan scanned.before scanned.state scanned.stopped rest
      { field with spans := span :: field.spans }
    else { scanned with spans := [span] }

namespace Statement

/-- The operand field cut at its commas.  A closing parenthesis too many leaves
the operands before it, a missing one leaves none. -/
def splitOperands (s : Statement) : Statement :=
  match Scan.splitAtCommas s.operand with
  | (operands, .balanced) => { s with operands }
  | (operands, .excess offset) =>
    { s with
      operands, faults := [⟨s.cursorAt offset 1, .unbalancedParentheses⟩] }
  | (_, .missing) =>
    { s with faults := [⟨s.fieldCursor, .unbalancedParentheses⟩] }

/-- The statement with the operand field that its segments hold. -/
def withOperand (s : Statement) (segments : List Segment) : Statement :=
  match segments with
  | [] => s
  | first :: _ =>
    if first.text = [] then s
    else
      let field := OperandField.scan [] .outside false segments
      let s := { s with operand := field.before.reverse, spans := field.spans }
      if field.state ≠ .outside then
        { s with faults := [⟨s.fieldCursor, .unterminatedString⟩] }
      else s.splitOperands

/-- Whether a line is a comment, given its statement columns. -/
def isCommentText (text : Bytes) : Bool :=
  isBlank text || Bytes.startsWith text (bytes "*") ||
    Bytes.startsWith text (bytes ".*")

/-- The statement of a line and those that continue it. -/
def ofLines (first : Line) (rest : List Line) : Statement :=
  let text := first.text
  let isName := fun c : UInt8 => decide (c ≠ blank)
  let isGap := fun c : UInt8 => decide (c = blank)
  let s : Statement :=
    { line := first.number
      lines := (first :: rest).map (·.raw)
      position := ⟨first.number, 1, first.start, first.raw.length,
        first.start⟩ }
  if isCommentText text then { s with isComment := true }
  else
    let label := text.takeWhile isName
    let behind := text.drop label.length
    let start := label.length + (behind.takeWhile isGap).length
    let behind := behind.dropWhile isGap
    let mnemonic := behind.takeWhile isName
    let after := behind.drop mnemonic.length
    let operandColumn :=
      start + mnemonic.length + (after.takeWhile isGap).length + 1
    let s := { s with
      label, mnemonic := toUpper mnemonic, mnemonicColumn := start + 1 }
    if mnemonic = [] then s
    else
      s.withOperand
        (Segment.ofLine first operandColumn ::
          rest.map fun l => Segment.ofLine l Line.continueColumn)

/-- The statements of a source. -/
def readAll (source : Bytes) : Except ReadError (List Statement) :=
  (Line.ofSource source).map fun lines =>
    (Line.group lines).filterMap fun g =>
      match g with
      | [] => none
      | first :: rest => some (ofLines first rest)

end Statement

end System370
