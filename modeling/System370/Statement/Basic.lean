import System370.Diagnostic

/-!
# Statements

A statement has a label, a mnemonic and an operand field, which may have been
collected from several lines.  The operand field is the list of operands with
commas between them.  Spans remember which line and column every stretch of the
field came from, so that a problem can be shown where it is.
-/

namespace System370

/-- Where a stretch of the operand field begins in the source. -/
structure Span where
  /-- The offset in the operand field. -/
  start : Nat
  line : Nat
  column : Nat
  lineByte : Nat
  deriving DecidableEq, Repr

/-- A statement of the source. -/
structure Statement where
  line : Nat
  /-- The lines of the statement as written. -/
  lines : List Bytes
  /-- The first line as a whole. -/
  position : Cursor
  isComment : Bool := false
  label : Bytes := []
  /-- In capitals. -/
  mnemonic : Bytes := []
  mnemonicColumn : Nat := 1
  operand : Bytes := []
  /-- The operands; not all of them if the field could not be split. -/
  operands : List Bytes := []
  spans : List Span := []
  /-- Why the operand field could not be split. -/
  faults : List Diagnostic := []
  deriving DecidableEq, Repr

namespace Statement

/-- The place of the label. -/
def labelCursor (s : Statement) : Cursor where
  line := s.line
  column := 1
  byte := s.position.lineByte
  size := s.label.length
  lineByte := s.position.lineByte

/-- The place of one character of the label. -/
def labelCharCursor (s : Statement) (i : Nat) : Cursor :=
  { s.labelCursor with
    column := i + 1, byte := s.position.lineByte + i, size := 1 }

/-- The place of the mnemonic. -/
def mnemonicCursor (s : Statement) : Cursor where
  line := s.line
  column := s.mnemonicColumn
  byte := s.position.lineByte + (s.mnemonicColumn - 1)
  size := s.mnemonic.length
  lineByte := s.position.lineByte

/-- The place of `size` octets at an offset of the operand field: the last span
that begins at or before the offset holds it. -/
def cursorAt (s : Statement) (offset size : Nat) : Cursor :=
  match s.spans with
  | [] => s.mnemonicCursor
  | first :: rest =>
    let span := rest.foldl (fun found span => if span.start ≤ offset then
      span else found) first
    let column := span.column + offset - span.start
    { line := span.line
      column
      byte := span.lineByte + (column - 1)
      size
      lineByte := span.lineByte }

/-- The offset of an operand in the operand field: the operands before it, each
with its comma. -/
def operandOffset (s : Statement) (i : Nat) : Nat :=
  ((s.operands.take i).flatMap (· ++ [comma])).length

/-- The place of the whole operand field. -/
def fieldCursor (s : Statement) : Cursor := s.cursorAt 0 s.operand.length

/-- The place of an operand, or of the whole field if there is no such
operand. -/
def operandCursor (s : Statement) (i : Nat) : Cursor :=
  match s.operands[i]? with
  | some operand => s.cursorAt (s.operandOffset i) operand.length
  | none => s.fieldCursor

/-- The place of the operands, of the mnemonic if there are none. -/
def operandsCursor (s : Statement) : Cursor :=
  if s.operand = [] then s.mnemonicCursor else s.fieldCursor

/-- The place, text and number of every operand. -/
def numbered (s : Statement) : List (Nat × Bytes) :=
  (List.range s.operands.length).zip s.operands

end Statement

end System370
