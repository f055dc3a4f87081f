import System370.Bytes

/-!
# Directives

The statements that are no machine instructions, by name.
-/

namespace System370

/-- A statement to the assembler. -/
inductive Directive where
  | start
  | csect
  | rsect
  | dsect
  | dc
  | ds
  | equ
  | org
  | cnop
  | ltorg
  | use
  | drop
  | entry
  | extrn
  | wxtrn
  | amode
  | rmode
  | ending
  | title
  | eject
  | space
  | print
  deriving DecidableEq, Repr

namespace Directive

/-- The mnemonics of the directives. -/
def names : List (Directive × Bytes) :=
  [(start, bytes "START"), (csect, bytes "CSECT"), (rsect, bytes "RSECT"),
    (dsect, bytes "DSECT"),
    (dc, bytes "DC"), (ds, bytes "DS"), (equ, bytes "EQU"), (org, bytes "ORG"),
    (cnop, bytes "CNOP"), (ltorg, bytes "LTORG"), (use, bytes "USING"),
    (drop, bytes "DROP"),
    (entry, bytes "ENTRY"), (extrn, bytes "EXTRN"), (wxtrn, bytes "WXTRN"),
    (amode, bytes "AMODE"), (rmode, bytes "RMODE"), (ending, bytes "END"),
    (title, bytes "TITLE"), (eject, bytes "EJECT"), (space, bytes "SPACE"),
    (print, bytes "PRINT")]

/-- The mnemonic of a directive. -/
def name (d : Directive) : Bytes :=
  match names.find? (·.1 = d) with
  | some (_, text) => text
  | none => []

/-- The directive of a mnemonic in capitals. -/
def ofMnemonic? (mnemonic : Bytes) : Option Directive :=
  (names.find? (·.2 = mnemonic)).map (·.1)

end Directive

end System370
