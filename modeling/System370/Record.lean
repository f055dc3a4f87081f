import System370.Directive
import System370.Expression
import System370.Instruction
import System370.Statement.Basic

/-!
# Records

A record is a statement together with what the assembler made of it: the place
it occupies and what it will generate.  Locations are relative to their section
until the sections are placed, and addresses of the module from then on.
-/

namespace System370

/-- What a record stands for. -/
inductive Record.Body where
  /-- Nothing at all. -/
  | comment
  /-- Only a location. -/
  | located
  /-- Constants, each at an offset from the location. -/
  | storage (parts : List (Constant.Descriptor × Int64))
  /-- A symbol for a value; `waiting` until the symbols it needs are defined. -/
  | equate (value : Value) (waiting : Bool)
  /-- An instruction, with the literals of its operands: pairs of the number of
  an operand and the id of a literal. -/
  | instruction (op : Instruction) (literals : List (Nat × Nat))
  /-- Literals, by their ids. -/
  | pool (literals : List Nat)
  deriving DecidableEq, Repr

/-- A statement and what became of it. -/
structure Record where
  statement : Statement
  directive : Option Directive := none
  body : Record.Body := .comment
  /-- The section, zero for none. -/
  sectionId : Int := 0
  loc : Int64 := 0
  length : Int64 := 0
  /-- The label in capitals, empty if it is missing or malformed. -/
  label : Bytes := []
  /-- The code generated, if the record got that far. -/
  object : Option Bytes := none
  /-- The address of the first storage operand, if a base register gave it. -/
  firstAddress : Option Int64 := none
  /-- The address of the second storage operand, if a base register gave it. -/
  secondAddress : Option Int64 := none
  /-- Whether an error keeps the record from generating anything. -/
  errored : Bool := false
  deriving DecidableEq, Repr

namespace Record

/-- The instruction of a record. -/
def instruction? (r : Record) : Option Instruction :=
  match r.body with
  | .instruction op _ => some op
  | _ => none

/-- Where the expressions of a record stand. -/
def place (r : Record) : Expression.Place where
  sectionId := r.sectionId
  loc := r.loc
  length := match r.instruction? with
    | some op => Int64.ofNat op.length
    | none => 1

/-- The name of the sort of a record. -/
def sort (r : Record) : Bytes :=
  match r.body with
  | .comment => bytes "COMMENT"
  | .located => bytes "LOCATED"
  | .storage _ => bytes "STORAGE"
  | .equate .. => bytes "EQUATE"
  | .instruction .. => bytes "INSTRUCTION"
  | .pool _ => bytes "POOL"

end Record

end System370
