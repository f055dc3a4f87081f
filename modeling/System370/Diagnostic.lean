import System370.Constant.Basic

/-!
# Diagnostics

A diagnostic says what is wrong with a statement and where.  Each kind of
problem has a number and a severity, which together make the code of the
message; the severity decides whether the statement generates code and whether
the assembly produces a deck.

* `Cursor` is a place in the source;
* `Problem.message` is the text of a problem, `Diagnostic.message` the text with
  its place.
-/

namespace System370

/-- A place in the source: a line, a column counted from one, the offset of that
column in the source, the number of octets meant, and the offset of the line. -/
structure Cursor where
  line : Nat
  column : Nat
  byte : Nat := 0
  size : Nat := 0
  lineByte : Nat := 0
  deriving DecidableEq, Repr

/-- How bad a problem is. -/
inductive Severity where
  | none
  | informational
  | notify
  | warning
  | error
  | severe
  deriving DecidableEq, Repr

namespace Severity

/-- The position in the order of badness. -/
def rank : Severity → Nat
  | none => 0
  | informational => 1
  | notify => 2
  | warning => 3
  | error => 4
  | severe => 5

/-- The word for a severity. -/
def name : Severity → Bytes
  | none => bytes "None"
  | informational => bytes "Informational"
  | notify => bytes "Notify"
  | warning => bytes "Warning"
  | error => bytes "Error"
  | severe => bytes "Severe"

/-- The letter of a severity in message codes. -/
def letter : Severity → UInt8
  | none => blank
  | informational => octet 'I'
  | notify => octet 'N'
  | warning => octet 'W'
  | error => octet 'E'
  | severe => octet 'S'

/-- The return code of an assembly whose worst problem has this severity. -/
def returnCode : Severity → Nat
  | notify => 2
  | warning => 4
  | error => 8
  | severe => 12
  | _ => 0

/-- Whether a statement with such a problem generates nothing. -/
def isError (s : Severity) : Bool := error.rank ≤ s.rank

/-- The worse of two severities. -/
def max (s t : Severity) : Severity := if s.rank < t.rank then t else s

end Severity

/-- What an operand can be. -/
inductive OperandClass where
  | absolute
  | relocatable
  | complex
  deriving DecidableEq, Repr

/-- The word for a class of operands. -/
def OperandClass.name : OperandClass → Bytes
  | absolute => bytes "Absolute"
  | relocatable => bytes "Relocatable"
  | complex => bytes "Complex"

/-- What is wrong with a statement. -/
inductive Problem where
  | invalidOperand (required : List OperandClass) (received : OperandClass)
  | operandCount (required received : Nat)
  | missingOperand (required received : Nat)
  | oversizedLabel (required received : Nat)
  | invalidTerm
  | unterminatedString
  | oversizedValue (required received : Int)
  | invalidRegister
  | unexpectedCharacter (c : UInt8)
  | unbalancedParentheses
  | invalidExpression (text : Bytes)
  | redeclaredLabel (name : Bytes)
  | undefinedSymbol (name : Bytes)
  | unknownMnemonic (mnemonic : Bytes)
  | missingLabel (mnemonic : Bytes)
  | unaddressable (address : Int64)
  | duplicateRegister (register : Nat)
  | replacedBase (register : Nat) (line : Int)
  | inactiveRegister (register : Nat)
  | missingEnd
  | afterEnd
  | misaligned (boundary : Nat) (address : Int64)
  | relocatableTerm
  | invalidConstant (cause : Constant.Error)
  | literalOutsideSection (text : Bytes)
  | tooManyLiterals (limit : Int)
  deriving DecidableEq, Repr

namespace Problem

/-- The number in the code of a message. -/
def number : Problem → Nat
  | invalidOperand .. => 1
  | operandCount .. => 2
  | missingOperand .. => 3
  | oversizedLabel .. => 4
  | invalidTerm => 5
  | unterminatedString => 6
  | oversizedValue .. => 7
  | invalidRegister => 8
  | unexpectedCharacter .. => 9
  | unbalancedParentheses => 10
  | invalidExpression .. => 11
  | redeclaredLabel .. => 12
  | undefinedSymbol .. => 13
  | unknownMnemonic .. => 14
  | missingLabel .. => 15
  | unaddressable .. => 16
  | duplicateRegister .. => 17
  | replacedBase .. => 18
  | inactiveRegister .. => 19
  | missingEnd => 20
  | afterEnd => 21
  | misaligned .. => 22
  | relocatableTerm => 23
  | invalidConstant .. => 24
  | literalOutsideSection .. => 25
  | tooManyLiterals .. => 26

/-- The severity of a problem. -/
def severity : Problem → Severity
  | missingOperand .. | unterminatedString | unexpectedCharacter .. |
      unbalancedParentheses
  | invalidExpression .. | literalOutsideSection .. |
    tooManyLiterals .. => .severe
  | replacedBase .. => .notify
  | inactiveRegister .. | missingEnd | afterEnd => .warning
  | misaligned .. => .informational
  | _ => .error

/-- Alternatives with commas, and `or` before the last. -/
def alternatives : List Bytes → Bytes
  | [] => []
  | [a] => a
  | [a, b] => a ++ bytes " or " ++ b
  | names => Bytes.join (bytes ", ") names.dropLast ++ bytes ", or " ++
    names.getLastD []

/-- What was required and what was found, on lines of their own. -/
def wantHave (text : String) (required received : Bytes) : Bytes :=
  bytes text ++ bytes "\n\twant:" ++ required ++ bytes "\n\thave:" ++ received

/-- The text of a problem. -/
def message : Problem → Bytes
  | invalidOperand required received =>
    wantHave "Invalid operand" (alternatives (required.map (·.name)))
      received.name
  | operandCount required received =>
    wantHave "Invalid number of operands" (decimal required) (decimal received)
  | missingOperand required received =>
    wantHave "Missing operand" (decimal required) (decimal received)
  | oversizedLabel required received =>
    wantHave "Label exceeds allowed length" (decimal required)
      (decimal received)
  | invalidTerm => bytes "Invalid self-defining term"
  | unterminatedString => bytes "Unterminated string"
  | oversizedValue required received =>
    wantHave "Value exceeds allowed size" (decimal required) (decimal received)
  | invalidRegister => bytes "Invalid register"
  | unexpectedCharacter c => bytes "Unexpected character " ++
    Utf8.encode c.toNat
  | unbalancedParentheses => bytes "Unbalanced parentheses"
  | invalidExpression text => bytes "Invalid expression '" ++ text ++ bytes "'"
  | redeclaredLabel name => bytes "Redeclaration of label '" ++
    name ++ bytes "'"
  | undefinedSymbol name => bytes "Undefined symbol '" ++ name ++ bytes "'"
  | unknownMnemonic mnemonic => bytes "Unknown mnemonic '" ++
    mnemonic ++ bytes "'"
  | missingLabel mnemonic => mnemonic ++ bytes " requires a label"
  | unaddressable address =>
    bytes "Address " ++ hexField 6 address.toInt ++
      bytes " is not covered by any USING"
  | duplicateRegister register =>
    bytes "Register " ++ decimal register ++ bytes " appears twice"
  | replacedBase register line =>
    bytes "Register " ++ decimal register ++
      bytes " replaces the USING from line " ++ decimal line
  | inactiveRegister register => bytes "Register " ++ decimal register ++
    bytes " is not in use"
  | missingEnd => bytes "END statement missing, one was supplied"
  | afterEnd => bytes "Statements after END are ignored"
  | misaligned boundary address =>
    bytes "Operand address " ++ hexField 6 address.toInt ++
      bytes " is not aligned to " ++
      decimal boundary
  | relocatableTerm => bytes "Relocatable term not allowed here"
  | invalidConstant cause => bytes "Invalid constant: " ++ cause.message
  | literalOutsideSection text =>
    bytes "Literal " ++ text ++ bytes " outside of an ordinary section"
  | tooManyLiterals limit => bytes "Literal count exceeds " ++ decimal limit

end Problem

/-- A problem and its place. -/
structure Diagnostic where
  cursor : Cursor
  problem : Problem
  deriving DecidableEq, Repr

namespace Diagnostic

/-- The severity of a diagnostic. -/
def severity (d : Diagnostic) : Severity := d.problem.severity

/-- The code of the message. -/
def code (d : Diagnostic) : Bytes :=
  bytes "ASM" ++ decimalField 3 d.problem.number ++ [d.severity.letter]

/-- The text with its line and column in front. -/
def message (d : Diagnostic) : Bytes :=
  decimalField 2 d.cursor.line ++ bytes ":" ++ decimalField 2 d.cursor.column ++
    bytes ": " ++
    d.problem.message

/-- The worst severity among diagnostics. -/
def worst (diagnostics : List Diagnostic) : Severity :=
  diagnostics.foldl (fun s d => s.max d.severity) .none

end Diagnostic

end System370
