import System370.Constant.Basic
import System370.Text.Blank
import System370.Traced

/-!
# Parsing constants

An operand is read from left to right: duplication factor, type, length
modifier, nominal values.  The first thing wrong decides.  Factors and lengths
in parentheses are expressions, which a given evaluator computes; it may fail
for reasons of its own, which `ParseError.expression` carries.

A nominal value of an address type is a parenthesized list, of any other type a
string; of a character constant the whole string is one value, otherwise commas
separate values.  Finally each value is measured, and the operand may occupy no
more than `maxSize` octets.
-/

namespace System370

namespace Constant

/-- Why an operand could not be parsed. -/
inductive ParseError (ε : Type) where
  | expression (e : ε)
  | constant (e : Error)
  deriving DecidableEq, Repr

variable {ε : Type}

/-- The failure of an operand that breaks the grammar. -/
def malformed (text : Bytes) (reason : String) : ParseError ε :=
  .constant (.malformed text (bytes reason))

/-- The duplication factor at the start of an operand, and the text after it. -/
def parseDuplication (eval : Bytes → Traced ε Int64) (text : Bytes) :
    Traced (ParseError ε) (Int64 × Bytes) :=
  if text.head? = some Scan.openParen then
    match Scan.parenthesized? text with
    | none => .fail (malformed text "unbalanced duplication factor")
    | some (inner, rest) =>
      ((eval inner).mapError .expression).andThen fun n => .done (n, rest)
  else
    let factor := text.takeWhile isDigit
    if factor = [] then .done (1, text)
    else match Numeral.integer factor with
      | .ok n => .done (n, text.dropWhile isDigit)
      | .error _ => .fail (malformed text "invalid duplication factor")

/-- The value of a length modifier, and the text after it. -/
def parseLengthValue (eval : Bytes → Traced ε Int64) (text rest : Bytes) :
    Traced (ParseError ε) (Int64 × Bytes) :=
  if rest.head? = some Scan.openParen then
    match Scan.parenthesized? rest with
    | none => .fail (malformed text "unbalanced length modifier")
    | some (inner, after) =>
      ((eval inner).mapError .expression).andThen fun n => .done (n, after)
  else
    let numeral := rest.takeWhile isDigit
    if numeral = [] then .fail (malformed text "missing length")
    else .done (Numeral.nearestInteger numeral, rest.dropWhile isDigit)

/-- The length modifier in front of `rest`, if there is one, and the text after
it. -/
def parseLength (eval : Bytes → Traced ε Int64) (text : Bytes) (kind : Kind)
    (rest : Bytes) :
    Traced (ParseError ε) (Option Nat × Bytes) :=
  match rest with
  | [] => .done (none, [])
  | c :: after =>
    if upperAscii c = octet 'L' then
      (parseLengthValue eval text after).andThen fun (n, after) =>
        if n.toInt < kind.minLength ∨ kind.maxLength < n.toInt then
          .fail (.constant (.outOfRange text n.toInt))
        else .done (some n.toInt.toNat, after)
    else .done (none, rest)

/-- The values of a string, which commas separate.  White space around a value
does not count; an empty value is refused. -/
def stringValues (text body : Bytes) : Except Error (List Bytes) :=
  let values := (Bytes.splitOn comma body).map trim
  if values.any (· = []) then
    .error (.malformed text (bytes "empty nominal value"))
  else .ok values

/-- The nominal values at the end of an operand. -/
def parseNominal (text : Bytes) (kind : Kind) (rest : Bytes) :
    Except Error (List Bytes) :=
  if rest = [] then .ok []
  else if kind.isAddress then
    match if rest.head? = some Scan.openParen then
      Scan.parenthesized? rest else none with
    | some (inner, []) =>
      match Scan.splitList inner with
      | .ok items => .ok items
      | .error e => .error (.malformed text e.message)
    | _ => .error (.malformed text
      (bytes "address constants need a parenthesized nominal value"))
  else if rest.head? ≠ some quote then
    .error (.malformed text (bytes "nominal value must be quoted"))
  else match Scan.closingQuote rest.tail with
    | none => .error (.malformed text (bytes "unterminated nominal value"))
    | some n =>
      if n + 2 ≠ rest.length then
        .error (.malformed text
          (bytes "unexpected characters after nominal value"))
      else
        let body := rest.tail.take n
        if kind = .character then
          .ok [Bytes.undouble (octet '&') (Bytes.undouble quote body)]
        else stringValues text body

/-- The number of decimal digits in a text. -/
def countDigits (text : Bytes) : Nat := text.countP isDigit

/-- The length that a value has by itself. -/
def impliedLength (text : Bytes) (kind : Kind) (value : Bytes) :
    Except Error Nat :=
  match kind with
  | .character =>
    match CodePage037.encode value with
    | .ok encoded => .ok encoded.length
    | .error e => .error (.malformed text e.message)
  | .hexadecimal => .ok ((value.length + 1) / 2)
  | .binary => .ok ((value.length + 7) / 8)
  | .packed => .ok (countDigits value / 2 + 1)
  | .zoned => .ok (countDigits value)
  | _ => .ok kind.natural

/-- The length of one value without a length modifier, checked against the range
of its type. -/
def measureValue (text : Bytes) (kind : Kind) (value : Bytes) :
    Except Error Nat :=
  match impliedLength text kind value with
  | .error e => .error e
  | .ok n =>
    if n < kind.minLength ∨ kind.maxLength < n then
      .error (.outOfRange text n) else .ok n

/-- The lengths of the nominal values. -/
def measure (text : Bytes) (kind : Kind) (explicit : Option Nat)
    (nominal : List Bytes) :
    Except Error (List Nat) :=
  match nominal, explicit with
  | [], some n => .ok [n]
  | [], none => .ok [kind.natural]
  | values, some n => .ok (values.map fun _ => n)
  | values, none => values.mapM (measureValue text kind)

/-- The descriptor of an operand whose factor, type and length modifier are
read. -/
def complete (text : Bytes) (dup : Nat) (kind : Kind) (explicit : Option Nat)
    (rest : Bytes) :
    Except Error Descriptor := do
  let nominal ← parseNominal text kind rest
  let lengths ← measure text kind explicit nominal
  let descriptor : Descriptor := ⟨text, dup, kind, explicit, nominal, lengths⟩
  if maxSize < descriptor.size then .error (.outOfRange text maxSize) else
    .ok descriptor

/-- Parses an operand. -/
def parse (eval : Bytes → Traced ε Int64) (text : Bytes) :
    Traced (ParseError ε) Descriptor :=
  (parseDuplication eval text).andThen fun (dup, rest) =>
    if dup < 0 then .fail (.constant (.outOfRange text dup.toInt))
    else match rest with
      | [] => .fail (malformed text "missing type")
      | c :: rest =>
        match Kind.ofLetter? (upperAscii c) with
        | none => .fail (.constant (.unsupported (upperAscii c)))
        | some kind =>
          (parseLength eval text kind rest).andThen fun (explicit, rest) =>
            (Traced.ofExcept (complete text dup.toInt.toNat kind explicit
              rest)).mapError .constant

/-- The reason for refusing an expression where none is allowed. -/
inductive NoExpression where
  | notAllowed
  deriving DecidableEq, Repr

/-- The text of the refusal. -/
def NoExpression.message : NoExpression → Bytes
  | notAllowed => bytes "Expression not allowed here"

/-- Parses an operand in which expressions are not allowed. -/
def parseClosed (text : Bytes) : Except (ParseError NoExpression) Descriptor :=
  (parse (fun _ => Traced.fail .notAllowed) text).result

end Constant

end System370
