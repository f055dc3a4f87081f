import System370.Diagnostic
import System370.SymbolTable
import System370.Text.Blank
import System370.Traced

/-!
# Expressions

An expression is a sum of products of terms:

    sum     = product { ("+" | "-") product }
    product = factor { ("*" | "/") factor }
    factor  = ("+" | "-") factor | term
    term    = "(" sum ")" | decimal | X'..' | B'..' | C'..' | L'symbol | L'*
            | * | symbol

Reading an expression does not depend on any symbol.  `Expression.parse` turns a
text into a sequence of steps for a stack, and the problem that ended the
reading early, if there was one.  `Expression.run` performs the steps against a
symbol table.  A problem of a step therefore comes before a problem of the text
behind it, and the names that were read are exactly those of the steps
performed.

* `Expression.evaluate` is the value of a text at some place;
* `Expression.absolute` is the number of a text that may not be relocatable.
-/

namespace System370

namespace Expression

/-- A step of an evaluation. -/
inductive Step where
  | number (n : Int64)
  /-- The place of the statement, `*`. -/
  | place
  /-- The length at the place of the statement, `L'*`. -/
  | placeLength
  | symbol (name : Bytes)
  /-- The length attribute of a symbol. -/
  | lengthOf (name : Bytes)
  | negate
  | add
  | subtract
  | multiply
  | divide
  deriving DecidableEq, Repr

/-- What was read: steps, the text behind them, and what is wrong there. -/
structure Parsed where
  steps : List Step
  rest : Bytes
  problem : Option Problem := none
  deriving DecidableEq, Repr

namespace Parsed

/-- Steps without a problem. -/
def ok (steps : List Step) (rest : Bytes) : Parsed := { steps, rest }

/-- A problem without steps. -/
def fail (rest : Bytes) (problem : Problem) : Parsed := ⟨[], rest, some problem⟩

/-- Reads on behind what was read. -/
def andThen (p : Parsed) (next : Bytes → Parsed) : Parsed :=
  match p.problem with
  | some _ => p
  | none =>
    let q := next p.rest
    { q with steps := p.steps ++ q.steps }

/-- Adds a step behind the others. -/
def push (p : Parsed) (step : Step) : Parsed :=
  p.andThen fun rest => ok [step] rest

end Parsed

/-- A decimal number of at most 31 bits. -/
def parseDecimal (text : Bytes) : Parsed :=
  let numeral := text.takeWhile isDigit
  let rest := text.dropWhile isDigit
  match Numeral.integer numeral with
  | .ok n => if n ≤ 0x7FFFFFFF then .ok [.number n] rest else
    .fail rest .invalidTerm
  | .error _ => .fail rest .invalidTerm

/-- A self-defining term, given the text behind its opening apostrophe.  In a
character term doubled apostrophes and ampersands stand for single ones. -/
def parseTerm (kind : UInt8) (text : Bytes) : Parsed :=
  let isCharacter := kind = octet 'C'
  match if isCharacter then Scan.closingQuote text else text.idxOf? quote with
  | none => .fail text .unterminatedString
  | some n =>
    let body := text.take n
    let body := if isCharacter then
      Bytes.undouble (octet '&') (Bytes.undouble quote body) else body
    match Numeral.term kind body with
    | .ok value => .ok [.number value] (text.drop (n + 1))
    | .error _ => .fail text .invalidTerm

/-- The symbol at the start of a text in capitals, and the text behind it. -/
def splitSymbol (text : Bytes) : Bytes × Bytes :=
  ((text.takeWhile isSymbolChar).map upperAscii, text.dropWhile isSymbolChar)

/-- A length attribute, given the text behind its apostrophe. -/
def parseLengthAttribute (text : Bytes) : Parsed :=
  if text.head? = some (octet '*') then .ok [.placeLength] text.tail
  else .ok [.lengthOf (splitSymbol text).1] (splitSymbol text).2

/-- A term that starts with a letter `c`: a self-defining term, a length
attribute or a symbol. -/
def parseNamed (c : UInt8) (rest : Bytes) : Parsed :=
  let kind := upperAscii c
  let symbol := splitSymbol (c :: rest)
  if rest.head? = some quote ∧
    (kind = octet 'X' ∨ kind = octet 'B' ∨ kind = octet 'C') then
    parseTerm kind rest.tail
  else if rest.head? = some quote ∧ Scan.attributeQuote [c] rest.tail.head? then
    parseLengthAttribute rest.tail
  else .ok [.symbol symbol.1] symbol.2

mutual

/-- Reads a sum.  `whole` is the text that the sum is the beginning of. -/
def parseSum : Nat → Bytes → Bytes → Parsed
  | 0, _, text => .fail text .unbalancedParentheses
  | fuel + 1, whole,
    text => (parseProduct fuel whole text).andThen (parseSumRest fuel whole)

/-- Reads the summands behind the first one. -/
def parseSumRest : Nat → Bytes → Bytes → Parsed
  | 0, _, text => .ok [] text
  | _, _, [] => .ok [] []
  | fuel + 1, whole, c :: rest =>
    if c = octet '+' then
      ((parseProduct fuel whole rest).push .add).andThen
        (parseSumRest fuel whole)
    else if c = octet '-' then
      ((parseProduct fuel whole rest).push .subtract).andThen
        (parseSumRest fuel whole)
    else .ok [] (c :: rest)

/-- Reads a product. -/
def parseProduct : Nat → Bytes → Bytes → Parsed
  | 0, _, text => .fail text .unbalancedParentheses
  | fuel + 1, whole,
    text => (parseFactor fuel whole text).andThen (parseProductRest fuel whole)

/-- Reads the factors behind the first one. -/
def parseProductRest : Nat → Bytes → Bytes → Parsed
  | 0, _, text => .ok [] text
  | _, _, [] => .ok [] []
  | fuel + 1, whole, c :: rest =>
    if c = octet '*' then
      ((parseFactor fuel whole rest).push .multiply).andThen
        (parseProductRest fuel whole)
    else if c = octet '/' then
      ((parseFactor fuel whole rest).push .divide).andThen
        (parseProductRest fuel whole)
    else .ok [] (c :: rest)

/-- Reads a factor with its signs. -/
def parseFactor : Nat → Bytes → Bytes → Parsed
  | 0, _, text => .fail text .unbalancedParentheses
  | _, whole, [] => .fail [] (.invalidExpression whole)
  | fuel + 1, whole, c :: rest =>
    if c = octet '+' then parseFactor fuel whole rest
    else if c = octet '-' then (parseFactor fuel whole rest).push .negate
    else if c = 0 then .fail (c :: rest) (.invalidExpression whole)
    else if c = Scan.openParen then parseGroup fuel (c :: rest)
    else if c = octet '*' then .ok [.place] rest
    else if isDigit c then parseDecimal (c :: rest)
    else if isSymbolStart c then parseNamed c rest
    else .fail (c :: rest) (.unexpectedCharacter c)

/-- Reads a sum in parentheses, which reaches up to the closing one. -/
def parseGroup : Nat → Bytes → Parsed
  | 0, text => .fail text .unbalancedParentheses
  | fuel + 1, text =>
    match Scan.parenthesized? text with
    | none => .fail text .unbalancedParentheses
    | some (inner, rest) =>
      (parseSum fuel inner inner).andThen fun
        | [] => .ok [] rest
        | c :: _ => .fail rest (.unexpectedCharacter c)

end

/-- Reads a text as an expression.  Every octet takes at most four calls. -/
def parse (text : Bytes) : Parsed :=
  if isBlank text then .fail text (.invalidExpression text)
  else (parseSum (4 * text.length + 4) text text).andThen fun
    | [] => .ok [] []
    | c :: rest => .fail (c :: rest) (.unexpectedCharacter c)

/-- Where an expression stands. -/
structure Place where
  sectionId : Int
  loc : Int64
  /-- The length at that place. -/
  length : Int64 := 1
  deriving DecidableEq, Repr

/-- The value of the place, absolute outside any section. -/
def Place.value (p : Place) : Value :=
  if p.sectionId = 0 then Value.absolute p.loc else
    Value.relocatable p.loc p.sectionId

/-- A value with a length attribute. -/
structure Result where
  value : Value
  length : Int64
  deriving DecidableEq, Repr

/-- A number, which has the length one. -/
def Result.ofNumber (n : Int64) : Result := ⟨Value.absolute n, 1⟩

/-- What a step leaves of two values: the length attribute is that of the left
one. -/
def combine (step : Step) (left right : Result) : Except Problem Result :=
  match step with
  | .add => .ok { left with value := left.value.add right.value }
  | .subtract => .ok { left with value := left.value.sub right.value }
  | _ =>
    if left.value.isAbsolute && right.value.isAbsolute then
      let n := left.value.number
      let m := right.value.number
      .ok { left with value :=
        Value.absolute (if step = .multiply then n * m else n / m) }
    else .error .relocatableTerm

/-- The definition of a symbol, with the trace of having read it. -/
def lookup (table : SymbolTable) (name : Bytes) : Traced Problem Definition :=
  ⟨[name], match table.definition? name with
    | some d => .ok d
    | none => .error (.undefinedSymbol name)⟩

/-- Performs one step on a stack of values. -/
def Step.run (table : SymbolTable) (place : Place) (stack : List Result) :
    Step → Traced Problem (List Result)
  | .number n => .done (Result.ofNumber n :: stack)
  | .place => .done (⟨place.value, place.length⟩ :: stack)
  | .placeLength => .done (Result.ofNumber place.length :: stack)
  | .symbol name => (lookup table name).andThen fun d =>
    .done (⟨d.value, d.length⟩ :: stack)
  | .lengthOf name => (lookup table name).andThen fun d =>
    .done (Result.ofNumber d.length :: stack)
  | .negate =>
    match stack with
    | top :: rest => .done ({ top with value := top.value.negate } :: rest)
    | [] => .done []
  | step =>
    match stack with
    | right :: left :: rest => (Traced.ofExcept
      (combine step left right)).andThen fun r => .done (r :: rest)
    | _ => .done stack

/-- Performs steps on a stack of values. -/
def run (table : SymbolTable) (place : Place) (stack : List Result) :
    List Step → Traced Problem (List Result)
  | [] => .done stack
  | step :: rest => (step.run table place stack).andThen fun stack =>
    run table place stack rest

/-- The value of an expression, with the names it read. -/
def evaluate (table : SymbolTable) (place : Place) (text : Bytes) :
    Traced Problem Result :=
  let parsed := parse text
  (run table place [] parsed.steps).andThen fun stack =>
    match parsed.problem with
    | some problem => .fail problem
    | none => .done (stack.headD (Result.ofNumber 0))

/-- The class of an operand with a value. -/
def classOf (v : Value) : OperandClass :=
  match v.classify with
  | .absolute => .absolute
  | .relocatable => .relocatable
  | .complex => .complex

/-- The number of an expression that may not be relocatable. -/
def absolute (table : SymbolTable) (place : Place) (text : Bytes) :
    Traced Problem Int64 :=
  (evaluate table place text).andThen fun r =>
    if r.value.isAbsolute then .done r.value.number
    else .fail (.invalidOperand [.absolute] (classOf r.value))

end Expression

end System370
