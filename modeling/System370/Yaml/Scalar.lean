import System370.MarkedNumeral
import System370.Text.Utf8

/-!
# Texts in YAML

A text stands as it is in a YAML document, unless a reader would take it for
something else: a number, a date, a truth value, nothing at all, or a piece of
the structure of the document.  A text that would read as another value is
written between double quotes, one that would disturb the structure between
apostrophes, and one with characters that cannot be shown between double quotes
with escapes.  A text of several lines is written as a block of its own.

* `Yaml.readsAsText` tells whether a reader takes a bare text for a text;
* `Yaml.styleOf` chooses how a text is written;
* `Yaml.scalar` writes it: the rest of the line, and the lines of a block.
-/

namespace System370

namespace Yaml

/-- Whether a number of a text is an integer of 64 bits: a signed one, or
without a sign in front an unsigned one. -/
def isWord (text : Bytes) (n : Int) : Bool :=
  MarkedNumeral.isSignedWord n || (text.head?.any isDigit && n < 2 ^ 64)

/-- Whether a text without underscores reads as an integer.  The small marks of
binary and octal digits may have a sign behind them. -/
def isInteger (text : Bytes) : Bool :=
  (MarkedNumeral.read? text).any (isWord text) ||
    (match text with
      | 0x30 :: 0x62 :: body =>
        (MarkedNumeral.readSigned? (MarkedNumeral.magnitude? 2) body).any
          (isWord body)
      | 0x30 :: 0x6F :: body =>
        (MarkedNumeral.readSigned? (MarkedNumeral.magnitude? 8) body).any
          (isWord body)
      | _ => false)

/-- Whether a text is one or more digits. -/
def isDigits (text : Bytes) : Bool := text ≠ [] && text.all isDigit

/-- Whether a text consists of digits with at most one point and an optional
exponent. -/
def isDecimal (text : Bytes) : Bool :=
  let body := if text.head? = some 0x2B ∨ text.head? = some 0x2D then
    text.tail else text
  let (mantissa, exponent) := body.span fun c => lowerAscii c ≠ octet 'e'
  let (whole, fraction) := mantissa.span (· ≠ 0x2E)
  let exponentDigits :=
    if exponent.tail.head? = some 0x2B ∨ exponent.tail.head? = some 0x2D then
      exponent.tail.tail
    else exponent.tail
  (isDigits whole && fraction.tail.all isDigit || whole = [] &&
    isDigits fraction.tail) &&
    (exponent = [] || isDigits exponentDigits)

/-- Whether a text without underscores reads as a number with a fraction or an
exponent, which must be in range. -/
def isFloat (text : Bytes) : Bool :=
  isDecimal text && (Binary.numeral? text).isSome

/-- The number of days of a month. -/
def daysOfMonth (year month : Nat) : Nat :=
  if month = 2 then
    if year % 4 = 0 ∧ (year % 100 ≠ 0 ∨ year % 400 = 0) then 29 else 28
  else if month = 4 ∨ month = 6 ∨ month = 9 ∨ month = 11 then 30
  else 31

/-- Whether a text reads as a day: four digits of the year, then month and day
of one or two digits each. -/
def isDate (text : Bytes) : Bool :=
  match Bytes.splitOn 0x2D text with
  | [year, month, day] =>
    match MarkedNumeral.magnitude? 10 year, MarkedNumeral.magnitude? 10 month,
      MarkedNumeral.magnitude? 10 day with
    | some y, some m, some d =>
      year.length = 4 && (month.length = 1 || month.length = 2) &&
        (day.length = 1 || day.length = 2) && 1 ≤ m && m ≤ 12 && 1 ≤ d && d ≤
          daysOfMonth y m
    | _, _, _ => false
  | _ => false

/-- Whether a text reads as a number to the base sixty, with colons between its
digits. -/
def isSexagesimal (text : Bytes) : Bool :=
  let body := if text.head? = some 0x2B ∨ text.head? = some 0x2D then
    text.tail else text
  let (places, fraction) := body.span (· ≠ 0x2E)
  let isPlace := fun piece : Bytes =>
    match piece with
    | [a] => isDigit a
    | [a, b] => 0x30 ≤ a && a ≤ 0x35 && isDigit b
    | _ => false
  let isLoose := fun c : UInt8 => isDigit c || c = 0x5F
  match Bytes.splitOn 0x3A places with
  | first :: second :: rest =>
    first.head?.any isDigit && first.all isLoose &&
      (second :: rest).all isPlace &&
      fraction.tail.all isLoose
  | _ => false

/-- The words that stand for truth values, for nothing, or for values that are
no numbers. -/
def words : List String :=
  ["", "~", "null", "Null", "NULL", "true", "True", "TRUE", "false", "False",
    "FALSE", "y", "Y", "yes", "Yes",
    "YES", "on", "On", "ON", "n", "N", "no", "No", "NO", "off", "Off", "OFF",
    ".nan", ".NaN", ".NAN", ".inf", ".Inf", ".INF", "+.inf", "+.Inf", "+.INF",
    "-.inf", "-.Inf", "-.INF"]

/-- Whether a text begins like a number. -/
def startsNumber (text : Bytes) : Bool :=
  text.head?.any fun c => isDigit c || c = 0x2B || c = 0x2D

/-- Whether a reader takes a bare text for a text. -/
def readsAsText (text : Bytes) : Bool :=
  let joined := text.filter (· ≠ 0x5F)
  !(words.any fun w => bytes w = text) &&
    !(text.head? = some 0x2E && (Binary.numeral? text).isSome) &&
    !(startsNumber text &&
      (isDate text || isInteger joined || isFloat joined || isSexagesimal text))

/-- Whether a character can be shown. -/
def isShown (code : Nat) : Bool :=
  code = 0x0A || (0x20 ≤ code && code ≤ 0x7E) ||
    (0xA0 ≤ code && code ≠ 0xFEFF && code < 0xFFFE)

/-- Whether a character ends a line. -/
def isBreak (code : Nat) : Bool :=
  code = 0x0A || code = 0x0D || code = 0x85 || code = 0x2028 || code = 0x2029

/-- Characters that begin something other than a text. -/
def indicators : List Nat := (bytes "#,[]\x7b\x7d&*!|>'\"%@`").map (·.toNat)

/-- Whether the characters from some place on, with `before?` in front of them,
would be taken for a piece of the structure of a document. -/
def disturbsFrom (before? : Option Nat) : List Nat → Bool
  | [] => false
  | c :: rest =>
    let atEnd := rest.head?.all fun d => d = 0x20 || d = 0x09
    let here : Bool :=
      match before? with
      | none =>
        indicators.contains c || ((c = 0x3F || c = 0x3A || c = 0x2D) && atEnd)
      | some b =>
        (c = 0x3A && atEnd) ||
          (c = 0x23 && (b = 0x20 || b = 0x09 || b = 0 || isBreak b))
    here || disturbsFrom (some c) rest

/-- Whether a bare text would be taken for a piece of the structure. -/
def disturbs (codes : List Nat) : Bool :=
  codes.take 3 = [0x2D, 0x2D, 0x2D] || codes.take 3 = [0x2E, 0x2E, 0x2E] ||
    codes.head? = some 0x20 || codes.getLast? = some 0x20 ||
      disturbsFrom none codes

/-- Whether a blank stands right in front of the end of a line. -/
def blankBeforeBreak : List Nat → Bool
  | b :: c :: rest => (b = 0x20 && isBreak c) || blankBeforeBreak (c :: rest)
  | _ => false

/-- How a text is written. -/
inductive Style where
  | plain
  | apostrophes
  | quotes
  /-- On lines of its own. -/
  | block
  deriving DecidableEq, Repr

/-- The style of a text. -/
def styleOf (text : Bytes) : Style :=
  let codes := (Utf8.decode text).map (·.code)
  let hasTab := codes.contains 0x09
  let isSpecial := codes.any fun c => !isShown c && c ≠ 0x09
  if codes.contains 0x0A then
    if isSpecial || blankBeforeBreak codes || codes.getLast? = some 0x20 then
      .quotes else .block
  else if !readsAsText text || hasTab || isSpecial then .quotes
  else if disturbs codes then .apostrophes
  else .plain

/-- The letters of the characters that have an escape of their own. -/
def escapeLetters : List (Nat × UInt8) :=
  [(0x00, 0x30), (0x07, octet 'a'), (0x08, octet 'b'), (0x09, octet 't'),
    (0x0A, octet 'n'), (0x0B, octet 'v'), (0x0C, octet 'f'), (0x0D, octet 'r'),
    (0x1B, octet 'e'), (0x22, 0x22), (0x5C, 0x5C), (0x85, octet 'N'),
    (0xA0, octet '_'), (0x2028, octet 'L'), (0x2029, octet 'P')]

/-- A character between double quotes. -/
def escape (r : Character) : Bytes :=
  if isShown r.code && !isBreak r.code && r.code ≠ 0x22 && r.code ≠
    0x5C then r.spelling
  else match escapeLetters.find? (·.1 = r.code) with
    | some (_, letter) => [0x5C, letter]
    | none =>
      if r.code ≤ 0xFF then bytes "\\x" ++ hexField 2 r.code
      else if r.code ≤ 0xFFFF then bytes "\\u" ++ hexField 4 r.code
      else bytes "\\U" ++ hexField 8 r.code

/-- The mark of a block: whether its first line is indented by itself, and what
becomes of the ends of lines after it. -/
def blockMark (text : Bytes) : Bytes :=
  let indented := text.head? = some 0x20 || text.head? = some 0x0A
  let keep := text = [0x0A] || text.drop (text.length - 2) = [0x0A, 0x0A]
  bytes "|" ++ (if indented then bytes "2" else []) ++
    (if text.getLast? ≠ some 0x0A then bytes "-" else if keep then
      bytes "+" else [])

/-- The lines of a block.  The end of a line at the very start of a text is that
of the line with the mark. -/
def blockLines (text : Bytes) : List Bytes :=
  let body := if text.head? = some 0x0A then text.tail else text
  let lines := Bytes.splitOn 0x0A body
  if text.getLast? = some 0x0A then lines.dropLast else lines

/-- A text: what stands on the line of its key, and the lines below. -/
def scalar (text : Bytes) : Bytes × List Bytes :=
  match styleOf text with
  | .plain => (text, [])
  | .apostrophes =>
    ([quote] ++ text.flatMap (fun c => if c = quote then [quote, quote] else
      [c]) ++ [quote], [])
  | .quotes => ([0x22] ++ (Utf8.decode text).flatMap escape ++ [0x22], [])
  | .block => (blockMark text, blockLines text)

end Yaml

end System370
