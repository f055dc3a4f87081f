import System370.Floating.Binary
import System370.Numeral
import System370.Toml.Basic

/-!
# Reading TOML

Every statement stands on a line of its own: a table header in brackets, or a
key, an equals sign and a value.  A `#` outside strings starts a comment.
Values are strings between double quotes, with escapes, or between apostrophes,
without; integers, also in hexadecimal, octal or binary; floating-point numbers;
and the two truth values.

A document is well-formed UTF-8 without control characters other than tab and
the ends of lines.

* `Toml.parseLine?` reads one line;
* `Toml.parse?` reads a document.
-/

namespace System370

namespace Toml

/-- Whether an octet may stand in a name without quotes. -/
def isNameChar (c : UInt8) : Bool :=
  isDigit c || (0x41 ≤ c && c ≤ 0x5A) || (0x61 ≤ c && c ≤ 0x7A) || c =
    0x5F || c = 0x2D

/-- Whether an octet is a blank or a tab. -/
def isGap (c : UInt8) : Bool := c = 0x20 || c = 0x09

/-- The text behind blanks and tabs. -/
def skipGap (text : Bytes) : Bytes := text.dropWhile isGap

/-- The character of a sequence of hexadecimal digits. -/
def codeEscape? (numeral : Bytes) : Option Bytes := do
  let values ← numeral.mapM Numeral.hexValue?
  let code := values.foldl (fun n d => n * 16 + d) 0
  if code < 0xD800 ∨ 0xE000 ≤ code ∧ code < 0x110000 then
    some (Utf8.encode code) else none

/-- The rest of a string with escapes, and the text behind its closing quote. -/
def readString? : Nat → Bytes → Option (Bytes × Bytes)
  | 0, _ => none
  | _, [] => none
  | fuel + 1, c :: rest =>
    if c = 0x22 then some ([], rest)
    else if c ≠ 0x5C then
      (readString? fuel rest).map fun (s, after) => (c :: s, after)
    else match rest with
      | [] => none
      | e :: rest =>
        let plain : Option UInt8 :=
          if e = octet 'b' then some 0x08
          else if e = octet 't' then some 0x09
          else if e = octet 'n' then some 0x0A
          else if e = octet 'f' then some 0x0C
          else if e = octet 'r' then some 0x0D
          else if e = 0x22 ∨ e = 0x5C then some e
          else none
        match plain with
        | some b => (readString? fuel rest).map fun (s, after) =>
          (b :: s, after)
        | none =>
          let width := if e = octet 'u' then 4 else
            if e = octet 'U' then 8 else 0
          if width = 0 ∨ rest.length < width then none
          else do
            let character ← codeEscape? (rest.take width)
            let (s, after) ← readString? fuel (rest.drop width)
            return (character ++ s, after)

/-- A string without escapes, and the text behind its closing apostrophe. -/
def readLiteral? (text : Bytes) : Option (Bytes × Bytes) :=
  match text.dropWhile (· ≠ quote) with
  | [] => none
  | _ :: after => some (text.takeWhile (· ≠ quote), after)

/-- A name, and the text behind it. -/
def readName? (text : Bytes) : Option (Bytes × Bytes) :=
  match text with
  | [] => none
  | c :: rest =>
    if c = 0x22 then readString? rest.length rest
    else if c = quote then readLiteral? rest
    else if isNameChar c then
      some (text.takeWhile isNameChar, text.dropWhile isNameChar)
    else none

/-- Names with points between them, and the text behind them. -/
def readKey? : Nat → Bytes → Option (Key × Bytes)
  | 0, _ => none
  | fuel + 1, text => do
    let (name, after) ← readName? (skipGap text)
    match skipGap after with
    | [] => some ([name], [])
    | c :: rest =>
      if c = 0x2E then
        let (key, after) ← readKey? fuel rest
        return (name :: key, after)
      else some ([name], c :: rest)

/-- Whether every underscore stands between digits. -/
def underscoresSeparate (digit : Bool) : Bytes → Bool
  | [] => digit
  | c :: rest =>
    (c ≠ 0x5F || digit) && underscoresSeparate (Numeral.hexValue? c).isSome rest

/-- A numeral without its underscores. -/
def dropUnderscores (numeral : Bytes) : Bytes := numeral.filter (· ≠ 0x5F)

/-- Whether a decimal numeral with an optional sign has a zero in front of other
digits. -/
def hasLeadingZero (numeral : Bytes) : Bool :=
  match numeral with
  | 0x30 :: _ :: _ => true
  | c :: 0x30 :: _ :: _ => c = 0x2B || c = 0x2D
  | _ => false

/-- An integer to the base `base`, as its digits spell it. -/
def readRadix? (base : Nat) (numeral : Bytes) : Option Value := do
  let values ← (dropUnderscores numeral).mapM fun c =>
    (Numeral.hexValue? c).filter (decide <| · < base)
  let n := values.foldl (fun n d => n * base + d) 0
  if numeral.head? = some 0x5F ∨ numeral = [] ∨
    underscoresSeparate false numeral = false then none
  else if n < 2 ^ 63 then some (.integer (Int64.ofNat n)) else none

/-- A decimal integer with an optional sign. -/
def readInteger? (token : Bytes) : Option Value :=
  if underscoresSeparate false token = false ∨ hasLeadingZero token then none
  else match Numeral.signed (dropUnderscores token) with
    | .ok n => some (.integer n)
    | .error _ => none

/-- Whether every point stands before a digit. -/
def pointsBeforeDigits : Bytes → Bool
  | [] => true
  | [c] => c ≠ 0x2E
  | c :: d :: rest => (c ≠ 0x2E || isDigit d) && pointsBeforeDigits (d :: rest)

/-- Whether an octet divides the parts of a floating-point numeral. -/
def dividesFloat (c : UInt8) : Bool := c = 0x2E || c = 0x65 || c = 0x45

/-- The parts of a numeral between the octets that divide it, without empty
ones. -/
def floatParts (token : Bytes) : List Bytes :=
  (Bytes.splitOn 0x2E (token.map fun c => if dividesFloat c then 0x2E else
    c)).filter (· ≠ [])

/-- A floating-point number. -/
def readFloat? (token : Bytes) : Option Value :=
  let parts := floatParts token
  if parts.all (underscoresSeparate false) ∧
    parts.head?.all (fun p => !hasLeadingZero p) ∧
      pointsBeforeDigits token ∧
      (Binary.numeral? (dropUnderscores token)).isSome then some .float
  else none

/-- A number: digits with underscores are an integer, and a point or an exponent
behind them makes it a floating-point number. -/
def readNumber? (token : Bytes) : Option Value :=
  let unsigned := if token.head? = some 0x2B ∨ token.head? = some 0x2D then
    token.tail else token
  let whole := unsigned.takeWhile fun c => isDigit c || c = 0x5F
  let rest := unsigned.drop whole.length
  if unsigned = bytes "inf" ∨ unsigned = bytes "nan" then some .float
  else if (whole.head?.any isDigit) = false then none
  else match rest with
    | [] => readInteger? token
    | c :: more =>
      if dividesFloat c then
        if more.all fun c =>
            isDigit c || dividesFloat c || c = 0x5F || c = 0x2B || c = 0x2D then
          readFloat? token
        else none
      else if whole = [0x30] ∧ unsigned = token then
        if c = octet 'x' then readRadix? 16 more
        else if c = octet 'o' then readRadix? 8 more
        else if c = octet 'b' then readRadix? 2 more
        else none
      else none

/-- A value, and the text behind it. -/
def readValue? (text : Bytes) : Option (Value × Bytes) :=
  match text with
  | [] => none
  | c :: rest =>
    if c = 0x22 then
      (readString? rest.length rest).map fun (s, after) => (.text s, after)
    else if c = quote then
      (readLiteral? rest).map fun (s, after) => (.text s, after)
    else
      let ends := fun c => isGap c || c = 0x23
      let token := text.takeWhile fun c => !ends c
      let after := text.dropWhile fun c => !ends c
      if token = bytes "true" then some (.boolean true, after)
      else if token = bytes "false" then some (.boolean false, after)
      else (readNumber? token).map (·, after)

/-- Whether nothing but a comment stands in a text. -/
def isSpent (text : Bytes) : Bool :=
  match skipGap text with
  | [] => true
  | c :: _ => c = 0x23

/-- The statement of a line, which may have none. -/
def parseLine? (line : Bytes) : Option (Option Statement) :=
  if isSpent line then some none
  else match skipGap line with
    | 0x5B :: rest => do
      let (key, after) ← readKey? rest.length rest
      match after with
      | 0x5D :: after => if isSpent after then
        some (some (.table key)) else none
      | _ => none
    | start => do
      let (key, after) ← readKey? (start.length + 1) start
      match after with
      | 0x3D :: after =>
        let (value, after) ← readValue? (skipGap after)
        if isSpent after then some (some (.assign key value)) else none
      | _ => none

/-- The lines of a document; a carriage return before a line feed belongs to the
end of the line. -/
def linesOf (text : Bytes) : List Bytes :=
  let pieces := Bytes.splitOn 0x0A text
  pieces.dropLast.map (fun line => if line.getLast? = some 0x0D then
    line.dropLast else line) ++
    (pieces.getLast?).toList

/-- Whether a document may have a character. -/
def isAllowed (r : Character) : Bool :=
  !Utf8.isStray r && (r.code = 0x09 || (0x20 ≤ r.code && r.code ≠ 0x7F))

/-- The text without a byte order mark. -/
def dropMark : Bytes → Bytes
  | 0xFF :: 0xFE :: rest => rest
  | 0xFE :: 0xFF :: rest => rest
  | 0xEF :: 0xBB :: 0xBF :: rest => rest
  | text => text

/-- Reads a document. -/
def parse? (text : Bytes) : Option Document := do
  let lines := linesOf (dropMark text)
  if lines.all (fun line => (Utf8.decode line).all isAllowed) = false then none
  else
    let statements ← lines.mapM parseLine?
    Document.ofStatements? (statements.filterMap id)

end Toml

end System370
