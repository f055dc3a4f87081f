import System370.Bytes

/-!
# Reading numbers with a binary significand

A floating-point constant is first read as a number with a significand of 53
bits and an exponent of the range of IEEE 754's `binary64`, rounded to nearest,
ties to the even neighbour.  A number too small for that range is zero, one too
large is refused.

A numeral has an optional sign, digits with at most one point, and an optional
exponent; with the mark `0x` digits are hexadecimal and an exponent to the base
two must follow.  Underscores may stand between digits.  Besides numerals there
are words, in capital and in small letters: `inf` and `infinity` with an
optional sign, and `nan` without one.

* `Binary.round` rounds a quotient of natural numbers;
* `Binary.numeral?` reads a numeral;
* `Floating.read?` reads a numeral or a word.
-/

namespace System370

/-- A number `± significand * 2 ^ exponent`. -/
structure Binary where
  negative : Bool
  significand : Nat
  exponent : Int
  deriving DecidableEq, Repr

namespace Binary

/-- The quotient rounded to the nearest whole number, ties to the even one. -/
def divRound (num den : Nat) : Nat :=
  let q := num / den
  let twice := 2 * (num % den)
  if twice < den then q
  else if den < twice then q + 1
  else q + q % 2

/-- The exponent of the largest power of two that is at most `num / den`. -/
def log2Quotient (num den : Nat) : Int :=
  let estimate : Int := (Nat.log2 num : Int) - Nat.log2 den
  if den * 2 ^ estimate.toNat ≤ num * 2 ^ (-estimate).toNat then estimate else
    estimate - 1

/-- The number of 53 significant bits nearest to `num / den`; none if it is too
large.  The quotient is positive. -/
def round (negative : Bool) (num den : Nat) : Option Binary :=
  let exponent := max (log2Quotient num den - 52) (-1074)
  let significand :=
    divRound (num * 2 ^ (-exponent).toNat) (den * 2 ^ exponent.toNat)
  if significand < 2 ^ 53 then
    if exponent ≤ 971 then some ⟨negative, significand, exponent⟩ else none
  else
    if exponent ≤ 970 then some ⟨negative, 2 ^ 52, exponent + 1⟩ else none

/-- The digits of a numeral read so far. -/
structure Mantissa where
  value : Nat := 0
  /-- How many digits followed the point. -/
  places : Nat := 0
  point : Bool := false
  digits : Bool := false
  underscores : Bool := false

/-- The value of a digit to the base 10 or 16. -/
def digit? (base : Nat) (c : UInt8) : Option Nat :=
  if isDigit c then some (digitValue c)
  else if base = 16 ∧ 0x61 ≤ lowerAscii c ∧ lowerAscii c ≤ 0x66 then
    some ((lowerAscii c).toNat - 0x57)
  else none

/-- Reads digits, underscores and one point; gives the text after them. -/
def readMantissa (base : Nat) (m : Mantissa) : Bytes → Mantissa × Bytes
  | [] => (m, [])
  | c :: rest =>
    if c = 0x5F then readMantissa base { m with underscores := true } rest
    else if c = 0x2E then
      if m.point then (m, c :: rest) else
        readMantissa base { m with point := true } rest
    else match digit? base c with
      | some d =>
        readMantissa base
          { m with
            value := m.value * base + d
            places := if m.point then m.places + 1 else m.places
            digits := true }
          rest
      | none => (m, c :: rest)

/-- Reads the digits of an exponent; further digits no longer count once it has
reached ten thousand.  The flag tells of underscores. -/
def readExponent (e : Nat) (underscores : Bool) : Bytes → Nat × Bool × Bytes
  | [] => (e, underscores, [])
  | c :: rest =>
    if c = 0x5F then readExponent e true rest
    else if isDigit c then
      readExponent (if e < 10000 then e * 10 + digitValue c else
        e) underscores rest
    else (e, underscores, c :: rest)

/-- What the last octet was, for the rule that underscores stand between
digits. -/
inductive Seen where
  | start
  | digit
  | underscore
  | other
  deriving DecidableEq, Repr

/-- Whether every underscore stands between digits. -/
def separates (base : Nat) (seen : Seen) : Bytes → Bool
  | [] => seen ≠ .underscore
  | c :: rest =>
    if (digit? base c).isSome then separates base .digit rest
    else if c = 0x5F then seen = .digit && separates base .underscore rest
    else seen ≠ .underscore && separates base .other rest

/-- Whether the underscores of a numeral without its sign separate digits; the
mark of a base counts as a digit. -/
def underscoresAllowed (text : Bytes) : Bool :=
  match text with
  | 0x30 :: c :: rest =>
    if lowerAscii c = octet 'x' then separates 16 .digit rest
    else if lowerAscii c = octet 'b' ∨ lowerAscii c = octet 'o' then
      separates 10 .digit rest
    else separates 10 .start text
  | _ => separates 10 .start text

/-- The exponent after the mark `e` or `p`, if there is one, and the text after
it; none for a mark without digits. -/
def exponentPart? (base : Nat) (text : Bytes) :
    Option (Option Int × Bool × Bytes) :=
  match text with
  | [] => some (none, false, [])
  | c :: rest =>
    if lowerAscii c = (if base = 16 then octet 'p' else octet 'e') then
      let negative := rest.head? = some 0x2D
      let body := if negative ∨ rest.head? = some 0x2B then rest.tail else rest
      match body.head? with
      | none => none
      | some d =>
        if isDigit d then
          let (e, underscores, after) := readExponent 0 false body
          some (some (if negative then -(e : Int) else e), underscores, after)
        else none
    else some (none, false, text)

/-- The number `value * base ^ shift` with the base ten or two.  Numbers far out
of range are settled by their magnitude. -/
def scale (negative : Bool) (base value : Nat) (shift : Int) : Option Binary :=
  if value = 0 then some ⟨negative, 0, 0⟩
  else
    let top : Int := ((Nat.toDigits base value).length : Int) + shift
    if top > (if base = 10 then 310 else 1100) then none
    else if top < (if base = 10 then -330 else -1200) then some ⟨negative, 0, 0⟩
    else round negative (value * base ^ shift.toNat) (base ^ (-shift).toNat)

/-- Whether a numeral without its sign has the mark of a hexadecimal one and
something after it. -/
def hexMark : Bytes → Bool
  | 0x30 :: c :: _ :: _ => lowerAscii c = octet 'x'
  | _ => false

/-- Reads a numeral; none if it is malformed or too large. -/
def numeral? (text : Bytes) : Option Binary :=
  let negative := text.head? = some 0x2D
  let body := if negative ∨ text.head? = some 0x2B then text.tail else text
  let hexadecimal := hexMark body
  let base := if hexadecimal then 16 else 10
  let (m, rest) :=
    readMantissa base {} (if hexadecimal then body.drop 2 else body)
  if !m.digits then none
  else match exponentPart? base rest with
    | none => none
    | some (exponent, underscores, after) =>
      if after ≠ [] ∨ (hexadecimal ∧ exponent.isNone) then none
      else if (m.underscores || underscores) &&
        !underscoresAllowed body then none
      else if hexadecimal then
        scale negative 2 m.value (exponent.getD 0 - 4 * m.places)
      else scale negative 10 m.value (exponent.getD 0 - m.places)

end Binary

/-- What the text of a floating-point number stands for. -/
inductive Floating where
  | finite (b : Binary)
  | infinite (negative : Bool)
  | notANumber
  deriving DecidableEq, Repr

namespace Floating

/-- The words for numbers that no numeral stands for, in small letters. -/
def word? (text : Bytes) : Option Floating :=
  if text = bytes "inf" ∨ text = bytes "infinity" then some (.infinite false)
  else if text = bytes "+inf" ∨ text = bytes "+infinity" then
    some (.infinite false)
  else if text = bytes "-inf" ∨ text = bytes "-infinity" then
    some (.infinite true)
  else if text = bytes "nan" then some .notANumber
  else none

/-- Reads a word or a numeral; none if it is malformed or too large. -/
def read? (text : Bytes) : Option Floating :=
  match word? (text.map lowerAscii) with
  | some number => some number
  | none => (Binary.numeral? text).map .finite

end Floating

end System370
