import System370.Floating.Binary

/-!
# Numerals that mark their base

A whole number may announce the base of its digits: `0b` for binary, `0o` or a
plain zero in front for octal, `0x` for hexadecimal.  Without a mark its digits
are decimal.

* `MarkedNumeral.magnitude?` reads the digits of a known base;
* `MarkedNumeral.read?` reads a numeral with an optional sign, whose size is not
  limited.
-/

namespace System370

namespace MarkedNumeral

/-- The value of digits to a base up to sixteen.  No digits at all are zero. -/
def magnitude? (base : Nat) (text : Bytes) : Option Nat :=
  text.foldlM (fun n c =>
    match Binary.digit? 16 c with
    | some d => if d < base then some (n * base + d) else none
    | none => none) 0

/-- The base that the start of an unsigned numeral announces, and its digits. -/
def splitBase (text : Bytes) : Nat × Bytes :=
  match text with
  | 0x30 :: c :: d :: rest =>
    if lowerAscii c = octet 'b' then (2, d :: rest)
    else if lowerAscii c = octet 'o' then (8, d :: rest)
    else if lowerAscii c = octet 'x' then (16, d :: rest)
    else (8, c :: d :: rest)
  | 0x30 :: rest => (8, rest)
  | _ => (10, text)

/-- A numeral with an optional sign, where `unsigned?` reads what follows the
sign. -/
def readSigned? (unsigned? : Bytes → Option Nat) (text : Bytes) : Option Int :=
  match text with
  | [] => none
  | c :: body =>
    if c = 0x2D then if body = [] then none else
      (unsigned? body).map fun n => -(n : Int)
    else if c = 0x2B then if body = [] then none else
      (unsigned? body).map fun n => (n : Int)
    else (unsigned? text).map fun n => (n : Int)

/-- The number that a numeral with an optional sign stands for. -/
def read? (text : Bytes) : Option Int :=
  readSigned? (fun body => magnitude? (splitBase body).1 (splitBase body).2)
    text

/-- Whether a number fits a signed 64-bit word. -/
def isSignedWord (n : Int) : Bool := -2 ^ 63 ≤ n && n < 2 ^ 63

end MarkedNumeral

end System370
