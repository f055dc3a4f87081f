/-!
# Byte strings

Source text, object code and printed output are all sequences of octets, and
every length, column and offset counts octets.  A byte string is therefore
simply a list of octets; characters enter only where a rule speaks of them
(`System370.Text`).  This file holds the textual operations that the other
modules share: literals, splitting and joining, padding, and the decimal and
hexadecimal spelling of numbers.

* `Bytes.splitOn` and `Bytes.join` take a text apart at a separator and put it
  together again;
* `decimal`, `hexUpper` and their padded forms spell numbers in the fixed
  shapes that messages and listings use.
-/

namespace System370

-- A power of a number is the core library's, whatever else a module imports.
attribute [instance (20000), default_instance 20000] instPowNat

/-- A sequence of octets. -/
abbrev Bytes := List UInt8

/-- The octets of a string constant, in UTF-8. -/
def bytes (s : String) : Bytes := s.toByteArray.data.toList

/-- The octet of an ASCII character. -/
def octet (c : Char) : UInt8 := c.toNat.toUInt8

/-- The octet of a blank. -/
def blank : UInt8 := 0x20

/-- The octet of an apostrophe, which quotes strings. -/
def quote : UInt8 := 0x27

/-- The octet of a comma. -/
def comma : UInt8 := 0x2C

namespace Bytes

/-- The pieces of a text between the occurrences of a separator.  There is
always one piece more than there are separators. -/
def splitOn (separator : UInt8) : Bytes → List Bytes
  | [] => [[]]
  | c :: rest =>
    if c = separator then [] :: splitOn separator rest
    else match splitOn separator rest with
      | [] => [[c]]
      | piece :: pieces => (c :: piece) :: pieces

/-- Texts put together with a separator between neighbours. -/
def join (separator : Bytes) : List Bytes → Bytes
  | [] => []
  | [piece] => piece
  | piece :: pieces => piece ++ separator ++ join separator pieces

/-- Every doubled octet `c` becomes a single one, from left to right. -/
def undouble (c : UInt8) : Bytes → Bytes
  | [] => []
  | [a] => [a]
  | a :: b :: rest => if a = c ∧ b = c then c :: undouble c rest else
    a :: undouble c (b :: rest)

/-- The text without its trailing octets that satisfy `p`. -/
def dropRightWhile (p : UInt8 → Bool) (text : Bytes) : Bytes :=
  (text.reverse.dropWhile p).reverse

/-- Whether `text` begins with `start`. -/
def startsWith (text start : Bytes) : Bool := start.isPrefixOf text

/-- At least `width` octets: the text with copies of `fill` before it. -/
def padLeft (width : Nat) (fill : UInt8) (text : Bytes) : Bytes :=
  List.replicate (width - text.length) fill ++ text

/-- At least `width` octets: the text with copies of `fill` after it. -/
def padRight (width : Nat) (fill : UInt8) (text : Bytes) : Bytes :=
  text ++ List.replicate (width - text.length) fill

/-- Exactly `width` octets: the text cut short, or with copies of `fill` after
it. -/
def fit (width : Nat) (fill : UInt8) (text : Bytes) : Bytes :=
  (text ++ List.replicate width fill).take width

/-- A fitted text has the width asked for. -/
@[simp] theorem length_fit (width : Nat) (fill : UInt8) (text : Bytes) :
    (fit width fill text).length = width := by
  simp [fit]

/-- Whether one text comes before another in the order of their octets. -/
def before : Bytes → Bytes → Bool
  | [], [] => false
  | [], _ :: _ => true
  | _ :: _, [] => false
  | a :: as, b :: bs => if a = b then before as bs else decide (a < b)

end Bytes

/-- Whether an octet is a decimal digit. -/
def isDigit (c : UInt8) : Bool := 0x30 ≤ c && c ≤ 0x39

/-- The value of a decimal digit. -/
def digitValue (c : UInt8) : Nat := c.toNat - 0x30

/-- An ASCII letter in upper case; any other octet as it is. -/
def upperAscii (c : UInt8) : UInt8 := if 0x61 ≤ c && c ≤ 0x7A then
  c - 0x20 else c

/-- An ASCII letter in lower case; any other octet as it is. -/
def lowerAscii (c : UInt8) : UInt8 := if 0x41 ≤ c && c ≤ 0x5A then
  c + 0x20 else c

/-- The octets of a numeral in some base, without a sign. -/
def digits (base n : Nat) : Bytes := (Nat.toDigits base n).map octet

/-- A number in decimal, a minus sign in front of a negative one. -/
def decimal (n : Int) : Bytes :=
  if n < 0 then octet '-' :: digits 10 n.natAbs else digits 10 n.natAbs

/-- A natural number in hexadecimal with capital letters. -/
def hexUpper (n : Nat) : Bytes := (digits 16 n).map upperAscii

/-- The sign and the digits of a number, filled with zeros between them to
`width` octets in all. -/
def zeroFilled (width : Nat) (n : Int) (numeral : Bytes) : Bytes :=
  if n < 0 then octet '-' :: Bytes.padLeft (width - 1) 0x30 numeral
  else Bytes.padLeft width 0x30 numeral

/-- A number in decimal, filled with zeros. -/
def decimalField (width : Nat) (n : Int) : Bytes :=
  zeroFilled width n (digits 10 n.natAbs)

/-- A number in capital hexadecimal, filled with zeros. -/
def hexField (width : Nat) (n : Int) : Bytes :=
  zeroFilled width n (hexUpper n.natAbs)

/-- A number in small hexadecimal with the mark `0x`, after its sign. -/
def hexMarked (n : Int) : Bytes :=
  (if n < 0 then [octet '-'] else []) ++ bytes "0x" ++ digits 16 n.natAbs

/-- Two hexadecimal digits for each octet. -/
def hexDump (data : Bytes) : Bytes :=
  data.flatMap fun b => Bytes.padLeft 2 0x30 (hexUpper b.toNat)

/-- A list in increasing order of `key`, elements of equal keys in their given
order: each element goes in front of the first that is not smaller. -/
def insertByKey {α : Type} (key : α → Int) (a : α) : List α → List α
  | [] => [a]
  | b :: rest => if key a ≤ key b then a :: b :: rest else
    b :: insertByKey key a rest

/-- Stable sorting by an integer key. -/
def sortByKey {α : Type} (key : α → Int) (items : List α) : List α :=
  items.foldr (insertByKey key) []

/-- Sorting by a text key in the order of octets, stable. -/
def insertByText {α : Type} (key : α → Bytes) (a : α) : List α → List α
  | [] => [a]
  | b :: rest =>
    if Bytes.before (key b) (key a) then b :: insertByText key a rest else
      a :: b :: rest

/-- Stable sorting by a text key in the order of octets. -/
def sortByText {α : Type} (key : α → Bytes) (items : List α) : List α :=
  items.foldr (insertByText key) []

end System370
