import System370.CodePage037
import System370.Field

/-!
# Numerals

The numbers of the source language: hexadecimal and binary strings, decimal
integers, and the self-defining terms `X'..'`, `B'..'` and `C'..'`.

* `Numeral.hex` and `Numeral.binary` read a string of digits into octets,
  filled with zero digits on the left to whole octets;
* `Numeral.integer` reads an optional sign and decimal digits in the range of a
  signed 64-bit word.  A plus sign is dropped before the numeral itself, with a
  sign of its own, is read;
* `Numeral.term` reads the body of a self-defining term, which has at most four
  octets once leading zero octets are dropped.
-/

namespace System370

/-- Why a text is no numeral. -/
inductive NumeralError where
  | emptyHex
  | emptyBinary
  | invalidHex (text : Bytes)
  | invalidBinary (text : Bytes)
  | invalidInteger (text : Bytes)
  | integerOutOfRange (text : Bytes)
  | unencodable (character : CodePage037.Unencodable)
  | invalidTermType (kind : UInt8)
  | oversizedTerm (kind : UInt8) (body : Bytes)
  deriving DecidableEq, Repr

namespace NumeralError

/-- The text of the failure. -/
def message : NumeralError → Bytes
  | emptyHex => bytes "Empty hex string"
  | emptyBinary => bytes "Empty binary string"
  | invalidHex text => bytes "Invalid hex string '" ++ text ++ bytes "'"
  | invalidBinary text => bytes "Invalid binary string '" ++ text ++ bytes "'"
  | invalidInteger text =>
    bytes "strconv.ParseInt: parsing " ++ quoted text ++
      bytes ": invalid syntax"
  | integerOutOfRange text =>
    bytes "strconv.ParseInt: parsing " ++ quoted text ++
      bytes ": value out of range"
  | unencodable character => character.message
  | invalidTermType kind => bytes "Invalid self-defining term type " ++
    Utf8.encode kind.toNat
  | oversizedTerm kind body =>
    bytes "Self-defining term " ++ Utf8.encode kind.toNat ++
      bytes "'" ++ body ++
      bytes "' exceeds 4 bytes"

end NumeralError

namespace Numeral

/-- The value of a hexadecimal digit. -/
def hexValue? (c : UInt8) : Option Nat :=
  if isDigit c then some (digitValue c)
  else if 0x41 ≤ c && c ≤ 0x46 then some (c.toNat - 0x37)
  else if 0x61 ≤ c && c ≤ 0x66 then some (c.toNat - 0x57)
  else none

/-- The value of a binary digit. -/
def bitValue? (c : UInt8) : Option Nat :=
  if c = 0x30 then some 0 else if c = 0x31 then some 1 else none

/-- The octets of digits to the base `base`, `perOctet` of them to an octet.
The length is a multiple of `perOctet`. -/
def packDigits (base perOctet : Nat) (values : List Nat) : Bytes :=
  (List.range (values.length / perOctet)).map fun i =>
    (((values.drop (i * perOctet)).take perOctet).foldl
      (fun n d => n * base + d) 0).toUInt8

/-- Digits with zeros on the left to whole octets. -/
def wholeOctets (perOctet : Nat) (text : Bytes) : Bytes :=
  List.replicate ((perOctet - text.length % perOctet) % perOctet) 0x30 ++ text

/-- A string of digits to the base `base` as octets. -/
def digitString (base perOctet : Nat) (value? : UInt8 → Option Nat)
    (empty : NumeralError) (invalid : Bytes → NumeralError) (text : Bytes) :
    Except NumeralError Bytes :=
  if text = [] then .error empty
  else
    let padded := wholeOctets perOctet text
    match padded.mapM value? with
    | some values => .ok (packDigits base perOctet values)
    | none => .error (invalid padded)

/-- A string of hexadecimal digits as octets. -/
def hex (text : Bytes) : Except NumeralError Bytes :=
  digitString 16 2 hexValue? .emptyHex .invalidHex text

/-- A string of binary digits as octets. -/
def binary (text : Bytes) : Except NumeralError Bytes :=
  digitString 2 8 bitValue? .emptyBinary .invalidBinary text

/-- The outcome of reading decimal digits from left to right. -/
inductive Magnitude where
  /-- The value, below `2 ^ 64`. -/
  | value (n : Nat)
  /-- An octet that is no digit, or no digits at all. -/
  | invalid
  /-- The digits read so far exceed an unsigned 64-bit word. -/
  | overflow
  deriving DecidableEq, Repr

/-- Reads digits after the value `n`; the first octet that is no digit or that
takes the value out of 64 bits decides. -/
def readDigits (n : Nat) : Bytes → Magnitude
  | [] => .value n
  | c :: rest =>
    if isDigit c then
      if 2 ^ 64 ≤ n * 10 + digitValue c then .overflow else
        readDigits (n * 10 + digitValue c) rest
    else .invalid

/-- The magnitude of an unsigned numeral; an empty one is invalid. -/
def magnitude (text : Bytes) : Magnitude := if text = [] then .invalid else
  readDigits 0 text

/-- A signed numeral: its value, or the failure together with the nearest value
in range (zero for a malformed one). -/
def signed (text : Bytes) : Except (NumeralError × Int64) Int64 :=
  let negative := text.head? = some 0x2D
  let body := if negative ∨ text.head? = some 0x2B then text.tail else text
  match magnitude body with
  | .invalid => .error (.invalidInteger text, 0)
  | .overflow =>
    .error (.integerOutOfRange text, if negative then Int64.minValue else
      Int64.maxValue)
  | .value n =>
    if negative then
      if n ≤ 2 ^ 63 then .ok (Int64.ofInt (-n)) else
        .error (.integerOutOfRange text, Int64.minValue)
    else
      if n < 2 ^ 63 then .ok (Int64.ofNat n) else
        .error (.integerOutOfRange text, Int64.maxValue)

/-- The numeral without one leading plus sign. -/
def dropPlus (text : Bytes) : Bytes := if text.head? = some 0x2B then
  text.tail else text

/-- A decimal integer. -/
def integer (text : Bytes) : Except NumeralError Int64 :=
  match signed (dropPlus text) with
  | .ok n => .ok n
  | .error (e, _) => .error e

/-- A decimal integer, the nearest value in range standing in for one out of
range. -/
def nearestInteger (text : Bytes) : Int64 :=
  match signed (dropPlus text) with
  | .ok n => n
  | .error (_, n) => n

/-- Octets without leading zeros beyond the last four. -/
def dropZeros : Bytes → Bytes
  | [] => []
  | b :: rest => if b = 0 ∧ 4 ≤ rest.length then dropZeros rest else b :: rest

/-- The octets that the body of a self-defining term of type `kind` spells. -/
def termOctets (kind : UInt8) (body : Bytes) : Except NumeralError Bytes :=
  if upperAscii kind = octet 'X' then hex body
  else if upperAscii kind = octet 'B' then binary body
  else if upperAscii kind = octet 'C' then
    match CodePage037.encode body with
    | .ok octets => .ok octets
    | .error e => .error (.unencodable e)
  else .error (.invalidTermType kind)

/-- The value of a self-defining term. -/
def term (kind : UInt8) (body : Bytes) : Except NumeralError Int64 :=
  match termOctets kind body with
  | .error e => .error e
  | .ok octets =>
    let significant := dropZeros octets
    if significant = [] ∨ 4 < significant.length then
      .error (.oversizedTerm kind body)
    else .ok (Int64.ofNat (Field.get significant))

end Numeral

end System370
