import System370.Constant.Basic
import System370.Floating.Hexadecimal

/-!
# The octets of a constant

Every nominal value of a data constant has as many octets as its length says.
Character values are cut or filled with blanks on the right.  Hexadecimal and
binary values are the low-order octets of the number, integers its two's
complement.  Decimal values stand at the right end of their field, two digits to
an octet and the sign in the last half octet when packed, one digit to an octet
and the sign in the last zone when zoned.  Floating-point values are the leading
octets of the long hexadecimal format.

The conversion of an infinite floating-point value never comes to an end, and so
neither does that of a constant with such a value, unless a value in front of it
has an error.  A `Failure` is an error or this.

* `Descriptor.encodeOnce` gives one copy of the values, `Descriptor.encoding`
  all copies;
* `Descriptor.validation` tells whether the values have octets at all.
-/

namespace System370

namespace Constant

/-- Why one value has no octets. -/
inductive ValueError where
  /-- It is too large for its length. -/
  | outOfRange
  /-- It is malformed, for the reason given. -/
  | malformed (reason : Bytes)
  /-- Its conversion never comes to an end. -/
  | endless
  deriving DecidableEq, Repr

/-- The last `width` octets of a text, with copies of `fill` before a shorter
one. -/
def rightAlign (width : Nat) (fill : UInt8) (text : Bytes) : Bytes :=
  (List.replicate width fill ++ text).drop text.length

@[simp] theorem length_rightAlign (width : Nat) (fill : UInt8) (text : Bytes) :
    (rightAlign width fill text).length = width := by
  simp [rightAlign]

/-- A decimal numeral without sign, point and leading zeros. -/
structure Decimal where
  negative : Bool
  digits : List Nat
  deriving DecidableEq, Repr

/-- Reads a decimal numeral.  A sign in front and one point anywhere are
dropped. -/
def readDecimal (text : Bytes) : Except ValueError Decimal :=
  let negative := text.head? = some 0x2D
  let body := if negative ∨ text.head? = some 0x2B then text.tail else text
  let numeral := body.erase 0x2E
  if numeral = [] then .error (.malformed (bytes "missing digits"))
  else if numeral.any (fun c => !isDigit c) then
    .error (.malformed (bytes "invalid decimal digit"))
  else
    let significant := (numeral.map digitValue).dropWhile (· = 0)
    .ok ⟨negative, if significant = [] then [0] else significant⟩

/-- Half octets in pairs. -/
def pairNibbles : List Nat → Bytes
  | a :: b :: rest => (a * 16 + b).toUInt8 :: pairNibbles rest
  | _ => []

/-- The half octet of a sign. -/
def signNibble (negative : Bool) : Nat := if negative then 0xD else 0xC

/-- A packed value. -/
def encodePacked (length : Nat) (d : Decimal) : Except ValueError Bytes :=
  let nibbles := d.digits ++ [signNibble d.negative]
  let octets :=
    pairNibbles (if nibbles.length % 2 = 0 then nibbles else 0 :: nibbles)
  if length < octets.length then .error .outOfRange else
    .ok (rightAlign length 0 octets)

/-- A zoned value. -/
def encodeZoned (length : Nat) (d : Decimal) : Except ValueError Bytes :=
  if length < d.digits.length then .error .outOfRange
  else
    let last := d.digits.getLastD 0
    let octets := d.digits.dropLast.map (fun n => (0xF0 + n).toUInt8)
    .ok (rightAlign length 0xF0
      (octets ++ [(signNibble d.negative * 16 + last).toUInt8]))

/-- An integer in two's complement; a field of eight octets holds every one. -/
def encodeInteger (length : Nat) (n : Int64) : Except ValueError Bytes :=
  if length < 8 ∧
    (n.toInt < -(2 ^ (8 * length - 1)) ∨ 2 ^ (8 * length - 1) ≤ n.toInt) then
    .error .outOfRange
  else .ok (Field.put length n.toInt)

/-- A floating-point value. -/
def encodeFloat (length : Nat) (value : Bytes) : Except ValueError Bytes :=
  match Floating.read? value with
  | none => .error (.malformed (bytes "invalid floating point value"))
  | some number =>
    match number.hexadecimal with
    | .word n => .ok ((Field.put 8 n).take length)
    | .outOfRange => .error .outOfRange
    | .endless => .error .endless

/-- The octets of one nominal value. -/
def encodeValue (kind : Kind) (value : Bytes) (length : Nat) :
    Except ValueError Bytes :=
  match kind with
  | .character =>
    match CodePage037.encode value with
    | .ok encoded => .ok (Bytes.fit length CodePage037.blank encoded)
    | .error e => .error (.malformed e.message)
  | .hexadecimal =>
    match Numeral.hex value with
    | .ok octets => .ok (rightAlign length 0 octets)
    | .error e => .error (.malformed e.message)
  | .binary =>
    match Numeral.binary value with
    | .ok octets => .ok (rightAlign length 0 octets)
    | .error e => .error (.malformed e.message)
  | .fullword | .halfword =>
    match Numeral.integer value with
    | .ok n => encodeInteger length n
    | .error e => .error (.malformed e.message)
  | .packed => (readDecimal value).bind (encodePacked length)
  | .zoned => (readDecimal value).bind (encodeZoned length)
  | .shortFloat | .longFloat => encodeFloat length value
  | .address | .halfAddress | .externalAddress | .baseDisplacement =>
    .error (.malformed (Error.unsupported kind.letter).message)

/-- Why a constant has no octets. -/
inductive Failure where
  /-- Something is wrong with the constant. -/
  | error (e : Error)
  /-- The conversion of a value never comes to an end. -/
  | endless
  deriving DecidableEq, Repr

namespace ValueError

/-- What the failure of a value of some length means for the constant with a
text. -/
def blame (text : Bytes) (length : Nat) : ValueError → Failure
  | outOfRange => .error (.outOfRange text length)
  | malformed reason => .error (.malformed text reason)
  | endless => .endless

end ValueError

/-- The error of a failure.  A conversion that never comes to an end has none;
for the sake of a total function its values count as not yet known. -/
def Failure.cause : Failure → Error
  | error e => e
  | endless => .unresolved

/-- The octets of a list of values of given lengths, or the failure of the first
value without octets. -/
def encodeValues (text : Bytes) (kind : Kind) :
    List (Bytes × Nat) → Except Failure Bytes
  | [] => .ok []
  | (value, length) :: rest =>
    match encodeValue kind value length with
    | .error e => .error (e.blame text length)
    | .ok octets => (encodeValues text kind rest).map (octets ++ ·)

namespace Descriptor

/-- One copy of the values of a data constant. -/
def encodeOnce (d : Descriptor) : Except Failure Bytes :=
  if d.kind.isAddress then .error (.error .unresolved)
  else encodeValues d.text d.kind (d.nominal.zip d.lengths)

/-- All octets of a data constant; zeros if there are no values. -/
def encoding (d : Descriptor) : Except Failure Bytes :=
  if d.nominal = [] ∧ d.kind.isAddress = false then
    .ok (List.replicate d.size 0)
  else d.encodeOnce.map fun item => (List.replicate d.dup item).flatten

/-- Whether the values of a constant have octets. -/
def validation (d : Descriptor) : Except Failure Unit :=
  d.encodeOnce.map fun _ => ()

/-- All octets of a data constant whose conversion comes to an end. -/
def encode (d : Descriptor) : Except Error Bytes :=
  d.encoding.mapError Failure.cause

/-- The reason why the values of a constant have no octets, if there is one. -/
def validate (d : Descriptor) : Option Error :=
  match d.validation with
  | .ok () => none
  | .error failure => some failure.cause

end Descriptor

end Constant

end System370
