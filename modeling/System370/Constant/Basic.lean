import System370.Numeral
import System370.Scan

/-!
# Constants

An operand of `DC`, of `DS` or a literal describes a constant: a duplication
factor, a type letter, an optional length modifier and nominal values, as in
`3FL2'1,2'` or `A(FIELD)`.  A `Descriptor` is the parsed form.  Each nominal
value has a length of its own; the constant occupies all of them, repeated as
often as the duplication factor says.

* `Kind` is the type with its natural length, its alignment and its range of
  lengths;
* `Descriptor.size` is the number of octets the operand occupies;
* `Error` says what can be wrong with a constant.
-/

namespace System370

namespace Constant

/-- The type of a constant. -/
inductive Kind where
  | character
  | hexadecimal
  | binary
  | packed
  | zoned
  | fullword
  | halfword
  | shortFloat
  | longFloat
  | address
  | halfAddress
  | externalAddress
  | baseDisplacement
  deriving DecidableEq, Repr

namespace Kind

/-- The letter of a type. -/
def letter : Kind → UInt8
  | character => octet 'C'
  | hexadecimal => octet 'X'
  | binary => octet 'B'
  | packed => octet 'P'
  | zoned => octet 'Z'
  | fullword => octet 'F'
  | halfword => octet 'H'
  | shortFloat => octet 'E'
  | longFloat => octet 'D'
  | address => octet 'A'
  | halfAddress => octet 'Y'
  | externalAddress => octet 'V'
  | baseDisplacement => octet 'S'

/-- All types. -/
def all : List Kind :=
  [character, hexadecimal, binary, packed, zoned, fullword, halfword,
    shortFloat, longFloat,
    address, halfAddress, externalAddress, baseDisplacement]

/-- The type of a capital letter. -/
def ofLetter? (c : UInt8) : Option Kind := all.find? (·.letter = c)

/-- The length without a length modifier; one for types whose length depends on
the nominal value. -/
def natural : Kind → Nat
  | fullword | shortFloat | address | externalAddress => 4
  | halfword | halfAddress | baseDisplacement => 2
  | longFloat => 8
  | _ => 1

/-- The boundary of a constant without a length modifier. -/
def alignment : Kind → Nat := natural

/-- The least length of one value. -/
def minLength : Kind → Nat
  | externalAddress => 3
  | baseDisplacement => 2
  | _ => 1

/-- The greatest length of one value. -/
def maxLength : Kind → Nat
  | character | hexadecimal | binary => 256
  | packed | zoned => 16
  | fullword | halfword | shortFloat | longFloat => 8
  | address | externalAddress => 4
  | halfAddress | baseDisplacement => 2

/-- Whether the nominal values are expressions for addresses. -/
def isAddress : Kind → Bool
  | address | halfAddress | externalAddress | baseDisplacement => true
  | _ => false

end Kind

/-- The greatest number of octets one operand may occupy. -/
def maxSize : Nat := 2 ^ 31

/-- What is wrong with a constant. -/
inductive Error where
  /-- The operand breaks the grammar, for the reason given. -/
  | malformed (text reason : Bytes)
  /-- No constant has this type letter. -/
  | unsupported (letter : UInt8)
  /-- A factor, a length or a value is out of range. -/
  | outOfRange (text : Bytes) (length : Int)
  /-- The values are addresses and have no octets yet. -/
  | unresolved
  /-- A value is required. -/
  | missingNominal
  deriving DecidableEq, Repr

/-- The text of the failure. -/
def Error.message : Error → Bytes
  | malformed text reason => bytes "Invalid constant '" ++ text ++
    bytes "': " ++ reason
  | unsupported letter =>
    bytes "Unsupported constant type '" ++ Utf8.encode letter.toNat ++ bytes "'"
  | outOfRange text length =>
    bytes "Value '" ++ text ++ bytes "' does not fit in " ++ decimal length ++
      bytes " bytes"
  | unresolved => bytes "Address constants are resolved by the assembler"
  | missingNominal => bytes "missing nominal value"

/-- A parsed operand. -/
structure Descriptor where
  text : Bytes
  dup : Nat
  kind : Kind
  /-- The length modifier, if one is written. -/
  explicitLength : Option Nat
  nominal : List Bytes
  /-- The length of each nominal value; one length if there are no values. -/
  lengths : List Nat
  deriving DecidableEq, Repr

namespace Descriptor

/-- The octets of one copy of the values. -/
def itemSize (d : Descriptor) : Nat := d.lengths.foldr (· + ·) 0

/-- The octets that the operand occupies. -/
def size (d : Descriptor) : Nat := d.itemSize * d.dup

/-- The boundary that the operand starts on. -/
def alignment (d : Descriptor) : Nat :=
  if d.explicitLength.isSome then 1 else d.kind.alignment

/-- The length attribute of a label on the operand: the length of its first
value. -/
def lengthAttribute (d : Descriptor) : Nat := d.lengths.headD 1

end Descriptor

end Constant

end System370
