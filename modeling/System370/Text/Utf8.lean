import System370.Bytes

/-!
# Characters of a byte string

A byte string is read as UTF-8 wherever a rule speaks of characters.  Reading
never fails: an octet that starts no well-formed character stands alone and
reads as the replacement character U+FFFD.

* `Utf8.decode` gives the characters in order, each with the octets it came
  from, so that the octets concatenate to the text again;
* `Utf8.encode` spells a code point, the replacement character for one that is
  no scalar value.
-/

namespace System370

/-- A character of a text: its code point and the octets that spell it. -/
structure Character where
  code : Nat
  spelling : Bytes
  deriving DecidableEq, Repr

namespace Utf8

/-- The code point that stands for an octet outside any character. -/
def replacement : Nat := 0xFFFD

/-- An octet that may continue a character. -/
def isTail (b : UInt8) : Bool := 0x80 ≤ b && b ≤ 0xBF

/-- The six payload bits of a continuing octet. -/
def tailBits (b : UInt8) : Nat := b.toNat % 0x40

/-- Whether `b` may follow the lead octet `a` of a character of three octets. -/
def second3 (a b : UInt8) : Bool :=
  if a = 0xE0 then 0xA0 ≤ b && b ≤ 0xBF
  else if a = 0xED then 0x80 ≤ b && b ≤ 0x9F
  else isTail b

/-- Whether `b` may follow the lead octet `a` of a character of four octets. -/
def second4 (a b : UInt8) : Bool :=
  if a = 0xF0 then 0x90 ≤ b && b ≤ 0xBF
  else if a = 0xF4 then 0x80 ≤ b && b ≤ 0x8F
  else isTail b

/-- The character at the start of a text whose first octet is `a`. -/
def first (a : UInt8) (rest : Bytes) : Character :=
  if a < 0x80 then ⟨a.toNat, [a]⟩
  else match rest with
    | b :: more =>
      if 0xC2 ≤ a && a ≤ 0xDF && isTail b then
        ⟨a.toNat % 0x20 * 0x40 + tailBits b, [a, b]⟩
      else match more with
        | c :: more =>
          if 0xE0 ≤ a && a ≤ 0xEF && second3 a b && isTail c then
            ⟨(a.toNat % 0x10 * 0x40 + tailBits b) * 0x40 + tailBits c,
              [a, b, c]⟩
          else match more with
            | d :: _ =>
              if 0xF0 ≤ a && a ≤ 0xF4 && second4 a b && isTail c &&
                isTail d then
                ⟨((a.toNat % 8 * 0x40 + tailBits b) * 0x40 + tailBits c) *
                  0x40 + tailBits d, [a, b, c, d]⟩
              else ⟨replacement, [a]⟩
            | [] => ⟨replacement, [a]⟩
        | [] => ⟨replacement, [a]⟩
    | [] => ⟨replacement, [a]⟩

/-- The characters of a text after its first `skip` octets, which belong to a
character already read. -/
def decodeFrom : Nat → Bytes → List Character
  | _, [] => []
  | skip + 1, _ :: rest => decodeFrom skip rest
  | 0, a :: rest => first a rest ::
    decodeFrom ((first a rest).spelling.length - 1) rest

/-- The characters of a text. -/
def decode (text : Bytes) : List Character := decodeFrom 0 text

/-- The octets of a code point; those of the replacement character for a number
that is no scalar value. -/
def encode (code : Nat) : Bytes :=
  if code < 0x80 then [code.toUInt8]
  else if code < 0x800 then
    [(0xC0 + code / 0x40).toUInt8, (0x80 + code % 0x40).toUInt8]
  else if 0xD800 ≤ code ∧ code < 0xE000 ∨ 0x110000 ≤ code then
    [0xEF, 0xBF, 0xBD]
  else if code < 0x10000 then
    [(0xE0 + code / 0x1000).toUInt8, (0x80 + code / 0x40 % 0x40).toUInt8,
      (0x80 + code % 0x40).toUInt8]
  else
    [(0xF0 + code / 0x40000).toUInt8, (0x80 + code / 0x1000 % 0x40).toUInt8,
      (0x80 + code / 0x40 % 0x40).toUInt8, (0x80 + code % 0x40).toUInt8]

/-- How many characters a text has. -/
def length (text : Bytes) : Nat := (decode text).length

/-- Whether a character stands for an octet outside any character. -/
def isStray (r : Character) : Bool :=
  r.code = replacement && r.spelling.length = 1

/-- A text filled with blanks on the right to at least `width` characters. -/
def padRight (width : Nat) (text : Bytes) : Bytes :=
  text ++ List.replicate (width - length text) blank

end Utf8

end System370
