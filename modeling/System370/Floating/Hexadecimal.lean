import System370.Floating.Binary

/-!
# Hexadecimal floating point

The long format has a sign bit, a characteristic of seven bits and a fraction of
56 bits: the value is `± 0.fraction * 16 ^ (characteristic - 64)`, the first
digit of the fraction being nonzero.  A significand of 53 bits always fits the
fraction, so the conversion is exact; only the characteristic can be out of
range.  The short format is the first half of the long one.

The characteristic is found by dividing the number by 16 as long as it is at
least one, and then multiplying it by 16 as long as it is below 1/16.  An
infinite number stays infinite when it is divided, so its conversion never comes
to an end.

* `Binary.hexadecimal?` converts a number with a significand;
* `Floating.hexadecimal` converts whatever a text stands for.
-/

namespace System370

namespace Binary

/-- The power of 16 that brings a nonzero number into the interval from 1/16
inclusive to 1. -/
def hexExponent (b : Binary) : Int :=
  ((Nat.log2 b.significand : Int) + b.exponent) / 4 + 1

/-- The eight octets of a number in the long format, as an unsigned word; none
if its characteristic does not fit seven bits.  Zero has no sign. -/
def hexadecimal? (b : Binary) : Option Nat :=
  if b.significand = 0 then some 0
  else
    let characteristic := b.hexExponent + 64
    if characteristic < 0 ∨ 127 < characteristic then none
    else
      let fraction :=
        b.significand * 2 ^ (b.exponent - 4 * b.hexExponent + 56).toNat
      some ((if b.negative then 2 ^ 63 else 0) + characteristic.toNat *
        2 ^ 56 + fraction)

end Binary

/-- What a conversion to hexadecimal floating point comes to. -/
inductive HexConversion where
  /-- The eight octets of the long format, as an unsigned word. -/
  | word (n : Nat)
  /-- The characteristic does not fit seven bits. -/
  | outOfRange
  /-- The conversion never comes to an end. -/
  | endless
  deriving DecidableEq, Repr

namespace Floating

/-- The unsigned word that a processor makes of what is no number; no rule says
which, and this is the one of `x86-64`. -/
def undefinedWord : Nat := 2 ^ 63

/-- Converts a number to the long format.  What is no number is neither at least
one nor below 1/16: its exponent stays zero. -/
def hexadecimal : Floating → HexConversion
  | finite b =>
    match b.hexadecimal? with
    | none => .outOfRange
    | some n => .word n
  | infinite _ => .endless
  | notANumber => .word (64 * 2 ^ 56 ||| undefinedWord)

end Floating

end System370
