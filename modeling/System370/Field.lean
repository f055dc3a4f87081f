import System370.Bytes

/-!
# Binary fields

Machine words and the numeric columns of a card are big-endian.  Writing a
number into a field keeps its low-order octets, in two's complement for a
negative number; reading gives the unsigned number that the octets spell.

* `Field.put width n` always has `width` octets (`Field.length_put`) and holds
  `n` modulo `256 ^ width` (`Field.get_put`);
* `Field.fits` says whether a number is in the range of a field, read as signed
  or as unsigned;
* `alignUp` rounds a location up to a boundary.
-/

namespace System370

namespace Field

/-- The `width` low-order octets of a number, most significant first. -/
def put : Nat → Int → Bytes
  | 0, _ => []
  | width + 1, n => put width (n / 256) ++ [(n % 256).toNat.toUInt8]

/-- The unsigned number that a field holds. -/
def get (field : Bytes) : Nat := field.foldl (fun n b => n * 256 + b.toNat) 0

/-- The unsigned number that a field holds, kept to 64 bits. -/
def word (field : Bytes) : Nat := get field % 2 ^ 64

/-- A power of two in 64 bits: the sign bit alone for the exponent 63, zero for
any greater one. -/
def power (exponent : UInt64) : Int64 :=
  if exponent < 64 then Int64.ofNat (2 ^ exponent.toNat) else 0

/-- Whether a number is representable in `width` octets, as a signed or as an
unsigned quantity.  Only zero fits a field of no octets.  Widths count in bits,
and that count wraps at 64 bits. -/
def fits (n width : Int64) : Bool :=
  if 8 ≤ width then true
  else
    let bits := (width * 8).toUInt64
    n < power bits && -power (bits - 1) ≤ n

@[simp] theorem length_put (width : Nat) (n : Int) :
    (put width n).length = width := by
  induction width generalizing n with
  | zero => rfl
  | succ width ih => simp [put, ih]

/-- The last octet of a field is its low-order digit to the base 256. -/
theorem get_concat (field : Bytes) (b : UInt8) :
    get (field ++ [b]) = get field * 256 + b.toNat := by
  simp [get]

/-- A field holds the number written into it, up to multiples of `256 ^
width`. -/
theorem get_put (width : Nat) (n : Int) :
    (get (put width n) : Int) = n % 256 ^ width := by
  induction width generalizing n with
  | zero => simp [put, get]
  | succ width ih =>
    have octet_eq : ((n % 256).toNat.toUInt8.toNat : Int) = n % 256 := by
      have nonneg : 0 ≤ n % 256 := Int.emod_nonneg n (by decide)
      have small : n % 256 < 256 := Int.emod_lt_of_pos n (by decide)
      have : (n % 256).toNat % 2 ^ 8 = (n % 256).toNat :=
        Nat.mod_eq_of_lt (by omega)
      rw [Nat.toUInt8, UInt8.toNat_ofNat', this]
      omega
    have quotient : n / (256 * 256 ^ width) = n / 256 / 256 ^ width :=
      (Int.ediv_ediv_of_nonneg (by decide)).symm
    have expand : n / 256 % 256 ^ width =
        n / 256 - 256 ^ width * (n / 256 / 256 ^ width) :=
      Int.emod_def ..
    rw [put, get_concat, Int.natCast_add, Int.natCast_mul, ih, octet_eq,
      Int.pow_succ, Int.mul_comm ((256 : Int) ^ width) 256,
      Int.emod_def n (256 * 256 ^ width), quotient, expand, Int.mul_assoc,
      Int.sub_mul, Int.mul_comm (256 ^ width * _) ((256 : Nat) : Int)]
    omega

end Field

/-- The first multiple of `boundary` from `n` upwards; `n` itself for a boundary
of at most one.  Remainders have the sign of `n`, and sums wrap at 64 bits. -/
def alignUp (n boundary : Int64) : Int64 :=
  if boundary ≤ 1 then n
  else if n % boundary = 0 then n
  else n + boundary - n % boundary

end System370
