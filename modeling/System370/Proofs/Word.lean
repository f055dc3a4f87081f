import System370.Field

/-!
# Locations as integers

Locations are 64-bit words, and their sums wrap.  The lemmas of this file say
when such a sum is the sum of integers, and by how much `alignUp` moves a
location: by less than sixteen octets, and forwards unless the result is
negative.  Boundaries divide the range of a word, so being on one of them
(`OnBoundary`) survives every wrap.
-/

namespace System370

/-- A sum in range does not wrap. -/
theorem toInt_add_of_range {a b : Int64}
    (low : -2 ^ 63 ≤ a.toInt + b.toInt) (high : a.toInt + b.toInt < 2 ^ 63) :
    (a + b).toInt = a.toInt + b.toInt := by
  rw [Int64.toInt_add]
  exact Int.bmod_eq_of_le (by omega) (by omega)

/-- A difference in range does not wrap. -/
theorem toInt_sub_of_range {a b : Int64}
    (low : -2 ^ 63 ≤ a.toInt - b.toInt) (high : a.toInt - b.toInt < 2 ^ 63) :
    (a - b).toInt = a.toInt - b.toInt := by
  rw [Int64.toInt_sub]
  exact Int.bmod_eq_of_le (by omega) (by omega)

/-- Sums are determined up to multiples of the range. -/
theorem toInt_add_cases (a b : Int64) :
    (a + b).toInt = a.toInt + b.toInt ∨
      (a + b).toInt = a.toInt + b.toInt - 2 ^ 64 ∨
      (a + b).toInt = a.toInt + b.toInt + 2 ^ 64 := by
  have ha := a.toInt_lt
  have hb := b.toInt_lt
  have ha' := a.le_toInt
  have hb' := b.le_toInt
  rw [Int64.toInt_add, Int.bmod_def]
  omega

/-- A sum of numbers that are not negative wraps to a negative one. -/
theorem toInt_add_of_nonneg {a b : Int64} (ha : 0 ≤ a.toInt) (hb : 0 ≤ b.toInt)
    (h : 0 ≤ (a + b).toInt) : (a + b).toInt = a.toInt + b.toInt := by
  have halt := a.toInt_lt
  have hblt := b.toInt_lt
  have hlt := (a + b).toInt_lt
  rcases toInt_add_cases a b with hsum | hsum | hsum
  · exact hsum
  · omega
  · omega

/-- The order of words is that of their numbers. -/
theorem nonneg_iff (a : Int64) : 0 ≤ a ↔ 0 ≤ a.toInt := by
  rw [Int64.le_iff_toInt_le, Int64.toInt_zero]

/-- A word is a multiple if its integer is. -/
theorem mod_eq_zero_iff (n b : Int64) : n % b = 0 ↔ b.toInt ∣ n.toInt := by
  rw [← Int64.toInt_inj, Int64.toInt_mod, Int64.toInt_zero]
  exact ⟨Int.dvd_of_tmod_eq_zero, Int.tmod_eq_zero_of_dvd⟩

/-- A boundary of at most eight moves a location by less than sixteen octets. -/
theorem alignUp_eq_add (n : Int64) {b : Int64} (h : b.toInt ≤ 8) :
    ∃ gap : Int64, 0 ≤ gap.toInt ∧ gap.toInt < 16 ∧ alignUp n b = n + gap := by
  unfold alignUp
  split
  · exact ⟨0, by simp, by simp, by simp⟩
  · rename_i above
    rw [Int64.le_iff_toInt_le] at above
    have hb : 1 < b.toInt := by simpa using above
    split
    · exact ⟨0, by simp, by simp, by simp⟩
    · have hrem : (n % b).toInt = n.toInt.tmod b.toInt := Int64.toInt_mod n b
      have hlow : -b.toInt < n.toInt.tmod b.toInt := by
        have := Int.tmod_lt_of_pos (-n.toInt) (by omega : 0 < b.toInt)
        rw [Int.neg_tmod] at this
        omega
      have hhigh := Int.tmod_lt_of_pos n.toInt (by omega : 0 < b.toInt)
      have hgap : (b - n % b).toInt = b.toInt - n.toInt.tmod b.toInt := by
        rw [toInt_sub_of_range (by omega) (by omega), hrem]
      refine ⟨b - n % b, by omega, by omega, ?_⟩
      grind

/-- Aligning a location forwards: if nothing becomes negative, nothing wraps. -/
theorem le_alignUp {n b : Int64} (h : b.toInt ≤ 8) (hn : 0 ≤ n.toInt)
    (hup : 0 ≤ (alignUp n b).toInt) : n.toInt ≤ (alignUp n b).toInt := by
  obtain ⟨gap, hlow, -, heq⟩ := alignUp_eq_add n h
  rw [heq] at hup ⊢
  rw [toInt_add_of_nonneg hn hlow hup]
  omega

/-! ### Boundaries -/

/-- Whether a location is a multiple of a boundary. -/
def OnBoundary (boundary : Nat) (loc : Int64) : Prop :=
  (boundary : Int) ∣ loc.toInt

instance (boundary : Nat) (loc : Int64) : Decidable (OnBoundary boundary loc) :=
  inferInstanceAs (Decidable ((boundary : Int) ∣ loc.toInt))

namespace OnBoundary

variable {b : Nat} {m n : Int64}

/-- A boundary is one of every divisor. -/
theorem mono {c : Nat} (h : OnBoundary c n) (hb : b ∣ c) : OnBoundary b n :=
  Int.dvd_trans (Int.natCast_dvd_natCast.mpr hb) h

/-- Boundaries divide the range of a word, so a multiple stays one when it
wraps. -/
theorem dvd_bmod (hb : b ∣ 8) {k : Int} (h : (b : Int) ∣ k) :
    (b : Int) ∣ k.bmod (2 ^ 64) := by
  have hrange : (b : Int) ∣ (2 ^ 64 : Nat) :=
    Int.dvd_trans (Int.natCast_dvd_natCast.mpr hb) (by decide)
  have hwrap : (b : Int) ∣ k.bmod (2 ^ 64) - k :=
    Int.dvd_trans hrange Int.dvd_bmod_sub_self
  have hsum := Int.dvd_add hwrap h
  rwa [Int.sub_add_cancel] at hsum

/-- Boundaries add. -/
theorem add (hb : b ∣ 8) (hm : OnBoundary b m) (hn : OnBoundary b n) :
    OnBoundary b (m + n) := by
  rw [OnBoundary, Int64.toInt_add]
  exact dvd_bmod hb (Int.dvd_add hm hn)

theorem of_ofNat {k : Nat} (hb : b ∣ 8) (h : b ∣ k) :
    OnBoundary b (Int64.ofNat k) := by
  rw [OnBoundary, Int64.toInt_ofNat']
  exact dvd_bmod hb (Int.natCast_dvd_natCast.mpr h)

/-- **An aligned location** is on the boundary it is aligned to. -/
theorem of_alignUp (hb : b ∣ 8) (n : Int64) :
    OnBoundary b (alignUp n (Int64.ofNat b)) := by
  have hpos : 0 < b := Nat.pos_of_dvd_of_pos hb (by decide)
  have hle : b ≤ 8 := Nat.le_of_dvd (by decide) hb
  have hword : (Int64.ofNat b).toInt = b := Int64.toInt_ofNat_of_lt (by omega)
  have hrem : (n % Int64.ofNat b).toInt = n.toInt.tmod b := by
    rw [Int64.toInt_mod, hword]
  have hquotient := Int.tmod_add_mul_tdiv n.toInt b
  unfold alignUp
  split
  · rename_i hone
    rw [Int64.le_iff_toInt_le, hword, Int64.toInt_one] at hone
    have : b = 1 := by omega
    subst this
    exact Int.one_dvd _
  · split
    · rename_i hzero
      rwa [mod_eq_zero_iff, hword] at hzero
    · -- the location without its remainder is a multiple already
      have hlow : OnBoundary b (n - n % Int64.ofNat b) := by
        rw [OnBoundary, Int64.toInt_sub, hrem]
        exact dvd_bmod hb ⟨n.toInt.tdiv b, by omega⟩
      have heq : n + Int64.ofNat b - n % Int64.ofNat b =
          n - n % Int64.ofNat b + Int64.ofNat b := by
        grind
      rw [heq]
      exact hlow.add hb (of_ofNat hb (Nat.dvd_refl b))

end OnBoundary

end System370
