import System370.Constant.Encode
import System370.Proofs.CardFields
import System370.Proofs.ConstantShape
import System370.Proofs.SpelledNumbers

/-!
# The values that constants hold

What the octets of a nominal value stand for can be said without saying how they
are computed: a number in some base, an integer in two's complement, decimal
digits with a sign, or a text.

* `Constant.Denotes`: the octets of a value;
* `Constant.encodeValue_spec`: a value has these octets, if it has any, and is
  refused if it is too large;
* `Constant.denotes_encode`: so a parsed constant holds copies of its values, or
  is refused for the first one without octets.
-/

namespace System370

/-- A field is determined by its width and the number in it. -/
theorem Field.ext_get {field other : Bytes}
    (hlength : field.length = other.length)
    (hget : Field.get field = Field.get other) : field = other := by
  rw [← Field.put_get field, ← Field.put_get other, hlength, hget]

namespace Constant

/-! ### Decimal numerals -/

/-- Whether a text is a decimal numeral with some digits: a sign or none, and
among the digits one point or none. -/
def Spells (text : Bytes) (negative : Bool) (digits : List Nat) : Prop :=
  ∃ sign front point back : Bytes, text = sign ++ (front ++ (point ++ back)) ∧
    (negative = true ∧ sign = [0x2D] ∨ negative = false ∧
      (sign = [] ∨ sign = [0x2B])) ∧
    (point = [] ∨ point = [0x2E]) ∧ front ++ back ≠ [] ∧
    (∀ c ∈ front ++ back, isDigit c = true) ∧
      digits = (front ++ back).map digitValue

/-- Digits without zeros in front. -/
def significant (digits : List Nat) : List Nat := digits.dropWhile (· = 0)

/-- Digits at the right end of a field, with zeros in front. -/
def filled (width : Nat) (digits : List Nat) : List Nat :=
  List.replicate (width - digits.length) 0 ++ digits

theorem length_significant (digits : List Nat) :
    (significant digits).length ≤ digits.length :=
  (List.dropWhile_suffix _).length_le

/-- The digits that reading a numeral keeps: a single zero stands for itself. -/
def kept (digits : List Nat) : List Nat :=
  if significant digits = [] then [0] else significant digits

theorem kept_ne_nil (digits : List Nat) : kept digits ≠ [] := by
  unfold kept
  split
  · simp
  · assumption

/-- That zero is one of those in front. -/
theorem filled_kept {width : Nat} (hwidth : 0 < width) (digits : List Nat) :
    filled width (kept digits) = filled width (significant digits) := by
  unfold kept filled
  split
  · rename_i hzero
    obtain ⟨n, rfl⟩ := Nat.exists_eq_succ_of_ne_zero (Nat.ne_of_gt hwidth)
    rw [hzero, List.length_nil, List.length_singleton, Nat.sub_zero,
      Nat.succ_sub_one, ← List.replicate_succ', List.append_nil]
  · rfl

/-- Leading zeros do not count for what fits. -/
theorem length_kept {width : Nat} (hwidth : 0 < width) (digits : List Nat) :
    width < (kept digits).length ↔ width < (significant digits).length := by
  unfold kept
  split
  · rename_i hzero
    rw [hzero, List.length_singleton, List.length_nil]
    omega
  · rfl

theorem digitValue_lt {c : UInt8} (h : isDigit c = true) :
    digitValue c < 10 := by
  simp only [isDigit, digitValue, Bool.and_eq_true, decide_eq_true_eq,
    UInt8.le_iff_toNat_le] at h ⊢
  obtain ⟨hlow, hhigh⟩ := h
  simp at hlow hhigh
  omega

/-- A spelled number has decimal digits. -/
theorem Spells.digit_lt {text : Bytes} {negative : Bool} {digits : List Nat}
    (h : Spells text negative digits) : ∀ d ∈ digits, d < 10 := by
  obtain ⟨sign, front, point, back, -, -, -, -, hdigits, rfl⟩ := h
  intro d hd
  obtain ⟨c, hc, rfl⟩ := List.mem_map.mp hd
  exact digitValue_lt (hdigits c hc)

theorem kept_lt {digits : List Nat} (h : ∀ d ∈ digits, d < 10) :
    ∀ d ∈ kept digits, d < 10 := by
  intro d hd
  unfold kept at hd
  split at hd
  · rw [List.mem_singleton.mp hd]
    decide
  · exact h d ((List.dropWhile_suffix _).mem hd)

/-- All digits of a numeral are counted. -/
theorem Spells.countDigits {text : Bytes} {negative : Bool} {digits : List Nat}
    (h : Spells text negative digits) : countDigits text = digits.length := by
  obtain ⟨sign, front, point, back, rfl, hsign, hpoint, -, hdigits, rfl⟩ := h
  have hnone : sign.countP isDigit = 0 ∧ point.countP isDigit = 0 := by
    constructor
    · rcases hsign with ⟨-, rfl⟩ | ⟨-, rfl | rfl⟩ <;> rfl
    · rcases hpoint with rfl | rfl <;> rfl
  have hall := List.countP_eq_length.mpr hdigits
  rw [List.countP_append] at hall
  simp only [Constant.countDigits, List.countP_append, List.length_map,
    hnone.1, hnone.2]
  omega

/-- Reading takes the sign and the point away. -/
theorem readDecimal_of_spells {text : Bytes} {negative : Bool}
    {digits : List Nat} (h : Spells text negative digits) :
    readDecimal text = .ok ⟨negative, kept digits⟩ := by
  obtain ⟨sign, front, point, back, rfl, hsign, hpoint, hne, hdigits, rfl⟩ := h
  have hplain : ∀ c ∈ front ++ back, c ≠ 0x2D ∧ c ≠ 0x2B ∧ c ≠ 0x2E := by
    intro c hc
    have hdigit := hdigits c hc
    refine ⟨?_, ?_, ?_⟩ <;> rintro rfl <;> exact absurd hdigit (by decide)
  have herase : (front ++ (point ++ back)).erase 0x2E = front ++ back := by
    have hfront : (0x2E : UInt8) ∉ front := fun hc =>
      (hplain _ (List.mem_append_left _ hc)).2.2 rfl
    rw [List.erase_append_right _ hfront]
    congr 1
    rcases hpoint with rfl | rfl
    · exact List.erase_of_not_mem fun hc =>
        (hplain _ (List.mem_append_right _ hc)).2.2 rfl
    · exact List.erase_cons_head ..
  -- without a sign the text begins with a digit or the point
  have hhead : ∀ c, (front ++ (point ++ back)).head? = some c → c ≠ 0x2D ∧
      c ≠ 0x2B := by
    intro c hc
    have hmem := List.mem_of_head? hc
    rw [List.mem_append, List.mem_append] at hmem
    rcases hmem with hmem | hmem | hmem
    · exact ⟨(hplain c (List.mem_append_left _ hmem)).1,
        (hplain c (List.mem_append_left _ hmem)).2.1⟩
    · rcases hpoint with rfl | rfl
      · cases hmem
      · rw [List.mem_singleton.mp hmem]
        decide
    · exact ⟨(hplain c (List.mem_append_right _ hmem)).1,
        (hplain c (List.mem_append_right _ hmem)).2.1⟩
  have hall : (front ++ back).any (fun c => !isDigit c) = false := by
    rw [List.any_eq_false]
    intro c hc
    simp [hdigits c hc]
  unfold readDecimal
  rcases hsign with ⟨rfl, rfl⟩ | ⟨rfl, rfl | rfl⟩
  · simp only [List.cons_append, List.nil_append, List.head?_cons,
      List.tail_cons, decide_true,
      true_or, if_true, herase, if_neg hne, hall, Bool.false_eq_true, if_false]
    rfl
  · have hminus : (front ++ (point ++ back)).head? ≠ some 0x2D :=
      fun h => (hhead _ h).1 rfl
    have hplus : (front ++ (point ++ back)).head? ≠ some 0x2B :=
      fun h => (hhead _ h).2 rfl
    simp only [List.nil_append, hminus, hplus, decide_false, Bool.false_eq_true,
      or_self, if_false, herase, if_neg hne, hall]
    rfl
  · simp only [List.cons_append, List.nil_append, List.head?_cons,
      List.tail_cons, or_true, if_true,
      herase, if_neg hne, hall, Bool.false_eq_true, if_false]
    rfl

/-- A text is its sign and what follows it. -/
theorem exists_sign (text : Bytes) : ∃ sign, text = sign ++
      (if text.head? = some 0x2D ∨ text.head? = some 0x2B then
        text.tail else text) ∧
    (decide (text.head? = some 0x2D) = true ∧ sign = [0x2D] ∨
      decide (text.head? = some 0x2D) = false ∧
      (sign = [] ∨ sign = [0x2B])) := by
  by_cases hminus : text.head? = some 0x2D
  · obtain ⟨rest, rfl⟩ := List.head?_eq_some_iff.mp hminus
    exact ⟨[0x2D], rfl, Or.inl ⟨rfl, rfl⟩⟩
  · rw [decide_eq_false hminus]
    by_cases hplus : text.head? = some 0x2B
    · obtain ⟨rest, rfl⟩ := List.head?_eq_some_iff.mp hplus
      exact ⟨[0x2B], rfl, Or.inr ⟨rfl, Or.inr rfl⟩⟩
    · rw [if_neg (not_or.mpr ⟨hminus, hplus⟩)]
      exact ⟨[], rfl, Or.inr ⟨rfl, Or.inl rfl⟩⟩

/-- What follows the sign is digits, once a point is taken away. -/
theorem spells_of_erase {sign body : Bytes} {negative : Bool}
    (hsign : negative = true ∧ sign = [0x2D] ∨ negative = false ∧
      (sign = [] ∨ sign = [0x2B])) (hne : body.erase 0x2E ≠ [])
    (hdigits : ∀ c ∈ body.erase 0x2E, isDigit c = true) :
    Spells (sign ++ body) negative ((body.erase 0x2E).map digitValue) := by
  by_cases hpoint : (0x2E : UInt8) ∈ body
  · obtain ⟨front, back, -, rfl, herase⟩ := List.exists_erase_eq hpoint
    rw [herase] at hne hdigits ⊢
    exact ⟨sign, front, [0x2E], back, rfl, hsign, Or.inr rfl, hne, hdigits, rfl⟩
  · rw [List.erase_of_not_mem hpoint] at hne hdigits ⊢
    refine ⟨sign, body, [], [], by simp, hsign, Or.inl rfl, by simpa using hne,
      ?_, by simp⟩
    simpa using hdigits

/-- **A numeral is read just if it is one.** -/
theorem readDecimal_eq_ok {text : Bytes} {d : Decimal} :
    readDecimal text = .ok d ↔
    ∃ digits, Spells text d.negative digits ∧ d.digits = kept digits := by
  constructor
  · intro h
    obtain ⟨sign, htext, hsign⟩ := exists_sign text
    unfold readDecimal at h
    extract_lets negative body numeral at h
    split at h
    · cases h
    · rename_i hne
      split at h
      · cases h
      · rename_i hall
        obtain rfl := Except.ok.inj h
        have hspells := spells_of_erase hsign hne (by simpa using hall)
        rw [← htext] at hspells
        exact ⟨_, hspells, rfl⟩
  · rintro ⟨digits, hspells, hdigits⟩
    rw [readDecimal_of_spells hspells, ← hdigits]

/-! ### Half octets -/

/-- The half octets of octets, the high one of each first. -/
def halves (octets : Bytes) : List Nat :=
  octets.flatMap fun b => [b.toNat / 16, b.toNat % 16]

theorem halves_append (octets others : Bytes) :
    halves (octets ++ others) = halves octets ++ halves others :=
  List.flatMap_append

theorem halves_replicate (count : Nat) :
    halves (List.replicate count 0) = List.replicate (2 * count) 0 := by
  induction count with
  | zero => rfl
  | succ count ih =>
      rw [List.replicate_succ, ← List.singleton_append, halves_append, ih,
        Nat.mul_succ, Nat.add_comm, List.replicate_add]
      rfl

/-- Half octets in pairs are those of the octets. -/
theorem halves_pairNibbles {nibbles : List Nat}
    (h : ∀ n ∈ nibbles, n < 16) (heven : nibbles.length % 2 = 0) :
    halves (pairNibbles nibbles) = nibbles := by
  fun_induction pairNibbles nibbles with
  | case1 a b rest ih =>
      simp only [List.forall_mem_cons] at h
      obtain ⟨ha, hb, hrest⟩ := h
      have hoctet : (a * 16 + b).toUInt8.toNat = a * 16 + b :=
        Nat.mod_eq_of_lt (by omega)
      rw [List.length_cons, List.length_cons] at heven
      have hhalves := ih hrest (by omega)
      rw [← List.singleton_append, halves_append, hhalves]
      simp only [halves, List.flatMap_cons, List.flatMap_nil, List.append_nil,
        hoctet, List.cons_append, List.nil_append, List.cons.injEq, and_true]
      omega
  | case2 nibbles hshort =>
      cases nibbles with
      | nil => rfl
      | cons a rest =>
          cases rest with
          | nil => simp at heven
          | cons b rest => exact (hshort a b rest rfl).elim

/-- Octets are put together again from their halves. -/
theorem pairNibbles_halves (octets : Bytes) :
    pairNibbles (halves octets) = octets := by
  induction octets with
  | nil => rfl
  | cons b rest ih =>
      rw [← List.singleton_append, halves_append]
      simp only [halves, List.flatMap_cons, List.flatMap_nil, List.append_nil,
        List.cons_append, List.nil_append, pairNibbles]
      have hoctet : b.toNat / 16 * 16 + b.toNat % 16 = b.toNat := by omega
      rw [hoctet, Nat.toUInt8_eq, UInt8.ofNat_toNat]
      congr 1

/-! ### Decimal values -/

/-- Whether octets are the half octets of digits, with the sign in the last
one. -/
def Packed (length : Nat) (negative : Bool) (digits : List Nat)
    (octets : Bytes) : Prop :=
  octets.length = length ∧ halves octets = filled (2 * length - 1) digits ++
    [signNibble negative]

/-- Whether octets have the zone F and a digit each, with the sign in the last
zone. -/
def Zoned (length : Nat) (negative : Bool) (digits : List Nat)
    (octets : Bytes) : Prop :=
  octets.length = length ∧ octets.map (·.toNat % 16) = filled length digits ∧
    octets.map (·.toNat / 16) = List.replicate (length - 1) 0xF ++
      [signNibble negative]

/-- A text that fits stands on the right. -/
theorem rightAlign_of_le {width : Nat} {fill : UInt8} {text : Bytes}
    (h : text.length ≤ width) :
    rightAlign width fill text =
      List.replicate (width - text.length) fill ++ text := by
  unfold rightAlign
  rw [List.drop_append_of_le_length (by simpa using h), List.drop_replicate]

variable {length : Nat} {negative : Bool} {digits : List Nat}

theorem signNibble_lt (negative : Bool) : signNibble negative < 16 := by
  cases negative <;> decide

theorem length_pairNibbles (nibbles : List Nat) :
    (pairNibbles nibbles).length = nibbles.length / 2 := by
  fun_induction pairNibbles nibbles with
  | case1 a b rest ih =>
      rw [List.length_cons, List.length_cons, List.length_cons, ih]
      omega
  | case2 nibbles hshort =>
      cases nibbles with
      | nil => rfl
      | cons a rest =>
          cases rest with
          | nil => simp
          | cons b rest => exact (hshort a b rest rfl).elim

/-- Digits that fit are packed. -/
theorem packed_encodePacked (hlength : 0 < length)
    (hdigits : ∀ d ∈ digits, d < 10) (hfits : digits.length ≤ 2 * length - 1) :
    ∃ octets, encodePacked length ⟨negative, digits⟩ = .ok octets ∧
      Packed length negative digits octets := by
  have hnibbles : ∀ n ∈ digits ++ [signNibble negative], n < 16 := by
    intro n hn
    rcases List.mem_append.mp hn with hn | hn
    · exact Nat.lt_trans (hdigits n hn) (by decide)
    · rw [List.mem_singleton.mp hn]
      exact signNibble_lt negative
  have hcount : (digits ++ [signNibble negative]).length =
      digits.length + 1 := by
    simp
  -- an odd number of half octets gets one more zero in front
  obtain ⟨zeros, heven, hpadded⟩ : ∃ zeros,
      (digits.length + 1 + zeros) % 2 = 0 ∧
      (if (digits ++ [signNibble negative]).length % 2 = 0 then
        digits ++ [signNibble negative]
        else 0 :: (digits ++ [signNibble negative])) =
        List.replicate zeros 0 ++ (digits ++ [signNibble negative]) ∧
        zeros ≤ 1 := by
    split
    · exact ⟨0, by omega, rfl, by omega⟩
    · exact ⟨1, by omega, rfl, by omega⟩
  obtain ⟨hpadded, hzeros⟩ := hpadded
  have hhalves := @halves_pairNibbles
    (List.replicate zeros 0 ++ (digits ++ [signNibble negative]))
    (by
      intro n hn
      rcases List.mem_append.mp hn with hn | hn
      · rw [List.eq_of_mem_replicate hn]
        decide
      · exact hnibbles n hn)
    (by rw [List.length_append, List.length_replicate, hcount]; omega)
  have hoctets := length_pairNibbles
    (List.replicate zeros 0 ++ (digits ++ [signNibble negative]))
  rw [List.length_append, List.length_replicate, hcount] at hoctets
  unfold encodePacked
  simp only [hpadded]
  rw [if_neg (by omega)]
  refine ⟨_, rfl, length_rightAlign _ _ _, ?_⟩
  rw [rightAlign_of_le (by omega), halves_append, halves_replicate, hhalves,
    ← List.append_assoc,
    ← List.replicate_add, filled, List.append_assoc, hoctets]
  congr 2
  omega

/-- A packed field has room for one digit fewer than it has halves. -/
theorem encodePacked_outOfRange (hlarge : 2 * length - 1 < digits.length) :
    encodePacked length ⟨negative, digits⟩ = .error .outOfRange := by
  unfold encodePacked
  simp only
  rw [if_pos]
  rw [length_pairNibbles]
  split <;> simp at * <;> omega

/-- There is one packed form of a number in a field. -/
theorem Packed.unique {octets others : Bytes}
    (h : Packed length negative digits octets)
    (h' : Packed length negative digits others) : octets = others := by
  rw [← pairNibbles_halves octets, ← pairNibbles_halves others, h.2, h'.2]

/-- Digits that fit are zoned. -/
theorem zoned_encodeZoned (hne : digits ≠ []) (hdigits : ∀ d ∈ digits, d < 10)
    (hfits : digits.length ≤ length) :
    ∃ octets, encodeZoned length ⟨negative, digits⟩ = .ok octets ∧
      Zoned length negative digits octets := by
  obtain ⟨front, last, rfl⟩ : ∃ front last, digits = front ++ [last] :=
    ⟨_, _, (List.dropLast_append_getLast hne).symm⟩
  rw [List.length_append, List.length_singleton] at hfits
  have hlast : last < 10 := hdigits last (by simp)
  have hsign := signNibble_lt negative
  have hlastOctet : (signNibble negative * 16 + last).toUInt8.toNat =
      signNibble negative * 16 + last := Nat.mod_eq_of_lt (by omega)
  have hoctet : ∀ d ∈ front, (0xF0 + d).toUInt8.toNat = 0xF0 + d := by
    intro d hd
    have hdigit := hdigits d (by simp [hd])
    exact Nat.mod_eq_of_lt (by omega)
  unfold encodeZoned
  simp only [List.length_append, List.length_singleton, List.dropLast_concat,
    List.getLastD_concat]
  rw [if_neg (by omega)]
  have haligned :=
    @rightAlign_of_le length 0xF0 (front.map (fun n => (0xF0 + n).toUInt8) ++
    [(signNibble negative * 16 + last).toUInt8]) (by simpa using hfits)
  rw [List.length_append, List.length_map, List.length_singleton] at haligned
  refine ⟨_, rfl, length_rightAlign _ _ _, ?_, ?_⟩
  · have hdigit : front.map (fun d => (0xF0 + d).toUInt8.toNat % 16) =
        front := by
      refine (List.map_congr_left fun d hd => ?_).trans (List.map_id front)
      have hlt := hdigits d (by simp [hd])
      rw [hoctet d hd, id]
      omega
    rw [haligned, filled, List.length_append, List.length_singleton]
    simp only [List.map_append, List.map_replicate, List.map_map,
      Function.comp_def, List.map_cons, List.map_nil, hdigit, hlastOctet]
    congr 3
    omega
  · have hzone : front.map (fun d => (0xF0 + d).toUInt8.toNat / 16) =
        List.replicate front.length 0xF := by
      rw [← List.map_const']
      refine List.map_congr_left fun d hd => ?_
      have hlt := hdigits d (by simp [hd])
      rw [hoctet d hd]
      omega
    have hcount : length - 1 = length - (front.length + 1) + front.length := by
      omega
    rw [haligned, hcount, List.replicate_add]
    simp only [List.map_append, List.map_replicate, List.map_map,
      Function.comp_def, List.map_cons,
      List.map_nil, hzone, hlastOctet, List.append_assoc]
    congr 3
    omega

/-- A zoned field has room for a digit in each octet. -/
theorem encodeZoned_outOfRange (hlarge : length < digits.length) :
    encodeZoned length ⟨negative, digits⟩ = .error .outOfRange := by
  unfold encodeZoned
  rw [if_pos hlarge]

/-- Octets are determined by their half octets, however these are listed. -/
theorem eq_of_map_halves {octets others : Bytes}
    (hlow : octets.map (·.toNat % 16) = others.map (·.toNat % 16))
    (hhigh : octets.map (·.toNat / 16) = others.map (·.toNat / 16)) :
    octets = others := by
  induction octets generalizing others with
  | nil => exact (List.map_eq_nil_iff.mp hlow.symm).symm
  | cons b rest ih =>
      cases others with
      | nil => cases hlow
      | cons b' rest' =>
          simp only [List.map_cons, List.cons.injEq] at hlow hhigh
          have hoctet : b = b' := UInt8.toNat_inj.mp (by omega)
          rw [hoctet, ih hlow.2 hhigh.2]

/-- There is one zoned form of a number in a field. -/
theorem Zoned.unique {octets others : Bytes}
    (h : Zoned length negative digits octets)
    (h' : Zoned length negative digits others) : octets = others :=
  eq_of_map_halves (h.2.1.trans h'.2.1.symm) (h.2.2.trans h'.2.2.symm)

/-- A text that cannot be read as a decimal numeral is malformed. -/
theorem readDecimal_malformed {value : Bytes} {e : ValueError}
    (h : readDecimal value = .error e) : ∃ reason, e = .malformed reason := by
  unfold readDecimal at h
  extract_lets at h
  split at h
  · exact ⟨_, (Except.error.inj h).symm⟩
  · split at h
    · exact ⟨_, (Except.error.inj h).symm⟩
    · cases h

section Decimal

variable {width : Nat} {write : Decimal → Except ValueError Bytes}
  {Shape : Bool → List Nat → Bytes → Prop} {value : Bytes} {negative : Bool}
  {digits : List Nat}

/-- A value with more digits than fit is refused. -/
theorem bind_readDecimal_large (hwidth : 0 < width)
    (hlarge : ∀ negative digits, width < digits.length →
      write ⟨negative, digits⟩ = .error .outOfRange)
    (h : Spells value negative digits)
    (hlong : width < (significant digits).length) :
    (readDecimal value).bind write = .error .outOfRange := by
  rw [readDecimal_of_spells h]
  exact hlarge _ _ ((length_kept hwidth digits).mpr hlong)

/-- A value whose digits fit has their octets. -/
theorem bind_readDecimal_fitting (hwidth : 0 < width)
    (hfits : ∀ negative digits, digits ≠ [] → (∀ d ∈ digits, d < 10) →
      digits.length ≤ width → ∃ octets,
      write ⟨negative, digits⟩ = .ok octets ∧ Shape negative digits octets)
    (hkept : ∀ {negative digits octets}, Shape negative (kept digits) octets ↔
      Shape negative (significant digits) octets)
    (h : Spells value negative digits)
    (hshort : (significant digits).length ≤ width) :
    ∃ octets, (readDecimal value).bind write = .ok octets ∧
      Shape negative (significant digits) octets := by
  have hlength : (kept digits).length ≤ width :=
    Nat.not_lt.mp fun hlong =>
      Nat.not_lt.mpr hshort ((length_kept hwidth digits).mp hlong)
  obtain ⟨octets, hoctets, hshape⟩ := hfits negative (kept digits)
    (kept_ne_nil digits) (kept_lt h.digit_lt) hlength
  rw [readDecimal_of_spells h]
  exact ⟨octets, hoctets, hkept.mp hshape⟩

/-- **A decimal value has the octets of its digits**, unless it has more of them
than fit. -/
theorem bind_readDecimal (hwidth : 0 < width)
    (hfits : ∀ negative digits, digits ≠ [] → (∀ d ∈ digits, d < 10) →
      digits.length ≤ width → ∃ octets,
      write ⟨negative, digits⟩ = .ok octets ∧ Shape negative digits octets)
    (hlarge : ∀ negative digits, width < digits.length →
      write ⟨negative, digits⟩ = .error .outOfRange)
    (hunique : ∀ {negative digits octets others}, Shape negative digits octets →
      Shape negative digits others → octets = others)
    (hkept : ∀ {negative digits octets}, Shape negative (kept digits) octets ↔
      Shape negative (significant digits) octets) :
    (∀ octets, (readDecimal value).bind write = .ok octets ↔
      ∃ negative digits,
      Spells value negative digits ∧ (significant digits).length ≤ width ∧
        Shape negative (significant digits) octets) ∧
    ((readDecimal value).bind write = .error .outOfRange ↔
      ∃ negative digits, Spells value negative digits ∧
      width < (significant digits).length) := by
  have hrefused : ∀ {negative digits}, Spells value negative digits →
      width < (significant digits).length →
      (readDecimal value).bind write = .error .outOfRange :=
    bind_readDecimal_large hwidth hlarge
  have hwritten : ∀ {negative digits}, Spells value negative digits →
      (significant digits).length ≤ width →
      ∃ octets, (readDecimal value).bind write = .ok octets ∧
        Shape negative (significant digits) octets :=
    bind_readDecimal_fitting hwidth hfits hkept
  cases hread : readDecimal value with
  | error e =>
      have hnone : ∀ negative digits, ¬ Spells value negative digits := by
        intro negative digits hspells
        rw [readDecimal_of_spells hspells] at hread
        cases hread
      obtain ⟨reason, rfl⟩ := readDecimal_malformed hread
      simp [Except.bind, hnone]
  | ok d =>
      obtain ⟨digits, hspells, -⟩ := readDecimal_eq_ok.mp hread
      rw [← hread]
      refine ⟨fun octets => ⟨fun hok => ?_, ?_⟩, fun hfailed => ?_, ?_⟩
      · have hshort : (significant digits).length ≤ width := by
          by_contra hlong
          cases hok.symm.trans (hrefused hspells (Nat.not_le.mp hlong))
        obtain ⟨made, hmade, hshape⟩ := hwritten hspells hshort
        obtain rfl := Except.ok.inj (hmade.symm.trans hok)
        exact ⟨d.negative, digits, hspells, hshort, hshape⟩
      · rintro ⟨negative, others, hothers, hshort, hother⟩
        obtain ⟨made, hmade, hshape⟩ := hwritten hothers hshort
        rw [hmade, hunique hshape hother]
      · refine ⟨d.negative, digits, hspells, Nat.not_le.mp fun hshort => ?_⟩
        obtain ⟨made, hmade, -⟩ := hwritten hspells hshort
        cases hfailed.symm.trans hmade
      · rintro ⟨negative, others, hothers, hlong⟩
        exact hrefused hothers hlong

end Decimal

/-! ### Numbers in some base -/

/-- Whether octets hold the number that a text spells with digits of its own, as
far as it fits. -/
def Holds (base : Nat) (value? : UInt8 → Option Nat) (text : Bytes)
    (length : Nat) (octets : Bytes) : Prop :=
  octets.length = length ∧ text ≠ [] ∧ ∃ digits,
    text.mapM value? = some digits ∧
    Field.get octets = Numeral.positional base digits % 256 ^ length

/-- Filling up with zeros on the left reads as zeros. -/
theorem mapM_wholeOctets {per : Nat} {value? : UInt8 → Option Nat}
    (hzero : value? 0x30 = some 0) (text : Bytes) :
    (Numeral.wholeOctets per text).mapM value? = (text.mapM value?).map
      (List.replicate ((per - text.length % per) % per) 0 ++ ·) := by
  unfold Numeral.wholeOctets
  generalize (per - text.length % per) % per = count
  induction count with
  | zero => simp
  | succ count ih =>
      rw [List.replicate_succ, List.cons_append, List.mapM_cons, hzero, ih]
      cases text.mapM value? <;> rfl

/-- A text is read if it has digits only, and at least one of them. -/
theorem exists_digits {base per : Nat} {value? : UInt8 → Option Nat}
    (hzero : value? 0x30 = some 0) {text : Bytes}
    {empty : NumeralError} {invalid : Bytes → NumeralError} :
    (∃ octets, Numeral.digitString base per value? empty invalid text =
      .ok octets) ↔
      text ≠ [] ∧ ∃ digits, text.mapM value? = some digits := by
  unfold Numeral.digitString
  simp only [mapM_wholeOctets hzero]
  by_cases hempty : text = []
  · simp [hempty]
  · cases text.mapM value? <;> simp [hempty]

/-- The last octets of a text hold its number, as far as it fits. -/
theorem get_rightAlign (length : Nat) (text : Bytes) :
    Field.get (rightAlign length 0 text) = Field.get text % 256 ^ length := by
  have hlength := length_rightAlign length 0 text
  have hall : Field.get (List.replicate length 0 ++ text) = Field.get text := by
    rw [Numeral.get_eq, Numeral.get_eq, List.map_append, List.map_replicate]
    exact Numeral.positional_replicate 256 length _
  have hsplit : List.replicate length 0 ++ text =
      (List.replicate length 0 ++ text).take text.length ++
        rightAlign length 0 text :=
    (List.take_append_drop ..).symm
  have hoctets : ∀ d ∈ (rightAlign length 0 text).map UInt8.toNat, d < 256 := by
    intro d hd
    obtain ⟨b, -, rfl⟩ := List.mem_map.mp hd
    exact b.toNat_lt
  have hlt := Numeral.positional_lt (by decide) hoctets
  rw [List.length_map, hlength, ← Numeral.get_eq] at hlt
  rw [← hall, hsplit, Numeral.get_eq (_ ++ _), List.map_append,
    Numeral.positional_append,
    List.length_map, hlength, ← Numeral.get_eq (rightAlign length 0 text),
    Nat.mul_comm, Nat.mul_add_mod, Nat.mod_eq_of_lt hlt]

/-- **A value in some base has the octets of its number.**  It is never too
large. -/
theorem holds_rightAlign {base : Nat} {value? : UInt8 → Option Nat}
    {text : Bytes} (length : Nat) (read : Except NumeralError Bytes)
    {outcome : Except ValueError Bytes} (houtcome : outcome = match read with
      | .ok octets => .ok (rightAlign length 0 octets)
      | .error e => .error (.malformed e.message))
    (hread : (∃ octets, read = .ok octets) ↔
      text ≠ [] ∧ ∃ digits, text.mapM value? = some digits)
    (hget : ∀ octets, read = .ok octets →
      Field.get octets = Numeral.positional base (text.filterMap value?)) :
    (∀ octets, outcome = .ok octets ↔ Holds base value? text length octets) ∧
      outcome ≠ .error .outOfRange := by
  subst houtcome
  cases read with
  | error e =>
      refine ⟨fun octets => iff_of_false (by simp) ?_, by simp⟩
      rintro ⟨-, hne, digits, hdigits, -⟩
      obtain ⟨made, hmade⟩ := hread.mpr ⟨hne, digits, hdigits⟩
      cases hmade
  | ok made =>
      obtain ⟨hne, digits, hdigits⟩ := hread.mp ⟨made, rfl⟩
      have hnumber : Field.get (rightAlign length 0 made) =
          Numeral.positional base digits % 256 ^ length := by
        rw [get_rightAlign, hget made rfl, (Numeral.mapM_some hdigits).1]
      refine ⟨fun octets => ⟨?_, ?_⟩, by simp⟩
      · intro h
        obtain rfl := Except.ok.inj h
        exact ⟨length_rightAlign _ _ _, hne, digits, hdigits, hnumber⟩
      · rintro ⟨hlength, -, others, hothers, hoctets⟩
        obtain rfl := Option.some.inj (hdigits.symm.trans hothers)
        exact congrArg Except.ok
          (Field.ext_get ((length_rightAlign _ _ _).trans hlength.symm)
          (hnumber.trans hoctets.symm))

/-! ### Integers -/

/-- The numbers that a field holds in two's complement. -/
def InRange (length : Nat) (n : Int) : Prop := -2 ^ (8 * length - 1) ≤ n ∧
  n < 2 ^ (8 * length - 1)

/-- Eight octets hold every word. -/
theorem inRange_of_le {length : Nat} (h : 8 ≤ length) (n : Int64) :
    InRange length n.toInt := by
  have hlow := n.le_toInt
  have hhigh := n.toInt_lt
  have hpow : (2 : Int) ^ 63 ≤ 2 ^ (8 * length - 1) := by
    exact_mod_cast Nat.pow_le_pow_right (show 0 < 2 by decide)
      (show 63 ≤ 8 * length - 1 by omega)
  exact ⟨by omega, by omega⟩

instance (length : Nat) (n : Int) : Decidable (InRange length n) :=
  inferInstanceAs (Decidable (_ ∧ _))

/-- An integer is put into its field if it is in range. -/
theorem encodeInteger_eq (length : Nat) (n : Int64) : encodeInteger length n =
    if InRange length n.toInt then .ok (Field.put length n.toInt) else
      .error .outOfRange := by
  unfold encodeInteger
  by_cases hword : length < 8
  · by_cases hrange : InRange length n.toInt
    · rw [if_pos hrange, if_neg]
      unfold InRange at hrange
      omega
    · rw [if_neg hrange, if_pos]
      unfold InRange at hrange
      exact ⟨hword, by omega⟩
  · rw [if_pos (inRange_of_le (by omega) n), if_neg (by omega)]

/-- **An integer has the octets of its two's complement**, unless it is out of
range. -/
theorem encodeInteger_spec {length : Nat} {value : Bytes}
    {outcome : Except ValueError Bytes}
    (houtcome : outcome = match Numeral.integer value with
      | .ok n => encodeInteger length n
      | .error e => .error (.malformed e.message)) :
    (∀ octets, outcome = .ok octets ↔ ∃ n, Numeral.integer value = .ok n ∧
      InRange length n.toInt ∧ octets.length = length ∧
      (Field.get octets : Int) = n.toInt % 256 ^ length) ∧
    (outcome = .error .outOfRange ↔
      ∃ n, Numeral.integer value = .ok n ∧ ¬ InRange length n.toInt) := by
  subst houtcome
  cases Numeral.integer value with
  | error e => simp
  | ok n =>
      simp only [encodeInteger_eq, Except.ok.injEq, exists_eq_left']
      by_cases hrange : InRange length n.toInt
      · simp only [hrange, if_true, true_and, not_true_eq_false, iff_false,
          Except.ok.injEq]
        refine ⟨fun octets => ⟨?_, ?_⟩, by simp⟩
        · rintro rfl
          exact ⟨Field.length_put _ _, Field.get_put _ _⟩
        · rintro ⟨hlength, hget⟩
          refine Field.ext_get ((Field.length_put _ _).trans hlength.symm) ?_
          have hput := Field.get_put length n.toInt
          omega
      · simp [hrange]

/-! ### Values -/

/-- What the octets of a nominal value stand for: hexadecimal and binary values
for a number, integers for their two's complement, decimal values for signed
digits, and texts for themselves, cut or filled with blanks. -/
def Denotes (kind : Kind) (value : Bytes) (length : Nat)
    (octets : Bytes) : Prop :=
  match kind with
  | .character => ∃ text, CodePage037.encode value = .ok text ∧
      octets = (text ++ List.replicate length 0x40).take length
  | .hexadecimal => Holds 16 Numeral.hexValue? value length octets
  | .binary => Holds 2 Numeral.bitValue? value length octets
  | .fullword | .halfword => ∃ n,
    Numeral.integer value = .ok n ∧ InRange length n.toInt ∧
      octets.length = length ∧ (Field.get octets : Int) = n.toInt % 256 ^ length
  | .packed => ∃ negative digits, Spells value negative digits ∧
      (significant digits).length ≤ 2 * length - 1 ∧
      Packed length negative (significant digits) octets
  | .zoned => ∃ negative digits, Spells value negative digits ∧
      (significant digits).length ≤ length ∧
      Zoned length negative (significant digits) octets
  | _ => False

/-- Whether a value has no octets because it is too large: an integer out of
range, or a decimal value with too many digits. -/
def TooLarge (kind : Kind) (value : Bytes) (length : Nat) : Prop :=
  match kind with
  | .fullword | .halfword => ∃ n, Numeral.integer value = .ok n ∧
    ¬ InRange length n.toInt
  | .packed => ∃ negative digits, Spells value negative digits ∧
      2 * length - 1 < (significant digits).length
  | .zoned => ∃ negative digits, Spells value negative digits ∧
      length < (significant digits).length
  | _ => False

/-- The types of texts, digits and integers. -/
def Kind.nominal : List Kind :=
  [.character, .hexadecimal, .binary, .fullword, .halfword, .packed, .zoned]

/-- **A value has the octets that denote it**, or it is malformed or too
large. -/
theorem encodeValue_spec {kind : Kind} (hkind : kind ∈ Kind.nominal)
    (value : Bytes) {length : Nat} (hlength : 0 < length) :
    (∀ octets, encodeValue kind value length = .ok octets ↔
      Denotes kind value length octets) ∧
    (encodeValue kind value length = .error .outOfRange ↔
      TooLarge kind value length) := by
  cases kind
  case character =>
    simp only [Denotes, TooLarge, encodeValue, iff_false]
    cases CodePage037.encode value with
    | error e => simp
    | ok text => simp [eq_comm, Bytes.fit, CodePage037.blank]
  case hexadecimal =>
    obtain ⟨hok, hnot⟩ := holds_rightAlign length (Numeral.hex value) rfl
      (exists_digits rfl) fun _ => Numeral.get_hex
    exact ⟨hok, iff_of_false hnot id⟩
  case binary =>
    obtain ⟨hok, hnot⟩ := holds_rightAlign length (Numeral.binary value) rfl
      (exists_digits rfl) fun _ => Numeral.get_binary
    exact ⟨hok, iff_of_false hnot id⟩
  case packed =>
    exact bind_readDecimal (by omega)
      (fun _ _ _ hten hfits => packed_encodePacked hlength hten hfits)
      (fun _ _ hlarge => encodePacked_outOfRange hlarge) Packed.unique
      (by intros; unfold Packed; rw [filled_kept (by omega)])
  case zoned =>
    exact bind_readDecimal hlength
      (fun _ _ hne hten hfits => zoned_encodeZoned hne hten hfits)
      (fun _ _ hlarge => encodeZoned_outOfRange hlarge) Zoned.unique
      (by intros; unfold Zoned; rw [filled_kept hlength])
  case fullword => exact encodeInteger_spec rfl
  case halfword => exact encodeInteger_spec rfl
  all_goals exact absurd hkind (by decide)

/-! ### Lists of values -/

/-- The octets of values are those of each of them, one behind the other. -/
theorem encodeValues_eq_ok {text : Bytes} {kind : Kind}
    {items : List (Bytes × Nat)} {octets : Bytes} :
    encodeValues text kind items = .ok octets ↔
    ∃ parts,
    List.Forall₂ (fun item part => encodeValue kind item.1 item.2 = .ok part)
      items parts ∧
      octets = parts.flatten := by
  constructor
  · induction items generalizing octets with
    | nil =>
        intro h
        obtain rfl := Except.ok.inj h
        exact ⟨[], .nil, rfl⟩
    | cons item rest ih =>
        intro h
        obtain ⟨value, length⟩ := item
        rw [encodeValues] at h
        split at h
        · cases h
        · rename_i first hfirst
          cases hrest : encodeValues text kind rest with
          | error e =>
              rw [hrest] at h
              cases h
          | ok others =>
              rw [hrest] at h
              obtain rfl := Except.ok.inj h
              obtain ⟨parts, hparts, rfl⟩ := ih hrest
              exact ⟨first :: parts, .cons hfirst hparts, rfl⟩
  · rintro ⟨parts, hparts, rfl⟩
    induction hparts with
    | nil => rfl
    | @cons item part rest parts hfirst hrest ih =>
        obtain ⟨value, length⟩ := item
        rw [encodeValues, hfirst, ih]
        rfl

/-- The first value without octets decides. -/
theorem encodeValues_eq_error {text : Bytes}
    {kind : Kind} {items : List (Bytes × Nat)} {e : Failure} :
    encodeValues text kind items = .error e ↔
      ∃ (before : List (Bytes × Nat)) (value : Bytes) (length : Nat)
        (after : List (Bytes × Nat))
        (problem : ValueError), items = before ++ (value, length) :: after ∧
          (∀ item ∈ before, ∃ part, encodeValue kind item.1 item.2 = .ok part) ∧
          encodeValue kind value length = .error problem ∧
          e = problem.blame text length := by
  constructor
  · induction items with
    | nil => exact fun h => nomatch h
    | cons item rest ih =>
        intro h
        obtain ⟨value, length⟩ := item
        rw [encodeValues] at h
        split at h
        · rename_i problem hvalue
          exact ⟨[], value, length, rest, problem, rfl, by simp, hvalue,
            (Except.error.inj h).symm⟩
        · rename_i first hfirst
          cases hrest : encodeValues text kind rest with
          | ok others =>
              rw [hrest] at h
              cases h
          | error other =>
              rw [hrest] at h
              obtain rfl := Except.error.inj h
              obtain ⟨before, value', length', after, problem, rfl, hbefore,
                  hvalue⟩ := ih hrest
              exact ⟨(value, length) :: before, value', length', after,
                problem, rfl,
                List.forall_mem_cons.mpr ⟨⟨first, hfirst⟩, hbefore⟩, hvalue⟩
  · rintro ⟨before, value, length, after, problem, rfl, hbefore, hvalue, rfl⟩
    induction before with
    | nil => rw [List.nil_append, encodeValues, hvalue]
    | cons item before ih =>
        obtain ⟨⟨first, hfirst⟩, hrest⟩ := List.forall_mem_cons.mp hbefore
        obtain ⟨value', length'⟩ := item
        rw [List.cons_append, encodeValues, hfirst, ih hrest]
        rfl

/-- A range error names the text of the constant and the length of the first
value that does not fit. -/
theorem encodeValues_outOfRange {text message : Bytes} {kind : Kind}
    {items : List (Bytes × Nat)} {width : Int} :
    encodeValues text kind items = .error (.error (.outOfRange message width)) ↔
      message = text ∧
      ∃ (before : List (Bytes × Nat)) (value : Bytes) (length : Nat)
        (after : List (Bytes × Nat)),
        items = before ++ (value, length) :: after ∧ width = length ∧
          (∀ item ∈ before, ∃ part, encodeValue kind item.1 item.2 = .ok part) ∧
          encodeValue kind value length = .error .outOfRange := by
  rw [encodeValues_eq_error]
  constructor
  · rintro ⟨before, value, length, after, problem, hitems, hbefore,
      hvalue, hblame⟩
    cases problem with
    | malformed reason => cases hblame
    | endless => cases hblame
    | outOfRange =>
        obtain ⟨rfl, rfl⟩ := Error.outOfRange.inj (Failure.error.inj hblame)
        exact ⟨rfl, before, value, length, after, hitems, rfl, hbefore, hvalue⟩
  · rintro ⟨rfl, before, value, length, after, hitems, rfl, hbefore, hvalue⟩
    exact ⟨before, value, length, after, .outOfRange, hitems, hbefore,
      hvalue, rfl⟩

/-- A failure with an error of its own is that error. -/
theorem Failure.cause_eq_iff {failure : Failure} {e : Error}
    (he : e ≠ .unresolved) :
    failure.cause = e ↔ failure = .error e := by
  cases failure with
  | error other => simp [Failure.cause]
  | endless => simpa [Failure.cause] using he.symm

/-- A decimal value is never too large for the length that it has by itself. -/
theorem not_tooLarge_of_measureValue {text value : Bytes} {kind : Kind}
    {length : Nat} (hkind : kind = .packed ∨ kind = .zoned)
    (h : measureValue text kind value = .ok length) :
    ¬ TooLarge kind value length := by
  unfold measureValue at h
  rcases hkind with rfl | rfl
  · rintro ⟨negative, digits, hspells, hlarge⟩
    have hsignificant := length_significant digits
    have hlength : length = digits.length / 2 + 1 := by
      rw [← hspells.countDigits]
      simp only [impliedLength] at h
      split at h
      · cases h
      · exact (Except.ok.inj h).symm
    omega
  · rintro ⟨negative, digits, hspells, hlarge⟩
    have hsignificant := length_significant digits
    have hlength : length = digits.length := by
      rw [← hspells.countDigits]
      simp only [impliedLength] at h
      split at h
      · cases h
      · exact (Except.ok.inj h).symm
    omega

/-- Every value of a parsed constant has the octets that denote it, or is
malformed or too large. -/
theorem Descriptor.Sound.encodeValue_spec {d : Descriptor}
    (h : d.Sound) (hkind : d.kind ∈ Kind.nominal)
    {item : Bytes × Nat} (hitem : item ∈ d.nominal.zip d.lengths) :
    (∀ octets, encodeValue d.kind item.1 item.2 = .ok octets ↔
      Denotes d.kind item.1 item.2 octets) ∧
    (encodeValue d.kind item.1 item.2 = .error .outOfRange ↔
      TooLarge d.kind item.1 item.2) := by
  have hleast : 1 ≤ d.kind.minLength := by cases d.kind <;> decide
  have hlength := (h.ranged item.2 (List.of_mem_zip hitem).2).1
  exact Constant.encodeValue_spec hkind item.1 (by omega)

/-- No kind of nominal value is one of addresses. -/
theorem Kind.isAddress_of_nominal {kind : Kind} (h : kind ∈ Kind.nominal) :
    kind.isAddress = false := by
  revert h
  cases kind <;> decide

namespace Descriptor

variable {d : Descriptor}

/-- Whether octets are copies of the values, as many as the duplication factor
says, and denote each value in turn. -/
def Copies (d : Descriptor) (octets : Bytes) : Prop :=
  ∃ items : List Bytes,
    List.Forall₂ (fun value item => Denotes d.kind value.1 value.2 item)
    (d.nominal.zip d.lengths) items ∧
      octets = (List.replicate d.dup items.flatten).flatten

/-- Whether the first value without octets is too large for its length. -/
def Overflows (d : Descriptor) (length : Nat) : Prop :=
  ∃ before value after,
    d.nominal.zip d.lengths = before ++ (value, length) :: after ∧
    (∀ item ∈ before, ∃ octets, Denotes d.kind item.1 item.2 octets) ∧
    TooLarge d.kind value length

/-- The octets of a constant, if it has any, are those of its encoding. -/
theorem encode_eq_ok_iff {octets : Bytes} :
    d.encode = .ok octets ↔ d.encoding = .ok octets := by
  unfold encode
  cases d.encoding <;> simp [Except.mapError]

/-- The error of a constant is that of its encoding. -/
theorem encode_eq_error_iff {e : Error} (he : e ≠ .unresolved) :
    d.encode = .error e ↔ d.encoding = .error (.error e) := by
  unfold encode
  cases d.encoding with
  | error failure => simpa [Except.mapError] using Failure.cause_eq_iff he
  | ok octets => simp [Except.mapError]

/-- The check of a constant reports the error of its validation. -/
theorem validate_eq_some_iff {e : Error} (he : e ≠ .unresolved) :
    d.validate = some e ↔ d.validation = .error (.error e) := by
  unfold validate
  cases d.validation with
  | error failure => simpa using Failure.cause_eq_iff he
  | ok _ => simp

/-- A constant without an error in its check has octets. -/
theorem validate_eq_none_iff : d.validate = none ↔ d.validation = .ok () := by
  unfold validate
  cases d.validation <;> simp

/-- The validation of data is that of its values. -/
theorem validation_eq (hdata : d.kind.isAddress = false) :
    d.validation = (encodeValues d.text d.kind (d.nominal.zip d.lengths)).map
      fun _ => () := by
  unfold validation encodeOnce
  rw [hdata]
  rfl

/-- The encoding of data with values is made from that of each value. -/
theorem encoding_eq (hdata : d.kind.isAddress = false)
    (hnominal : d.nominal ≠ []) :
    d.encoding =
      (encodeValues d.text d.kind (d.nominal.zip d.lengths)).map fun item =>
      (List.replicate d.dup item).flatten := by
  unfold encoding encodeOnce
  rw [if_neg (fun hnone => hnominal hnone.1), hdata]
  rfl

/-- **A constant with values** has copies of them. -/
theorem Sound.encode_eq_ok (h : d.Sound) (hkind : d.kind ∈ Kind.nominal)
    (hnominal : d.nominal ≠ []) {octets : Bytes} :
    d.encode = .ok octets ↔ d.Copies octets := by
  have hall : ∀ parts, List.Forall₂
      (fun item part => encodeValue d.kind item.1 item.2 = .ok part)
      (d.nominal.zip d.lengths) parts ↔ List.Forall₂ (fun value item =>
        Denotes d.kind value.1 value.2 item) (d.nominal.zip
            d.lengths) parts := by
    intro parts
    rw [List.forall₂_iff_zip, List.forall₂_iff_zip]
    refine and_congr_right fun _ => forall₂_congr fun item part => ?_
    exact forall_congr' fun hmem =>
      (h.encodeValue_spec hkind (List.of_mem_zip hmem).1).1 part
  rw [encode_eq_ok_iff, encoding_eq (Kind.isAddress_of_nominal hkind) hnominal]
  constructor
  · intro hmade
    cases hencoded : encodeValues d.text d.kind (d.nominal.zip d.lengths) with
    | error e =>
        rw [hencoded] at hmade
        cases hmade
    | ok item =>
        rw [hencoded] at hmade
        obtain ⟨parts, hparts, rfl⟩ := encodeValues_eq_ok.mp hencoded
        exact ⟨parts, (hall parts).mp hparts, (Except.ok.inj hmade).symm⟩
  · rintro ⟨items, hitems, rfl⟩
    rw [encodeValues_eq_ok.mpr ⟨items, (hall items).mpr hitems, rfl⟩]
    rfl

/-- **A constant is too large** if the first value without octets is. -/
theorem Sound.encode_outOfRange (h : d.Sound) (hkind : d.kind ∈ Kind.nominal)
    {message : Bytes} {width : Int} :
    d.encode = .error (.outOfRange message width) ↔
    message = d.text ∧ ∃ length :
      Nat, width = length ∧ d.Overflows length := by
  by_cases hnominal : d.nominal = []
  · have hzeros : d.encoding = .ok (List.replicate d.size 0) :=
      if_pos ⟨hnominal, Kind.isAddress_of_nominal hkind⟩
    rw [encode_eq_error_iff (by simp), hzeros]
    simp [Overflows, hnominal]
  have herror : d.encode = .error (.outOfRange message width) ↔
      encodeValues d.text d.kind (d.nominal.zip d.lengths) =
        .error (.error (.outOfRange message width)) := by
    rw [encode_eq_error_iff (by simp),
      encoding_eq (Kind.isAddress_of_nominal hkind) hnominal]
    cases encodeValues d.text d.kind (d.nominal.zip d.lengths) <;>
      simp [Except.map]
  rw [herror, encodeValues_outOfRange]
  refine and_congr_right fun _ => ⟨?_, ?_⟩
  · rintro ⟨before, value, length, after, hitems, rfl, hbefore, hvalue⟩
    refine ⟨length, rfl, before, value, after, hitems, fun item hitem => ?_, ?_⟩
    · obtain ⟨part, hpart⟩ := hbefore item hitem
      have hmem : item ∈ d.nominal.zip d.lengths :=
        hitems ▸ List.mem_append_left _ hitem
      exact ⟨part, ((h.encodeValue_spec hkind hmem).1 part).mp hpart⟩
    · have hmem : (value, length) ∈ d.nominal.zip d.lengths := by simp [hitems]
      exact (h.encodeValue_spec hkind hmem).2.mp hvalue
  · rintro ⟨length, rfl, before, value, after, hitems, hbefore, hlarge⟩
    refine ⟨before, value, length, after, hitems, rfl, fun item hitem => ?_, ?_⟩
    · obtain ⟨part, hpart⟩ := hbefore item hitem
      have hmem : item ∈ d.nominal.zip d.lengths :=
        hitems ▸ List.mem_append_left _ hitem
      exact ⟨part, ((h.encodeValue_spec hkind hmem).1 part).mpr hpart⟩
    · have hmem : (value, length) ∈ d.nominal.zip d.lengths := by simp [hitems]
      exact (h.encodeValue_spec hkind hmem).2.mpr hlarge

end Descriptor

/-- **Constants denote their values.**  A parsed constant of texts, digits or
integers with any values has a length for each of them, and its octets are
copies of octets that denote the values in turn.  It is refused as too large
just if the first of its values without octets is: an integer out of range, or a
decimal value with more digits than fit.  The latter needs a length modifier. -/
theorem denotes_encode {ε : Type} {eval : Bytes → Traced ε Int64} {text : Bytes}
    {d : Descriptor} (h : (parse eval text).result = .ok d)
    (hkind : d.kind ∈ Kind.nominal) :
    (d.nominal ≠ [] → d.lengths.length = d.nominal.length ∧
      ∀ octets, d.encode = .ok octets ↔ d.Copies octets) ∧
    (∀ message width, d.encode = .error (.outOfRange message width) ↔
      message = d.text ∧ ∃ length : Nat, width = length ∧ d.Overflows length) ∧
    (d.explicitLength = none → d.kind = .packed ∨ d.kind = .zoned →
      ∀ message width, d.encode ≠ .error (.outOfRange message width)) := by
  have hsound := parse_sound h
  refine ⟨fun hnominal =>
    ⟨hsound.paired hnominal, fun _ => hsound.encode_eq_ok hkind hnominal⟩,
    fun _ _ => hsound.encode_outOfRange hkind,
    fun hexplicit hdecimal message width herror => ?_⟩
  obtain ⟨-, length, -, before, value, after, hitems, -, hlarge⟩ :=
    (hsound.encode_outOfRange hkind).mp herror
  have hmem : (value, length) ∈ d.nominal.zip d.lengths := by simp [hitems]
  have hnominal : d.nominal ≠ [] := List.ne_nil_of_mem (List.of_mem_zip hmem).1
  have hmeasured :=
    (List.forall₂_iff_zip.mp (parse_measured h hexplicit hnominal)).2 hmem
  exact not_tooLarge_of_measureValue hdecimal hmeasured hlarge

/-- Two copies of two packed values. -/
theorem denotes_encode_packed : ∃ d : Descriptor,
    (parse (fun _ => Traced.fail ()) (bytes "2PL2'-1.50,+7'")).result = .ok d ∧
    d.Copies [0x15, 0x0D, 0x00, 0x7C, 0x15, 0x0D, 0x00, 0x7C] := by
  let d : Descriptor :=
    ⟨bytes "2PL2'-1.50,+7'", 2, .packed, some 2,
      [bytes "-1.50", bytes "+7"], [2, 2]⟩
  have hparsed : (parse (fun _ => Traced.fail ())
      (bytes "2PL2'-1.50,+7'")).result = .ok d := by
    decide +kernel
  obtain ⟨hcopies, -, -⟩ := denotes_encode hparsed (by decide)
  exact ⟨d, hparsed, ((hcopies (by decide)).2 _).mp (by decide +kernel)⟩

end Constant

end System370
