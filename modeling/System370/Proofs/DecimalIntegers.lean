import System370.Proofs.NominalValues

/-!
# Decimal integers

A decimal integer is written with one sign or none in front of its digits
(`Numeral.Signed`).  Reading one drops a plus sign first and then reads a
numeral that may have a sign of its own, so a second sign behind a plus sign is
read as well (`Numeral.SignedTwice`).

* `Numeral.signed_eq_ok_iff`: the numeral itself has one sign at most;
* `Numeral.integer_eq_ok_iff`: what is read as a decimal integer;
* `Constant.decimal_integers`: so an integer constant takes a value with two
  signs, which a packed or zoned constant refuses, and refuses every other value
  that is no decimal integer.
-/

namespace System370

namespace Numeral

/-- Whether a text is a decimal integer with this value: a sign or none, and
digits. -/
def Signed (text : Bytes) (n : Int) : Prop :=
  ∃ sign digits : Bytes,
    text = sign ++ digits ∧ digits ≠ [] ∧ (∀ c ∈ digits, isDigit c = true) ∧
    (sign = [0x2D] ∧ n = -(positional 10 (digits.map digitValue) : Int) ∨
      (sign = [] ∨ sign = [0x2B]) ∧ n = positional 10 (digits.map digitValue))

/-- Whether a text is a plus sign and a decimal integer with a sign of its
own. -/
def SignedTwice (text : Bytes) (n : Int) : Prop :=
  ∃ sign rest : Bytes,
    text = 0x2B :: (sign ++ rest) ∧ (sign = [0x2B] ∨ sign = [0x2D]) ∧
    Signed (sign ++ rest) n

/-! ### Digits -/

theorem not_sign_of_isDigit {c : UInt8} (h : isDigit c = true) :
    c ≠ 0x2B ∧ c ≠ 0x2D := by
  constructor <;> rintro rfl <;> exact absurd h (by decide)

/-- Only digits are read as a number. -/
theorem forall_isDigit_of_readDigits {text : Bytes} {n m : Nat}
    (h : readDigits n text = .value m) :
    ∀ c ∈ text, isDigit c = true := by
  induction text generalizing n with
  | nil => simp
  | cons c rest ih =>
      rw [readDigits] at h
      split at h
      · rename_i hdigit
        split at h
        · cases h
        · exact List.forall_mem_cons.mpr ⟨hdigit, ih h⟩
      · cases h

/-- A magnitude is read from digits alone. -/
theorem magnitude_eq_value_iff {text : Bytes} {n : Nat} :
    magnitude text = .value n ↔
    text ≠ [] ∧ (∀ c ∈ text, isDigit c = true) ∧
      n = positional 10 (text.map digitValue) ∧
      n < 2 ^ 64 := by
  unfold magnitude
  by_cases hnil : text = []
  · simp [hnil]
  have hread : (∀ c ∈ text, isDigit c = true) →
      readDigits 0 text = if positional 10 (text.map digitValue) < 2 ^ 64
      then .value (positional 10 (text.map digitValue)) else .overflow := by
    intro hdigits
    have hdecimal := readDigits_eq hdigits (show 0 < 2 ^ 64 by omega)
    rwa [foldl_digits, Nat.zero_mul, Nat.zero_add] at hdecimal
  rw [if_neg hnil]
  constructor
  · intro h
    have hdigits := forall_isDigit_of_readDigits h
    rw [hread hdigits] at h
    split at h
    · rename_i hlt
      obtain rfl := Magnitude.value.inj h
      exact ⟨hnil, hdigits, rfl, hlt⟩
    · cases h
  · rintro ⟨-, hdigits, rfl, hlt⟩
    rw [hread hdigits, if_pos hlt]

/-! ### Signs -/

/-- A signed numeral is read from the magnitude behind its sign; every value in
range has one. -/
theorem signed_eq_ok_iff_exists {text : Bytes} {n : Int64} :
    signed text = .ok n ↔
    ∃ m, magnitude
      (if text.head? = some 0x2D ∨ text.head? = some 0x2B then
      text.tail else text) = .value m ∧ n.toInt = if text.head? = some 0x2D then
      -(m : Int) else m := by
  have hlow := n.le_toInt
  have hhigh := n.toInt_lt
  unfold signed
  simp only
  cases magnitude (if text.head? = some 0x2D ∨ text.head? = some 0x2B then
    text.tail else text) with
  | invalid => simp
  | overflow => simp
  | value m =>
      simp only [Magnitude.value.injEq, exists_eq_left']
      split
      · split
        · rename_i hm
          rw [Except.ok.injEq, ← Int64.toInt_inj,
            Int64.toInt_ofInt_of_le (by omega) (by omega)]
          exact eq_comm
        · constructor
          · exact fun h => nomatch h
          · omega
      · split
        · rename_i hm
          rw [Except.ok.injEq, ← Int64.toInt_inj, Int64.toInt_ofNat_of_lt hm]
          exact eq_comm
        · constructor
          · exact fun h => nomatch h
          · omega

/-- **A signed numeral has one sign at most**, and a value in range. -/
theorem signed_eq_ok_iff {text : Bytes} {n : Int64} :
    signed text = .ok n ↔ Signed text n.toInt := by
  have hlow := n.le_toInt
  have hhigh := n.toInt_lt
  rw [signed_eq_ok_iff_exists]
  constructor
  · intro h
    obtain ⟨m, hm, hn⟩ := h
    obtain ⟨hne, hdigits, rfl, -⟩ := magnitude_eq_value_iff.mp hm
    obtain ⟨sign, htext, hsign⟩ := Constant.exists_sign text
    refine ⟨sign, _, htext, hne, hdigits, ?_⟩
    rcases hsign with ⟨hminus, rfl⟩ | ⟨hminus, hsign⟩
    · rw [if_pos (of_decide_eq_true hminus)] at hn
      exact Or.inl ⟨rfl, hn⟩
    · rw [if_neg (of_decide_eq_false hminus)] at hn
      exact Or.inr ⟨hsign, hn⟩
  · intro h
    obtain ⟨sign, digits, rfl, hne, hdigits, hsign⟩ := h
    refine ⟨positional 10 (digits.map digitValue), ?_⟩
    rw [magnitude_eq_value_iff]
    rcases hsign with ⟨rfl, hn⟩ | ⟨rfl | rfl, hn⟩
    · simp only [List.cons_append, List.nil_append, List.head?_cons,
        List.tail_cons, true_or, if_true]
      exact ⟨⟨hne, hdigits, trivial, by omega⟩, hn⟩
    · obtain ⟨c, rest, rfl⟩ := List.exists_cons_of_ne_nil hne
      obtain ⟨hplus, hminus⟩ :=
        not_sign_of_isDigit (hdigits c List.mem_cons_self)
      simp only [List.nil_append, List.head?_cons, Option.some.injEq, hplus,
        hminus, or_self, if_false]
      exact ⟨⟨hne, hdigits, trivial, by omega⟩, hn⟩
    · have hminus : (0x2B : UInt8) ≠ 0x2D := by decide
      simp only [List.cons_append, List.nil_append, List.head?_cons,
        List.tail_cons, or_true, if_true, Option.some.injEq, hminus, if_false]
      exact ⟨⟨hne, hdigits, trivial, by omega⟩, hn⟩

/-- A text is a decimal integer behind a plus sign if it is one and has no other
sign. -/
theorem signed_cons_plus {rest : Bytes} {n : Int} :
    Signed (0x2B :: rest) n ∨ SignedTwice (0x2B :: rest) n ↔ Signed rest n := by
  constructor
  · intro h
    rcases h with ⟨sign, digits, htext, hne, hdigits, hsign⟩ | ⟨sign, others,
      htext, -, hsigned⟩
    · rcases hsign with ⟨rfl, -⟩ | ⟨rfl | rfl, hn⟩
      · cases htext
      · obtain rfl : 0x2B :: rest = digits := htext
        exact absurd rfl (not_sign_of_isDigit (hdigits _ List.mem_cons_self)).1
      · obtain rfl : rest = digits := (List.cons.inj htext).2
        exact ⟨[], rest, rfl, hne, hdigits, Or.inr ⟨Or.inl rfl, hn⟩⟩
    · rwa [(List.cons.inj htext).2]
  · intro h
    obtain ⟨sign, digits, rfl, hne, hdigits, hsign⟩ := h
    by_cases hnone : sign = []
    · subst hnone
      rcases hsign with ⟨hsign, -⟩ | ⟨-, hn⟩
      · cases hsign
      · exact Or.inl ⟨[0x2B], digits, rfl, hne, hdigits,
          Or.inr ⟨Or.inr rfl, hn⟩⟩
    · refine Or.inr ⟨sign, digits, rfl, ?_, sign, digits, rfl, hne,
        hdigits, hsign⟩
      rcases hsign with ⟨rfl, -⟩ | ⟨rfl | rfl, -⟩
      · exact Or.inr rfl
      · exact absurd rfl hnone
      · exact Or.inl rfl

/-- **What is read as a decimal integer** has one sign at most, or a second one
behind a plus sign. -/
theorem integer_eq_ok_iff {text : Bytes} {n : Int64} :
    integer text = .ok n ↔ Signed text n.toInt ∨ SignedTwice text n.toInt := by
  have hread : integer text = .ok n ↔ signed (dropPlus text) = .ok n := by
    unfold integer
    cases signed (dropPlus text) <;> simp
  rw [hread, signed_eq_ok_iff]
  unfold dropPlus
  by_cases hplus : text.head? = some 0x2B
  · obtain ⟨rest, rfl⟩ := List.head?_eq_some_iff.mp hplus
    rw [if_pos hplus]
    exact signed_cons_plus.symm
  · rw [if_neg hplus]
    refine (or_iff_left ?_).symm
    rintro ⟨sign, rest, rfl, -, -⟩
    exact hplus rfl

/-- Of two signs the second stands where digits would. -/
theorem SignedTwice.not_spells {text : Bytes} {n : Int}
    (h : SignedTwice text n) :
    (∀ m, ¬ Signed text m) ∧ ∀ negative digits,
    ¬ Constant.Spells text negative digits := by
  obtain ⟨second, rest, rfl, hsecond, -⟩ := h
  obtain ⟨c, rfl, hc, hpoint⟩ :
      ∃ c, second = [c] ∧ isDigit c = false ∧ c ≠ 0x2E := by
    rcases hsecond with rfl | rfl <;> exact ⟨_, rfl, by decide, by decide⟩
  have hplus : isDigit 0x2B = false := by decide
  constructor
  · rintro m ⟨sign, digits, htext, -, hdigits, hsign⟩
    rcases hsign with ⟨rfl, -⟩ | ⟨rfl | rfl, -⟩ <;> grind
  · rintro negative digits ⟨sign, front, point, back, htext, hsign, hpoints,
      -, hdigits, -⟩
    rcases hsign with ⟨-, rfl⟩ | ⟨-, rfl | rfl⟩ <;> cases front <;> grind

end Numeral

namespace Constant

/-! ### Constants of numbers -/

/-- The types of decimal numbers without exponents. -/
def Kind.decimals : List Kind := [.fullword, .halfword, .packed, .zoned]

/-- Whether a value has the shape that its type reads. -/
def Shaped (kind : Kind) (value : Bytes) : Prop :=
  match kind with
  | .fullword | .halfword =>
    ∃ n : Int64, Numeral.Signed value n.toInt ∨
      Numeral.SignedTwice value n.toInt
  | .packed | .zoned => ∃ negative digits, Spells value negative digits
  | _ => False

/-- A number that is read is out of range at worst. -/
theorem encodeInteger_ne_malformed {length : Nat} {n : Int64} {reason : Bytes} :
    encodeInteger length n ≠ .error (.malformed reason) := by
  unfold encodeInteger
  split <;> simp

/-- An integer is malformed if it is not spelled, with a sign or with two. -/
theorem integer_malformed_iff {value : Bytes} {length : Nat} :
    (∃ reason, (match Numeral.integer value with
      | .ok n => encodeInteger length n
      | .error e =>
          .error (.malformed e.message)) = .error (.malformed reason)) ↔
      ¬ ∃ n : Int64, Numeral.Signed value n.toInt ∨
          Numeral.SignedTwice value n.toInt := by
  simp only [← Numeral.integer_eq_ok_iff]
  cases Numeral.integer value with
  | ok n => simp [encodeInteger_ne_malformed]
  | error e => simp

/-- A decimal number is malformed if it is not spelled. -/
theorem decimal_malformed_iff {value : Bytes}
    {encode : Decimal → Except ValueError Bytes}
    (hencode : ∀ d reason, encode d ≠ .error (.malformed reason)) :
    (∃ reason, (readDecimal value).bind encode = .error (.malformed reason)) ↔
      ¬ ∃ negative digits, Spells value negative digits := by
  cases hread : readDecimal value with
  | ok d =>
      obtain ⟨digits, hspells, -⟩ := readDecimal_eq_ok.mp hread
      refine iff_of_false ?_ (not_not_intro ⟨_, digits, hspells⟩)
      rintro ⟨reason, h⟩
      exact hencode d reason h
  | error problem =>
      have hshape : ¬ ∃ negative digits, Spells value negative digits := by
        rintro ⟨negative, digits, hspells⟩
        rw [readDecimal_of_spells hspells] at hread
        cases hread
      refine iff_of_true ?_ hshape
      obtain ⟨reason, rfl⟩ := readDecimal_malformed hread
      exact ⟨reason, rfl⟩

/-- A value is malformed just if it has another shape. -/
theorem encodeValue_malformed_iff {kind : Kind} (hkind : kind ∈ Kind.decimals)
    {value : Bytes} {length : Nat} :
    (∃ reason, encodeValue kind value length = .error (.malformed reason)) ↔
    ¬ Shaped kind value := by
  cases kind
  case fullword => exact integer_malformed_iff
  case halfword => exact integer_malformed_iff
  case packed =>
    refine decimal_malformed_iff fun d reason => ?_
    unfold encodePacked
    extract_lets nibbles octets
    split <;> simp
  case zoned =>
    refine decimal_malformed_iff fun d reason => ?_
    unfold encodeZoned
    split <;> simp
  all_goals exact absurd hkind (by decide)

/-- A constant of numbers is malformed if the first value without octets is. -/
theorem validate_malformed_iff {d : Descriptor}
    (hkind : d.kind ∈ Kind.decimals) :
    (∃ reason, d.validate = some (.malformed d.text reason)) ↔
      ∃ (before : List (Bytes × Nat)) (value : Bytes) (length : Nat)
        (after : List (Bytes × Nat)),
        d.nominal.zip d.lengths = before ++ (value, length) :: after ∧
        (∀ item ∈ before, ∃ octets,
          encodeValue d.kind item.1 item.2 = .ok octets) ∧
        ¬ Shaped d.kind value := by
  have haddress : d.kind.isAddress = false := by
    revert hkind
    cases d.kind <;> decide
  have hvalidate : ∀ reason, d.validate = some (.malformed d.text reason) ↔
      encodeValues d.text d.kind (d.nominal.zip d.lengths) =
        .error (.error (.malformed d.text reason)) := by
    intro reason
    rw [Descriptor.validate_eq_some_iff (by simp),
      Descriptor.validation_eq haddress]
    cases encodeValues d.text d.kind (d.nominal.zip d.lengths) <;>
      simp [Except.map]
  simp only [hvalidate, encodeValues_eq_error]
  constructor
  · rintro ⟨reason, before, value, length, after, problem, hitems, hbefore,
      hvalue, hblame⟩
    refine ⟨before, value, length, after, hitems, hbefore, ?_⟩
    cases problem with
    | outOfRange => cases hblame
    | endless => cases hblame
    | malformed other =>
        exact (encodeValue_malformed_iff hkind).mp ⟨other, hvalue⟩
  · rintro ⟨before, value, length, after, hitems, hbefore, hshape⟩
    obtain ⟨reason, hvalue⟩ : ∃ reason,
        encodeValue d.kind value length = .error (.malformed reason) :=
      (encodeValue_malformed_iff hkind).mpr hshape
    exact ⟨reason, before, value, length, after, _, hitems, hbefore,
      hvalue, rfl⟩

/-- **Decimal integers.**  A text is read as an integer if it is a sign or none,
digits, and its value is in the range of a word of 64 bits; and also if a plus
sign precedes such a text with a sign.  So decimal integers alone are read
unless the text has two signs, and then it is no numeral of a packed or zoned
constant.  An operand of integers, packed or zoned values is refused as
malformed just if the first of its values without octets has another shape. -/
theorem decimal_integers (text : Bytes) {d : Descriptor}
    (hkind : d.kind ∈ Kind.decimals) :
    (∀ n, Numeral.integer text = .ok n ↔
      Numeral.Signed text n.toInt ∨ Numeral.SignedTwice text n.toInt) ∧
    ((∀ n, Numeral.integer text = .ok n ↔ Numeral.Signed text n.toInt) ↔
      ∀ n : Int64, ¬ Numeral.SignedTwice text n.toInt) ∧
    (∀ n, Numeral.SignedTwice text n →
      (∀ m, ¬ Numeral.Signed text m) ∧ ∀ negative digits,
      ¬ Spells text negative digits) ∧
    ((∃ reason, d.validate = some (.malformed d.text reason)) ↔
      ∃ (before : List (Bytes × Nat)) (value : Bytes) (length : Nat)
        (after : List (Bytes × Nat)),
        d.nominal.zip d.lengths = before ++ (value, length) :: after ∧
        (∀ item ∈ before, ∃ octets,
          encodeValue d.kind item.1 item.2 = .ok octets) ∧
        ¬ Shaped d.kind value) := by
  refine ⟨fun _ => Numeral.integer_eq_ok_iff, ?_, fun _ h => h.not_spells,
    validate_malformed_iff hkind⟩
  constructor
  · intro hread n htwice
    exact htwice.not_spells.1 _
      ((hread n).mp (Numeral.integer_eq_ok_iff.mpr (.inr htwice)))
  · intro hnone n
    rw [Numeral.integer_eq_ok_iff, or_iff_left (hnone n)]

/-- Two signs: an integer constant takes the value, a packed one refuses it. -/
theorem decimal_integers_twoSigns :
    Numeral.integer (bytes "+-5") = .ok (-5) ∧
      (∀ n, ¬ Numeral.Signed (bytes "+-5") n) ∧
    (∃ d, parseClosed (bytes "F'+-5'") = .ok d ∧
      d.encode = .ok [0xFF, 0xFF, 0xFF, 0xFB]) ∧
    ∃ d, parseClosed (bytes "P'+-5'") = .ok d ∧ d.kind ∈ Kind.decimals ∧
      ∃ reason, d.validate = some (.malformed d.text reason) := by
  let d : Descriptor := ⟨bytes "P'+-5'", 1, .packed, none, [bytes "+-5"], [1]⟩
  have hkind : d.kind ∈ Kind.decimals := by decide +kernel
  obtain ⟨hread, -, htwice, hmalformed⟩ := decimal_integers (bytes "+-5") hkind
  have htext : Numeral.SignedTwice (bytes "+-5") (-5) :=
    ⟨bytes "-", bytes "5", by decide +kernel, by decide +kernel, bytes "-",
      bytes "5", rfl, by decide +kernel, by decide +kernel,
      Or.inl ⟨by decide +kernel, by decide +kernel⟩⟩
  obtain ⟨hsigned, hspells⟩ := htwice _ htext
  refine ⟨(hread (-5)).mpr (.inr htext), hsigned,
    ⟨⟨bytes "F'+-5'", 1, .fullword, none, [bytes "+-5"],
      [4]⟩, by decide +kernel, by decide +kernel⟩,
    d, by decide +kernel, hkind, ?_⟩
  refine hmalformed.mpr ⟨[], bytes "+-5", 1, [], rfl, by simp, ?_⟩
  rintro ⟨negative, digits, h⟩
  exact hspells negative digits h

end Constant

end System370
