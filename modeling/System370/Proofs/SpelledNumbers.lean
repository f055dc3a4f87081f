import System370.Numeral
import Mathlib.Data.Nat.Digits.Lemmas

/-!
# The numbers that numerals spell

Digits to some base, the most significant one first, spell a number
(`Numeral.positional`).

* `Numeral.integer_digits`: a decimal numeral has that number, if it has a value
  at all;
* `Numeral.term_eq_ok`: a self-defining term has the number that its octets
  spell, and `Numeral.get_termOctets` says that its own digits spell the same
  number.
-/

namespace System370

namespace Numeral

/-- The number that digits to some base spell. -/
def positional (base : Nat) (digits : List Nat) : Nat :=
  Nat.ofDigits base digits.reverse

@[simp] theorem positional_nil (base : Nat) : positional base [] = 0 := rfl

/-- Digits in front count by their place. -/
theorem positional_append (base : Nat) (digits others : List Nat) :
    positional base (digits ++ others) =
      positional base digits * base ^ others.length +
        positional base others := by
  rw [positional, List.reverse_append, Nat.ofDigits_append, List.length_reverse,
    Nat.add_comm, Nat.mul_comm]
  rfl

/-- Digits are read from left to right. -/
theorem foldl_digits (base : Nat) (digits : List Nat) (start : Nat) :
    digits.foldl (fun n d => n * base + d) start =
      start * base ^ digits.length + positional base digits := by
  induction digits using List.reverseRecOn with
  | nil => simp
  | append_singleton front d ih =>
      have hsingle : positional base [d] = d := Nat.ofDigits_singleton
      rw [List.foldl_append, ih, positional_append, hsingle, List.length_append,
        List.length_singleton]
      simp only [List.foldl_cons, List.foldl_nil, Nat.pow_succ, Nat.pow_zero,
        Nat.one_mul]
      grind

/-- A number is less than its base to the count of its digits. -/
theorem positional_lt {base : Nat} (hbase : 1 < base) {digits : List Nat}
    (h : ∀ d ∈ digits, d < base) :
    positional base digits < base ^ digits.length := by
  have hlt := Nat.ofDigits_lt_base_pow_length hbase fun d hd =>
    h d (List.mem_reverse.mp hd)
  rwa [List.length_reverse] at hlt

/-- Zeros in front change no number. -/
theorem positional_replicate (base count : Nat) (digits : List Nat) :
    positional base (List.replicate count 0 ++ digits) =
      positional base digits := by
  rw [positional, List.reverse_append, List.reverse_replicate,
    Nat.ofDigits_append_replicate_zero]
  rfl

/-! ### Decimal numbers -/

/-- Digits are read as the number they spell, unless it exceeds a word. -/
theorem readDigits_eq {text : Bytes} (h : ∀ c ∈ text, isDigit c = true)
    {n : Nat} (hn : n < 2 ^ 64) :
    readDigits n text =
      if (text.map digitValue).foldl (fun n d => n * 10 + d) n < 2 ^ 64
      then .value ((text.map digitValue).foldl (fun n d => n * 10 + d) n) else
        .overflow := by
  induction text generalizing n with
  | nil => simp [readDigits, hn]
  | cons c rest ih =>
      obtain ⟨hc, hrest⟩ := List.forall_mem_cons.mp h
      rw [readDigits, if_pos hc, List.map_cons, List.foldl_cons]
      by_cases hover : 2 ^ 64 ≤ n * 10 + digitValue c
      · have hgrows :=
          foldl_digits 10 (rest.map digitValue) (n * 10 + digitValue c)
        have hpow : 1 ≤ 10 ^ (rest.map digitValue).length :=
          Nat.one_le_pow _ _ (by omega)
        have hle := Nat.mul_le_mul_left (n * 10 + digitValue c) hpow
        rw [if_pos hover, if_neg (by omega)]
      · rw [if_neg hover, ih hrest (by omega)]

/-- **A decimal numeral has the number that its digits spell**, or that is out
of range. -/
theorem integer_digits {digits : Bytes} (hne : digits ≠ [])
    (h : ∀ c ∈ digits, isDigit c = true) :
    integer digits =
      if positional 10 (digits.map digitValue) < 2 ^ 63
      then .ok (Int64.ofNat (positional 10 (digits.map digitValue)))
      else .error (.integerOutOfRange digits) := by
  have hhead : digits.head? ≠ some 0x2B ∧ digits.head? ≠ some 0x2D := by
    constructor <;> intro heq <;>
      exact absurd (h _ (List.mem_of_head? heq)) (by decide)
  have hread := readDigits_eq h (show 0 < 2 ^ 64 by omega)
  rw [foldl_digits, Nat.zero_mul, Nat.zero_add] at hread
  have hmagnitude : magnitude digits = readDigits 0 digits := if_neg hne
  rw [integer, dropPlus, if_neg hhead.1, signed]
  simp only [hhead.1, hhead.2, or_self, if_false, hmagnitude, hread]
  by_cases hword : positional 10 (digits.map digitValue) < 2 ^ 64
  · rw [if_pos hword]
    by_cases hrange : positional 10 (digits.map digitValue) < 2 ^ 63
    · simp only [if_pos hrange]
    · simp only [if_neg hrange]
  · rw [if_neg hword, if_neg (by omega)]

/-- A decimal term is a number of at most 31 bits. -/
theorem integer_digits_le {digits : Bytes} (hne : digits ≠ [])
    (h : ∀ c ∈ digits, isDigit c = true) (n : Int64) :
    (integer digits = .ok n ∧ n ≤ 0x7FFFFFFF) ↔
    positional 10 (digits.map digitValue) ≤ 0x7FFFFFFF ∧
      n = Int64.ofNat (positional 10 (digits.map digitValue)) := by
  have hle : ∀ m,
      m < 2 ^ 63 → (Int64.ofNat m ≤ 0x7FFFFFFF ↔ m ≤ 0x7FFFFFFF) := by
    intro m hm
    rw [Int64.le_iff_toInt_le, Int64.toInt_ofNat_of_lt hm]
    exact Int.ofNat_le
  rw [integer_digits hne h]
  split
  · rename_i hrange
    rw [Except.ok.injEq]
    constructor
    · rintro ⟨rfl, hn⟩
      exact ⟨(hle _ hrange).mp hn, rfl⟩
    · rintro ⟨hn, rfl⟩
      exact ⟨rfl, (hle _ hrange).mpr hn⟩
  · constructor
    · rintro ⟨heq, -⟩
      simp at heq
    · rintro ⟨hn, -⟩
      omega

/-! ### Self-defining terms -/

/-- A field holds its octets as digits to the base 256. -/
theorem get_eq (octets : Bytes) :
    Field.get octets = positional 256 (octets.map UInt8.toNat) := by
  have hfold := foldl_digits 256 (octets.map UInt8.toNat) 0
  rw [List.foldl_map, Nat.zero_mul, Nat.zero_add] at hfold
  exact hfold

/-- The first octet of digits, and the octets behind it. -/
theorem packDigits_of_le {base per : Nat} {values : List Nat}
    (hper : 0 < per) (h : per ≤ values.length) : packDigits base per values =
      (positional base (values.take per)).toUInt8 ::
        packDigits base per (values.drop per) := by
  have hcount : values.length / per = (values.drop per).length / per + 1 := by
    rw [List.length_drop, ← Nat.add_div_right _ hper, Nat.sub_add_cancel h]
  have hfirst := foldl_digits base (values.take per) 0
  rw [Nat.zero_mul, Nat.zero_add] at hfirst
  rw [packDigits, hcount, List.range_succ_eq_map, List.map_cons, List.map_map,
    Nat.zero_mul, List.drop_zero, hfirst, packDigits]
  congr 1
  refine List.map_congr_left fun i _ => ?_
  simp only [Function.comp_apply, List.drop_drop]
  rw [Nat.succ_mul, Nat.add_comm per]

/-- The octets of digits, as many to an octet as it holds. -/
theorem get_packDigits {base per : Nat} (hbase : base ^ per = 256)
    (hone : 1 < base) (hper : 0 < per) (count : Nat) {values : List Nat}
    (hlength : values.length = count * per) (hvalues : ∀ d ∈ values, d < base) :
    Field.get (packDigits base per values) = positional base values := by
  induction count generalizing values with
  | zero =>
      have hnil : values = [] :=
        List.length_eq_zero_iff.mp (by simpa using hlength)
      subst hnil
      simp [packDigits, Field.get]
  | succ count ih =>
      rw [Nat.succ_mul] at hlength
      have hle : per ≤ values.length := by omega
      have hrest : (values.drop per).length = count * per := by
        rw [List.length_drop]; omega
      have hdigits : ∀ d ∈ values.take per, d < base :=
        fun d hd => hvalues d (List.mem_of_mem_take hd)
      have hlt := positional_lt hone hdigits
      rw [List.length_take_of_le hle, hbase] at hlt
      have hoctet : (positional base (values.take per)).toUInt8.toNat =
          positional base (values.take per) := by
        rw [Nat.toUInt8, UInt8.toNat_ofNat', Nat.mod_eq_of_lt hlt]
      have hsingle : ∀ n, positional 256 [n] = n :=
        fun _ => Nat.ofDigits_singleton
      -- an octet counts as much as the digits that it holds
      have hweight : 256 ^
          ((packDigits base per (values.drop per)).map UInt8.toNat).length =
          base ^ (values.drop per).length := by
        rw [List.length_map, packDigits, List.length_map,
          List.length_range, hrest,
          Nat.mul_div_cancel _ hper, ← hbase, ← Nat.pow_mul, Nat.mul_comm per]
      have hall := positional_append base (values.take per) (values.drop per)
      rw [List.take_append_drop] at hall
      rw [packDigits_of_le hper hle, get_eq, List.map_cons, hoctet,
        ← List.singleton_append, positional_append,
        ← get_eq, ih hrest fun d hd => hvalues d (List.mem_of_mem_drop hd),
        hsingle, hweight, hall]

/-- Octets without leading zeros are the same number. -/
theorem get_dropZeros (octets : Bytes) :
    Field.get (dropZeros octets) = Field.get octets := by
  induction octets with
  | nil => rfl
  | cons b rest ih =>
      unfold dropZeros
      split
      · rename_i hzero
        rw [ih, get_eq, get_eq, hzero.1]
        exact (positional_replicate 256 1 _).symm
      · rfl

/-- Some octet is left of any text that is not empty. -/
theorem dropZeros_eq_nil {octets : Bytes} : dropZeros octets = [] ↔
    octets = [] := by
  induction octets with
  | nil => rfl
  | cons b rest ih =>
      unfold dropZeros
      split
      · rename_i hzero
        have hne : rest ≠ [] := by
          rintro rfl
          simp at hzero
        simp [ih, hne]
      · simp

/-- At most four octets are left if at most four are left without all leading
zeros. -/
theorem length_dropZeros (octets : Bytes) :
    (dropZeros octets).length ≤ 4 ↔ (octets.dropWhile (· = 0)).length ≤ 4 := by
  induction octets with
  | nil => simp [dropZeros]
  | cons b rest ih =>
      unfold dropZeros
      by_cases hb : b = 0
      · rw [List.dropWhile_cons_of_pos (by simp [hb])]
        split
        · exact ih
        · rename_i hshort
          have hlong : rest.length < 4 := by
            by_contra hlong
            exact hshort ⟨hb, Nat.le_of_not_lt hlong⟩
          have hdropped := (List.dropWhile_suffix (l := rest) fun b : UInt8 =>
            decide (b = 0)).length_le
          rw [List.length_cons]
          omega
      · rw [if_neg (by simp [hb]), List.dropWhile_cons_of_neg (by simp [hb])]

/-- **A self-defining term has the number that its octets spell.**  There is at
least one octet, and at most four are left once leading zeros are dropped. -/
theorem term_eq_ok {kind : UInt8} {body : Bytes} {n : Int64} :
    term kind body = .ok n ↔ ∃ octets,
    termOctets kind body = .ok octets ∧ octets ≠ [] ∧
      (octets.dropWhile (· = 0)).length ≤ 4 ∧
      n = Int64.ofNat (Field.get octets) := by
  unfold term
  cases termOctets kind body with
  | error e => simp
  | ok octets =>
      simp only [Except.ok.injEq, exists_eq_left', dropZeros_eq_nil,
        get_dropZeros, ← length_dropZeros]
      split
      · rename_i hsize
        constructor
        · simp
        · rintro ⟨hne, hle, -⟩
          exact absurd hsize (by simp [hne, hle])
      · rename_i hsize
        simp only [not_or, Nat.not_lt] at hsize
        rw [Except.ok.injEq]
        exact ⟨fun heq => ⟨hsize.1, hsize.2, heq.symm⟩, fun h => h.2.2.symm⟩

/-- The number that the body of a self-defining term of type `kind` spells with
digits of its own: hexadecimal ones, binary ones, or characters in the code
page. -/
def spelled (kind : UInt8) (body : Bytes) : Nat :=
  if upperAscii kind = octet 'X' then positional 16 (body.filterMap hexValue?)
  else if upperAscii kind = octet 'B' then
    positional 2 (body.filterMap bitValue?)
  else
    match CodePage037.encode body with
    | .ok octets => positional 256 (octets.map UInt8.toNat)
    | .error _ => 0

theorem mapM_some {α β : Type} {f : α → Option β} {items : List α}
    {values : List β} (h : items.mapM f = some values) :
    values = items.filterMap f ∧ values.length = items.length := by
  induction items generalizing values with
  | nil =>
      obtain rfl := Option.some.inj h
      exact ⟨rfl, rfl⟩
  | cons a rest ih =>
      rw [List.mapM_cons] at h
      cases hf : f a with
      | none => simp [hf] at h
      | some b =>
          cases hrest : rest.mapM f with
          | none => simp [hf, hrest] at h
          | some others =>
              obtain ⟨rfl, hlength⟩ := ih hrest
              simp only [hf, hrest, Option.pure_def, Option.bind_eq_bind,
                Option.bind_some, Option.some.injEq] at h
              subst h
              simp [hf, hlength]

/-- Digits filled to whole octets spell the number that they spell alone. -/
theorem get_wholeOctets {base per : Nat} {value? : UInt8 → Option Nat}
    (hbase : base ^ per = 256) (hone : 1 < base)
    (hper : 0 < per) (hzero : value? 0x30 = some 0)
    (hvalue : ∀ c d, value? c = some d → d < base) {body : Bytes}
    {values : List Nat} (h : (wholeOctets per body).mapM value? = some values) :
    Field.get (packDigits base per values) =
      positional base (body.filterMap value?) := by
  obtain ⟨rfl, hlength⟩ := mapM_some h
  have hdvd : per ∣ (wholeOctets per body).length := by
    rw [wholeOctets, List.length_append, List.length_replicate]
    have hmod := Nat.mod_lt body.length hper
    have hdiv := Nat.div_add_mod body.length per
    by_cases hzeros : body.length % per = 0
    · rw [hzeros, Nat.sub_zero, Nat.mod_self, Nat.zero_add]
      exact Nat.dvd_of_mod_eq_zero hzeros
    · rw [Nat.mod_eq_of_lt (by omega)]
      exact ⟨body.length / per + 1, by rw [Nat.mul_succ]; omega⟩
  obtain ⟨count, hcount⟩ := hdvd
  rw [get_packDigits hbase hone hper count
    (by rw [hlength, hcount, Nat.mul_comm]) (fun d hd => ?_)]
  · rw [wholeOctets, List.filterMap_append,
      List.filterMap_replicate_of_some hzero, positional_replicate]
  · obtain ⟨c, -, hc⟩ := List.mem_filterMap.mp hd
    exact hvalue c d hc

/-- **A string of digits spells a number**, whatever the base. -/
theorem get_digitString {base per : Nat} {value? : UInt8 → Option Nat}
    {empty : NumeralError} {invalid : Bytes → NumeralError}
    (hbase : base ^ per = 256)
    (hone : 1 < base) (hper : 0 < per) (hzero : value? 0x30 = some 0)
    (hvalue : ∀ c d, value? c = some d → d < base) {body octets : Bytes}
    (h : digitString base per value? empty invalid body = .ok octets) :
    Field.get octets = positional base (body.filterMap value?) := by
  unfold digitString at h
  split at h
  · cases h
  · simp only at h
    split at h
    · obtain rfl := Except.ok.inj h
      exact get_wholeOctets hbase hone hper hzero hvalue ‹_›
    · cases h

/-- Hexadecimal digits are below 16. -/
theorem lt_of_hexValue? {c : UInt8} {d : Nat} (h : hexValue? c = some d) :
    d < 16 := by
  unfold hexValue? at h
  simp only [isDigit, digitValue, Bool.and_eq_true, decide_eq_true_eq,
    UInt8.le_iff_toNat_le] at h
  grind

/-- Binary digits are below 2. -/
theorem lt_of_bitValue? {c : UInt8} {d : Nat}
    (h : bitValue? c = some d) : d < 2 := by
  unfold bitValue? at h
  grind

/-- Hexadecimal digits are read to the base 16. -/
theorem get_hex {body octets : Bytes} (h : hex body = .ok octets) :
    Field.get octets = positional 16 (body.filterMap hexValue?) :=
  get_digitString (by decide) (by decide) (by decide) rfl
    (fun _ _ => lt_of_hexValue?) h

/-- Binary digits are read to the base 2. -/
theorem get_binary {body octets : Bytes} (h : binary body = .ok octets) :
    Field.get octets = positional 2 (body.filterMap bitValue?) :=
  get_digitString (by decide) (by decide) (by decide) rfl
    (fun _ _ => lt_of_bitValue?) h

/-- **The octets of a self-defining term spell the number that its digits
spell.** -/
theorem get_termOctets {kind : UInt8} {body octets : Bytes}
    (h : termOctets kind body = .ok octets) :
    Field.get octets = spelled kind body := by
  unfold termOctets at h
  unfold spelled
  by_cases hhex : upperAscii kind = octet 'X'
  · rw [if_pos hhex] at h ⊢
    exact get_hex h
  by_cases hbinary : upperAscii kind = octet 'B'
  · rw [if_neg hhex, if_pos hbinary] at h ⊢
    exact get_binary h
  rw [if_neg hhex, if_neg hbinary] at h ⊢
  split at h
  · cases hencoded : CodePage037.encode body with
    | ok encoded =>
        rw [hencoded] at h
        obtain rfl := Except.ok.inj h
        exact get_eq encoded
    | error e => simp [hencoded] at h
  · simp at h

end Numeral

end System370
