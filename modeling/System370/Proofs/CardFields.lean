import System370.Deck.Decode
import Mathlib.Tactic.Positivity

/-!
# The fields of a card

What is written into a field of a card can be read back from it, with one
exception.

* `CodePage037.readName_nameField`: a name that fits its field is read back;
* `Deck.readNumber_put`: a number reads as its low-order octets, and as zero if
  these are all blanks;
* `Deck.readBack_eq_iff`: the numbers that come back;
* `Deck.chunks_flatten`: pieces of one size are cut apart where they were
  joined.
-/

namespace System370

/-- A text that is not too long is filled up. -/
theorem Bytes.fit_eq_append {width : Nat} {fill : UInt8}
    {text : Bytes} (h : text.length ≤ width) :
    fit width fill text =
      text ++ List.replicate (width - text.length) fill := by
  unfold fit
  rw [List.take_append, List.take_of_length_le h, List.take_replicate]
  congr 2
  omega

/-! ### Characters -/

namespace Utf8

/-- Three octets spell none of the first 256 characters. -/
theorem le_code_three {a b c : UInt8}
    (h : (0xE0 ≤ a && a ≤ 0xEF && second3 a b && isTail c) = true) :
    256 ≤ (a.toNat % 0x10 * 0x40 + tailBits b) * 0x40 + tailBits c := by
  simp only [Bool.and_eq_true, decide_eq_true_eq, UInt8.le_iff_toNat_le,
    UInt8.reduceToNat] at h
  obtain ⟨⟨⟨hlow, hhigh⟩, hsecond⟩, -⟩ := h
  unfold tailBits
  unfold second3 at hsecond
  split at hsecond
  · rename_i hlead
    simp only [Bool.and_eq_true, decide_eq_true_eq, UInt8.le_iff_toNat_le,
      UInt8.reduceToNat] at hsecond
    omega
  · rename_i hlead
    have hne : a.toNat ≠ 224 := fun heq => hlead (UInt8.toNat_inj.mp heq)
    omega

/-- Four octets spell none of the first 256 characters. -/
theorem le_code_four {a b c d : UInt8}
    (h : (0xF0 ≤ a && a ≤ 0xF4 && second4 a b && isTail c && isTail d) = true) :
    256 ≤ ((a.toNat % 8 * 0x40 + tailBits b) * 0x40 + tailBits c) * 0x40 +
      tailBits d := by
  simp only [Bool.and_eq_true, decide_eq_true_eq, UInt8.le_iff_toNat_le,
    UInt8.reduceToNat] at h
  obtain ⟨⟨⟨⟨hlow, hhigh⟩, hsecond⟩, -⟩, -⟩ := h
  unfold tailBits
  unfold second4 at hsecond
  split at hsecond
  · rename_i hlead
    simp only [Bool.and_eq_true, decide_eq_true_eq, UInt8.le_iff_toNat_le,
      UInt8.reduceToNat] at hsecond
    omega
  · rename_i hlead
    have hne : a.toNat ≠ 240 := fun heq => hlead (UInt8.toNat_inj.mp heq)
    omega

/-- Two octets are spelled by their payload bits. -/
theorem encode_two {a b : UInt8}
    (h : (0xC2 ≤ a && a ≤ 0xDF && isTail b) = true) :
    encode (a.toNat % 0x20 * 0x40 + tailBits b) = [a, b] := by
  simp only [Bool.and_eq_true, decide_eq_true_eq, isTail, UInt8.le_iff_toNat_le,
    UInt8.reduceToNat] at h
  obtain ⟨⟨hlow, hhigh⟩, htail, htail'⟩ := h
  unfold tailBits encode
  have hfirst : 0xC0 + (a.toNat % 0x20 * 0x40 + b.toNat % 0x40) / 0x40 =
      a.toNat := by
    omega
  have hsecond : 0x80 + (a.toNat % 0x20 * 0x40 + b.toNat % 0x40) % 0x40 =
      b.toNat := by
    omega
  rw [if_neg (by omega), if_pos (by omega), hfirst, hsecond]
  simp [Nat.toUInt8]

/-- **The character in front of a text** begins with the first octet, and the
first 256 characters are spelled in one way only. -/
theorem first_spec (a : UInt8) (rest : Bytes) :
    (∃ tail, (first a rest).spelling = a :: tail ∧ tail <+: rest) ∧
      ((first a rest).code < 256 →
        encode (first a rest).code = (first a rest).spelling) := by
  have hstray : (∃ tail,
      (⟨replacement, [a]⟩ : Character).spelling = a :: tail ∧ tail <+: rest) ∧
      ((⟨replacement, [a]⟩ : Character).code < 256 →
        encode (⟨replacement, [a]⟩ : Character).code = [a]) := by
    refine ⟨⟨[], rfl, List.nil_prefix⟩, ?_⟩
    intro h
    simp [replacement] at h
  unfold first
  split
  · rename_i hascii
    have hsmall : a.toNat < 128 := UInt8.lt_iff_toNat_lt.mp hascii
    refine ⟨⟨[], rfl, List.nil_prefix⟩, ?_⟩
    simp [encode, hsmall]
  · cases rest with
    | nil => exact hstray
    | cons b more =>
        simp only
        split
        · rename_i htwo
          exact ⟨⟨[b], rfl, more, rfl⟩, fun _ => encode_two htwo⟩
        · cases more with
          | nil => exact hstray
          | cons c more =>
              simp only
              split
              · rename_i hthree
                have hle := le_code_three hthree
                exact ⟨⟨[b, c], rfl, more, rfl⟩,
                  fun h => absurd h (Nat.not_lt.mpr hle)⟩
              · cases more with
                | nil => exact hstray
                | cons d more =>
                    simp only
                    split
                    · rename_i hfour
                      have hle := le_code_four hfour
                      exact ⟨⟨[b, c, d], rfl, more, rfl⟩,
                        fun h => absurd h (Nat.not_lt.mpr hle)⟩
                    · exact hstray

/-- The spellings of characters make up the text. -/
theorem flatMap_spelling (skip : Nat) (text : Bytes) :
    (decodeFrom skip text).flatMap (·.spelling) = text.drop skip := by
  induction text generalizing skip with
  | nil => simp [decodeFrom]
  | cons a rest ih =>
      cases skip with
      | succ skip =>
          rw [decodeFrom, ih]
          rfl
      | zero =>
          obtain ⟨⟨tail, hspelling, more, hrest⟩, -⟩ := first_spec a rest
          rw [decodeFrom, List.flatMap_cons, ih, hspelling, ← hrest]
          simp

/-- Each of the first 256 characters in a text is spelled in its one way. -/
theorem encode_of_mem {skip : Nat} {text : Bytes} {c : Character}
    (hc : c ∈ decodeFrom skip text) (h : c.code < 256) :
    encode c.code = c.spelling := by
  induction text generalizing skip with
  | nil => simp [decodeFrom] at hc
  | cons a rest ih =>
      cases skip with
      | succ skip => exact ih hc
      | zero =>
          rw [decodeFrom] at hc
          rcases List.mem_cons.mp hc with rfl | hc
          · exact (first_spec a rest).2 h
          · exact ih hc

end Utf8

/-! ### Names -/

namespace CodePage037

theorem code_lt_of_mem : ∀ code ∈ characters, code < 256 := by decide +kernel

/-- The octet of a character stands for it. -/
theorem toCode_ofCode? {code : Nat} {b : UInt8} (h : ofCode? code = some b) :
    toCode b = code ∧ code < 256 := by
  obtain ⟨i, hi, rfl⟩ := Option.map_eq_some_iff.mp h
  obtain ⟨hlt, heq, -⟩ := List.idxOf?_eq_some_iff.mp hi
  have hsize : characters.length = 256 := by decide +kernel
  have hoctet : i.toUInt8.toNat = i := by
    rw [Nat.toUInt8, UInt8.toNat_ofNat']
    omega
  refine ⟨?_, code_lt_of_mem code ?_⟩
  · rw [toCode, hoctet, List.getD_eq_getElem?_getD,
      List.getElem?_eq_getElem hlt, heq]
    rfl
  · rw [← heq]
    exact List.getElem_mem hlt

/-- **A text with an encoding is decoded again.** -/
theorem decode_encode {text encoded : Bytes} (h : encode text = .ok encoded) :
    decode encoded = text := by
  have hcharacters : ∀ (characters : List Character) (encoded : Bytes),
      (∀ c ∈ characters, c.code < 256 → Utf8.encode c.code = c.spelling) →
      characters.mapM encodeCharacter = .ok encoded →
      decode encoded = characters.flatMap (·.spelling) := by
    intro characters
    induction characters with
    | nil =>
        intro encoded _ h
        obtain rfl := Except.ok.inj h
        rfl
    | cons c rest ih =>
        intro encoded hspelled h
        rw [List.mapM_cons] at h
        cases hfirst : encodeCharacter c with
        | error e => simp [hfirst, bind, Except.bind] at h
        | ok b =>
            cases hrest : rest.mapM encodeCharacter with
            | error e => simp [hfirst, hrest, bind, Except.bind] at h
            | ok others =>
                simp only [hfirst, hrest, bind, Except.bind, pure, Except.pure,
                  Except.ok.injEq] at h
                subst h
                have hoctet : ofCode? c.code = some b := by
                  unfold encodeCharacter at hfirst
                  split at hfirst
                  · rename_i other hother
                    rw [hother, Except.ok.inj hfirst]
                  · simp at hfirst
                obtain ⟨hcode, hlt⟩ := toCode_ofCode? hoctet
                have hothers := ih others
                  (fun d hd => hspelled d (List.mem_cons_of_mem _ hd)) hrest
                unfold decode at hothers ⊢
                rw [List.flatMap_cons, List.flatMap_cons, hcode,
                  hspelled c List.mem_cons_self hlt, hothers]
  rw [hcharacters _ encoded (fun c hc => Utf8.encode_of_mem hc) h]
  exact Utf8.flatMap_spelling 0 text

/-- Whether a name can be written into a field and be read back: it has an
encoding that is not too long, and no blank at its end. -/
def NameFits (width : Nat) (name : Bytes) : Prop :=
  (∃ encoded, encode name = .ok encoded ∧ encoded.length ≤ width) ∧
    name.getLast? ≠ some 0x20

instance (width : Nat) (name : Bytes) : Decidable (NameFits width name) :=
  match h : encode name with
  | .ok encoded =>
    decidable_of_iff (encoded.length ≤ width ∧ name.getLast? ≠ some 0x20)
      (by simp [NameFits, h])
  | .error _ => isFalse (by simp [NameFits, h])

/-- Blanks behind a name are taken away. -/
theorem dropRightWhile_replicate {name : Bytes} (h : name.getLast? ≠ some 0x20)
    (count : Nat) :
    Bytes.dropRightWhile (· = 0x20) (name ++ List.replicate count 0x20) =
      name := by
  have hkeep : (name.reverse).dropWhile (· = 0x20) = name.reverse := by
    rw [← List.head?_reverse] at h
    cases hreverse : name.reverse with
    | nil => rfl
    | cons b rest =>
        rw [hreverse, List.head?_cons] at h
        rw [List.dropWhile_cons_of_neg]
        simpa using h
  unfold Bytes.dropRightWhile
  rw [List.reverse_append, List.reverse_replicate, List.dropWhile_append_of_pos,
    hkeep, List.reverse_reverse]
  intro b hb
  simp [(List.mem_replicate.mp hb).2]

/-- **A name that fits its field is read back.** -/
theorem readName_nameField {width : Nat} {name : Bytes}
    (h : NameFits width name) :
    readName (nameField width name) = name := by
  obtain ⟨⟨encoded, hencoded, hlength⟩, hlast⟩ := h
  have hblank : ∀ count,
      decode (List.replicate count blank) = List.replicate count 0x20 := by
    intro count
    induction count with
    | zero => rfl
    | succ count ih =>
        rw [List.replicate_succ, List.replicate_succ, ← ih]
        rfl
  unfold readName nameField
  rw [hencoded]
  simp only
  rw [Bytes.fit_eq_append hlength, decode, List.flatMap_append]
  have hname : encoded.flatMap (fun b => Utf8.encode (toCode b)) = name :=
    decode_encode hencoded
  have hfill := hblank (width - encoded.length)
  unfold decode at hfill
  rw [hname, hfill]
  exact dropRightWhile_replicate hlast _

end CodePage037

/-! ### Numbers -/

/-- The octets of a field are those of the number in it. -/
theorem Field.put_get (field : Bytes) :
    Field.put field.length (Field.get field) = field := by
  suffices hall : ∀ (length : Nat) (field : Bytes), field.length = length →
      Field.put length (Field.get field) = field from
        hall field.length field rfl
  intro length
  induction length with
  | zero =>
      intro field hlength
      rw [List.length_eq_zero_iff.mp hlength]
      rfl
  | succ length ih =>
      intro field hlength
      rcases List.eq_nil_or_concat field with rfl | ⟨front, b, rfl⟩
      · simp at hlength
      · have hfront : front.length = length := by simpa using hlength
        have hlt := b.toNat_lt
        have hremainder : ((Field.get (front ++ [b]) : Int) % 256).toNat =
            b.toNat := by
          rw [Field.get_concat]
          omega
        have hrest : ((Field.get (front ++ [b]) : Int) / 256) =
            (Field.get front : Int) := by
          rw [Field.get_concat]
          omega
        rw [List.concat_eq_append, Field.put, hrest,
          ih front hfront, hremainder]
        simp [Nat.toUInt8]

/-- The number in a field is less than its modulus. -/
theorem Field.get_lt (field : Bytes) :
    Field.get field < 256 ^ field.length := by
  have hget := Field.get_put field.length (Field.get field)
  have hlt := Int.emod_lt_of_pos (Field.get field : Int)
    (by positivity : (0 : Int) < 256 ^ field.length)
  rw [Field.put_get] at hget
  rw [← hget] at hlt
  exact_mod_cast hlt

namespace Deck

/-- The number whose octets are all blanks. -/
def blankNumber (width : Nat) : Nat := Field.get (blanks width)

/-- What a number reads as that was written into a field: the number of its
low-order octets, and zero if all of these are blanks. -/
def readBack (width : Nat) (n : Int) : Nat :=
  if n % 256 ^ width = blankNumber width then 0 else (n % 256 ^ width).toNat

/-- Whether a number can be written into a field and be read back. -/
def Legible (width : Nat) (n : Int) : Prop :=
  0 ≤ n ∧ n < 256 ^ width ∧ n ≠ blankNumber width

instance (width : Nat) (n : Int) : Decidable (Legible width n) :=
  inferInstanceAs (Decidable (_ ∧ _ ∧ _))

/-- **A number is read back from its field**, unless its octets are all
blanks. -/
theorem readNumber_put (width : Nat) (n : Int) :
    readNumber (Field.put width n) = readBack width n := by
  have hget : (Field.get (Field.put width n) : Int) = n % 256 ^ width :=
    Field.get_put width n
  have hblank : (Field.put width n).all (· = CodePage037.blank) = true ↔
      n % 256 ^ width = blankNumber width := by
    constructor
    · intro hall
      have hfield : Field.put width n = blanks width := by
        apply List.eq_replicate_iff.mpr
        refine ⟨Field.length_put _ _, ?_⟩
        intro b hb
        simpa using List.all_eq_true.mp hall b hb
      rw [← hget, hfield]
      rfl
    · intro hnumber
      have hput := Field.put_get (Field.put width n)
      have hput' := Field.put_get (blanks width)
      have heq : Field.get (Field.put width n) = Field.get (blanks width) := by
        rw [← Int.natCast_inj, hget, hnumber]
        rfl
      rw [Field.length_put, heq] at hput
      rw [blanks, List.length_replicate] at hput'
      rw [← hput, blanks, hput']
      simp
  unfold readNumber readBack
  by_cases h : n % 256 ^ width = blankNumber width
  · rw [if_pos (hblank.mpr h), if_pos h]
  · rw [if_neg (fun hall => h (hblank.mp hall)), if_neg h, ← hget,
      Int.toNat_natCast]

/-- Blanks read as zero. -/
theorem readNumber_blanks (width : Nat) : readNumber (blanks width) = 0 := by
  simp [readNumber, blanks]

theorem blankNumber_pos {width : Nat} (h : 0 < width) :
    0 < blankNumber width := by
  cases width with
  | zero => omega
  | succ width =>
      rw [blankNumber, blanks, List.replicate_succ', Field.get_concat]
      have hblank : CodePage037.blank.toNat = 64 := rfl
      omega

/-- **The numbers that come back** are those in the range of their field whose
octets are not all blanks. -/
theorem readBack_eq_iff {width : Nat} (hpos : 0 < width) {n : Int} :
    (readBack width n : Int) = n ↔ Legible width n := by
  have hwidth : (0 : Int) < 256 ^ width := by positivity
  have hlow := Int.emod_nonneg n (ne_of_gt hwidth)
  have hhigh := Int.emod_lt_of_pos n hwidth
  have hblank := blankNumber_pos hpos
  unfold readBack Legible
  by_cases h : n % 256 ^ width = blankNumber width
  · rw [if_pos h]
    constructor
    · rintro rfl
      simp at h
      omega
    · rintro ⟨hnonneg, hlt, hne⟩
      rw [Int.emod_eq_of_lt hnonneg hlt] at h
      exact absurd h hne
  · rw [if_neg h, Int.toNat_of_nonneg hlow]
    constructor
    · intro heq
      rw [heq] at hlow hhigh h
      exact ⟨hlow, hhigh, h⟩
    · rintro ⟨hnonneg, hlt, -⟩
      exact Int.emod_eq_of_lt hnonneg hlt

@[simp] theorem readBack_zero (width : Nat) : readBack width 0 = 0 := by
  unfold readBack
  split
  · rfl
  · rw [Int.zero_emod]
    rfl

/-- A number that is read back fits its columns. -/
theorem readBack_lt (width : Nat) (n : Int) :
    (readBack width n : Int) < 256 ^ width := by
  have hwidth : (0 : Int) < 256 ^ width := by positivity
  have hlow := Int.emod_nonneg n (ne_of_gt hwidth)
  have hhigh := Int.emod_lt_of_pos n hwidth
  unfold readBack
  split
  · exact_mod_cast hwidth
  · rw [Int.toNat_of_nonneg hlow]
    exact hhigh

/-! ### Pieces -/

/-- **Pieces of one size are cut apart where they were joined.** -/
theorem chunksFrom_flatten {size : Nat} (hpos : 0 < size) {pieces : List Bytes}
    (h : ∀ piece ∈ pieces, piece.length = size) {fuel : Nat}
    (hfuel : pieces.length ≤ fuel) :
    chunksFrom size fuel pieces.flatten = pieces := by
  induction pieces generalizing fuel with
  | nil => cases fuel <;> rfl
  | cons piece rest ih =>
      have hlength := h piece List.mem_cons_self
      cases fuel with
      | zero => simp at hfuel
      | succ fuel =>
          have hrest := ih (fun p hp => h p (List.mem_cons_of_mem _ hp))
            (by simpa using hfuel)
          cases piece with
          | nil => simp at hlength; omega
          | cons b others =>
              rw [List.flatten_cons, List.cons_append, chunksFrom,
                ← List.cons_append,
                List.take_left' hlength, List.drop_left' hlength, hrest]
              simp

/-- Pieces of one size are found again where they stand together. -/
theorem chunks_flatten {size : Nat} (hpos : 0 < size)
    {pieces : List Bytes} (h : ∀ piece ∈ pieces, piece.length = size) :
    chunks size pieces.flatten = pieces := by
  apply chunksFrom_flatten hpos h
  rw [List.length_flatten]
  calc
    pieces.length = pieces.length * 1 := (Nat.mul_one _).symm
    _ ≤ pieces.length * size := Nat.mul_le_mul_left _ hpos
    _ = (pieces.map List.length).sum := by
        rw [List.map_congr_left h, List.map_const', List.sum_replicate_nat]

/-- Pieces are not empty, and not too long. -/
theorem length_of_mem_chunksFrom {size fuel : Nat} (hpos : 0 < size)
    {data piece : Bytes} (h : piece ∈ chunksFrom size fuel data) :
    0 < piece.length ∧ piece.length ≤ size := by
  induction fuel generalizing data with
  | zero => simp [chunksFrom] at h
  | succ fuel ih =>
      cases data with
      | nil => simp [chunksFrom] at h
      | cons b rest =>
          rcases List.mem_cons.mp h with rfl | h
          · simp only [List.length_take, List.length_cons]
            omega
          · exact ih h

/-- The pieces of some octets make them up. -/
theorem flatten_chunksFrom {size fuel : Nat} (hpos : 0 < size)
    {data : Bytes} (hfuel : data.length ≤ fuel) :
    (chunksFrom size fuel data).flatten = data := by
  induction fuel generalizing data with
  | zero =>
      rw [List.length_eq_zero_iff.mp (Nat.le_zero.mp hfuel)]
      rfl
  | succ fuel ih =>
      cases data with
      | nil => rfl
      | cons b rest =>
          have hshort : ((b :: rest).drop size).length ≤ fuel := by
            simp only [List.length_drop, List.length_cons] at hfuel ⊢
            omega
          rw [chunksFrom, List.flatten_cons, ih hshort, List.take_append_drop]
          simp

/-! ### Columns -/

/-- Columns of a card that is put together from fields. -/
theorem columns_eq {before field after : Bytes} {start stop : Nat}
    (hstart : before.length = start) (hstop : start + field.length = stop) :
    columns start stop (before ++ (field ++ after)) = field := by
  unfold columns
  rw [List.drop_left' hstart]
  exact List.take_left' (by omega)

theorem columns_front {field after : Bytes} {stop : Nat}
    (h : field.length = stop) :
    columns 0 stop (field ++ after) = field := List.take_left' h

theorem columns_back {before field : Bytes} {start stop : Nat}
    (hstart : before.length = start) (hstop : start + field.length = stop) :
    columns start stop (before ++ field) = field := by
  have h := @columns_eq before field [] start stop hstart hstop
  rwa [List.append_nil] at h

/-- Columns of a card behind the first ones. -/
theorem columns_append {before after : Bytes} {skip : Nat}
    (hskip : before.length = skip) (start stop : Nat) :
    columns (skip + start) (skip + stop) (before ++ after) =
      columns start stop after := by
  unfold columns
  rw [← List.drop_drop, List.drop_left' hskip]
  congr 1
  omega

/-- Columns that do not reach beyond the first ones. -/
theorem columns_left {field after : Bytes} {start stop : Nat}
    (h : stop ≤ field.length) :
    columns start stop (field ++ after) = columns start stop field := by
  unfold columns
  by_cases hstart : start ≤ field.length
  · rw [List.drop_append_of_le_length hstart, List.take_append_of_le_length]
    rw [List.length_drop]
    omega
  · have hzero : stop - start = 0 := by omega
    rw [hzero, List.take_zero, List.take_zero]

end Deck

end System370
