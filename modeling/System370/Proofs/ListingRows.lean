import Mathlib.Data.List.Basic
import System370.Listing
import System370.Proofs.CardFields

/-!
# The lines of a listing

The part of a listing that shows the program is a list of entries, one for each
line of it.  `Listing.Entry.Row` says which octets are the line of an entry: in
which columns its location, its code in hexadecimal digits, its number and its
text stand, and that a line feed ends it.  Nothing in it refers to how a line is
printed, so it can be read off a listing alone.

* `Listing.Entry.row_print`: what is printed for an entry is its line.
-/

namespace System370

namespace Listing

/-! ### Columns -/

/-- The two hexadecimal digits of an octet. -/
def hexPair (b : UInt8) : Bytes :=
  let digit (n : Nat) : UInt8 := if n < 10 then 0x30 + n.toUInt8 else
    0x37 + n.toUInt8
  [digit (b.toNat / 16), digit (b.toNat % 16)]

/-- Whether a column shows a location: at least six digits, or six blanks. -/
def IsLocation (column : Bytes) : Prop :=
  column = List.replicate 6 0x20 ∨
    6 ≤ column.length ∧ ∀ c ∈ column, c ∈ bytes "-0123456789ABCDEF"

/-- Whether a column shows some octets, two digits for each, with blanks between
and behind them. -/
structure IsCode (data column : Bytes) : Prop where
  wide : 16 ≤ column.length
  digits : column.filter (· ≠ 0x20) = data.flatMap hexPair

/-- Whether a column shows a number in decimal at its right end. -/
def IsNumber (number : Nat) (column : Bytes) : Prop :=
  5 ≤ column.length ∧ ∃ width, column = List.replicate width 0x20 ++
    (Nat.toDigits 10 number).map (·.toNat.toUInt8)

/-- Whether the columns of two addresses show nothing but their digits. -/
def AreAddresses (columns : Bytes) : Prop :=
  columns.length = 14 ∧ ∀ c ∈ columns, c ∈ bytes " 0123456789ABCDEF"

/-! ### Entries and their lines -/

/-- A line of the part of a listing that shows the program. -/
inductive Entry where
  /-- The first line of a statement, with the first code of its record. -/
  | opening (r : Record) (number : Nat) (data text : Bytes)
  /-- A further line of a statement. -/
  | continued (text : Bytes)
  /-- Further code of a record, from an offset on. -/
  | code (r : Record) (offset : Nat) (data : Bytes)
  /-- A literal of a pool. -/
  | literal (pool : Record) (number : Nat) (shown : Literal)
  /-- What is wrong with a line of the source. -/
  | problem (d : Diagnostic)

namespace Entry

/-- The record that an entry is about. -/
def record? : Entry → Option Record
  | opening r _ _ _ | code r _ _ | literal r _ _ => some r
  | _ => none

/-- The number that an entry shows. -/
def number? : Entry → Option Nat
  | opening _ number _ _ | literal _ number _ => some number
  | _ => none

/-- The code of its record that an entry shows. -/
def data : Entry → Bytes
  | opening _ _ data _ | code _ _ data => data
  | _ => []

/-- The literal that an entry shows. -/
def literal? : Entry → Option Literal
  | literal _ _ shown => some shown
  | _ => none

/-- The line of the source, or the diagnostic, that an entry shows. -/
def remark? : Entry → Option (Bytes ⊕ Diagnostic)
  | opening _ _ _ text | continued text => some (.inl text)
  | problem d => some (.inr d)
  | _ => none

/-- **The octets of a line**, in a listing with or without colors. -/
inductive Row (color : Bool) : Entry → Bytes → Prop
  | opening {r : Record} {number : Nat}
      {data text location code addresses column : Bytes}
      (hlocation : IsLocation location) (hcode : IsCode data code)
      (haddresses : AreAddresses addresses) (hnumber : IsNumber number column) :
      Row color (.opening r number data text)
        (location ++ [0x20] ++ code ++ [0x20] ++ addresses ++ column ++
          [0x20, 0x20] ++ text ++
          [0x0A])
  | continued {text : Bytes} :
      Row color (.continued text) (List.replicate 44 0x20 ++ text ++ [0x0A])
  | code {r : Record} {offset : Nat} {data location code : Bytes}
      (hlocation : IsLocation location) (hcode : IsCode data code) :
      Row color (.code r offset data) (location ++ [0x20] ++ code ++ [0x0A])
  | literal {pool : Record} {number : Nat} {shown : Literal}
      {data location code column : Bytes} (hlocation : IsLocation location)
        (hdata : data <:+: pool.object.getD []) (hcode : IsCode data code)
        (hnumber : IsNumber number column) :
      Row color (.literal pool number shown)
        (location ++ [0x20] ++ code ++ List.replicate 15 0x20 ++ column ++
          [0x20, 0x20] ++
          shown.text ++ [0x0A])
  | problem {d : Diagnostic} (hcolor : color = false) :
      Row color (.problem d) (bytes "** " ++ d.code ++ [0x20] ++
        d.message ++ [0x0A])
  /-- With colors a control sequence stands in front of the line and one behind
  it. -/
  | colored {d : Diagnostic} {style : Bytes} (hcolor : color = true)
      (hstyle : style = bytes "[1;30m" ∨ style = bytes "[1;31m") :
      Row color (.problem d)
        (0x1B :: style ++
          (bytes "** " ++ d.code ++ [0x20] ++ d.message ++ [0x0A]) ++
          0x1B :: bytes "[0m")

/-- What is printed for an entry. -/
def print (l : Listing) : Entry → Bytes
  | opening r number data text =>
    endLine
      (locationField r ++ [blank] ++
        Bytes.padRight 16 blank (objectField r data) ++ [blank] ++
        addressField r.firstAddress ++ gap 2 ++
          addressField (secondColumn r) ++ gap 2 ++
        rightNumber 5 number ++ gap 2 ++ text)
  | continued text => endLine (gap 44 ++ text)
  | code r offset data =>
    endLine
      (hexField 6 (r.loc + Int64.ofNat offset).toInt ++ [blank] ++
        Bytes.padRight 16 blank (objectField r data))
  | literal pool number shown => literalLine pool number shown
  | problem d =>
    l.styled (if d.severity.rank < Severity.warning.rank then
      "1;30" else "1;31")
      (endLine (bytes "** " ++ d.code ++ [blank] ++ d.message))

end Entry

/-! ### Digits -/

/-- A dump is two hexadecimal digits for each octet. -/
theorem hexDump_eq (data : Bytes) : hexDump data = data.flatMap hexPair := by
  have hpair : ∀ n < 256,
      Bytes.padLeft 2 0x30 (hexUpper n) = hexPair n.toUInt8 := by
    decide +kernel
  unfold hexDump
  refine List.flatMap_congr fun b _ => ?_
  have h := hpair b.toNat b.toNat_lt
  rwa [Nat.toUInt8_eq, UInt8.ofNat_toNat] at h

/-- A digit is no blank. -/
theorem filter_blank_hexDump (data : Bytes) :
    (hexDump data).filter (· ≠ 0x20) = hexDump data := by
  have hdigits : ∀ n < 256, 0x20 ∉ hexPair n.toUInt8 := by decide +kernel
  rw [List.filter_eq_self, hexDump_eq]
  intro c hc
  obtain ⟨b, -, hc⟩ := List.mem_flatMap.mp hc
  have hb := hdigits b.toNat b.toNat_lt
  rw [Nat.toUInt8_eq, UInt8.ofNat_toNat] at hb
  exact decide_eq_true fun heq => hb (heq ▸ hc)

/-- The digits of a number in base 16 are hexadecimal digits. -/
theorem mem_hexUpper {n : Nat} {c : UInt8} (h : c ∈ hexUpper n) :
    c ∈ bytes "0123456789ABCDEF" := by
  have hdigit : ∀ d < 16,
      upperAscii (octet d.digitChar) ∈ bytes "0123456789ABCDEF" := by
    decide +kernel
  unfold hexUpper digits at h
  rw [List.map_map] at h
  induction n using Nat.strongRecOn with
  | ind n ih =>
      rcases Nat.lt_or_ge n 16 with hsmall | hlarge
      · rw [Nat.toDigits_of_lt_base hsmall, List.map_singleton,
          List.mem_singleton] at h
        exact h ▸ hdigit n hsmall
      · rw [Nat.toDigits_of_base_le (by decide) hlarge, List.map_append,
          List.mem_append] at h
        rcases h with h | h
        · exact ih (n / 16) (by omega) h
        · rw [List.map_singleton, List.mem_singleton] at h
          exact h ▸ hdigit (n % 16) (Nat.mod_lt _ (by decide))

/-! ### What stands in the columns -/

/-- A number that is filled with zeros shows a location. -/
theorem isLocation_hexField (n : Int) : IsLocation (hexField 6 n) := by
  have hmem : ∀ c ∈ bytes "0123456789ABCDEF",
      c ∈ bytes "-0123456789ABCDEF" := by
    decide +kernel
  have hfilled : ∀ width, ∀ c ∈ Bytes.padLeft width 0x30 (hexUpper n.natAbs),
      c ∈ bytes "-0123456789ABCDEF" := by
    intro width c hc
    rcases List.mem_append.mp hc with hc | hc
    · rw [(List.mem_replicate.mp hc).2]
      decide +kernel
    · exact hmem c (mem_hexUpper hc)
  refine Or.inr ?_
  unfold hexField zeroFilled
  split
  · refine ⟨by simp [Bytes.padLeft]; omega, fun c hc => ?_⟩
    rcases List.mem_cons.mp hc with rfl | hc
    · decide +kernel
    · exact hfilled _ c hc
  · exact ⟨by simp [Bytes.padLeft]; omega, hfilled 6⟩

/-- The field of a location is six hexadecimal digits or blank. -/
theorem isLocation_locationField (r : Record) :
    IsLocation (locationField r) := by
  unfold locationField
  extract_lets shown
  split
  · exact isLocation_hexField _
  · exact Or.inl rfl

/-- The code of some octets is that of the pieces into which they are cut. -/
theorem hexDump_chunks {size : Nat} (hsize : 0 < size) (data : Bytes) :
    (Deck.chunks size data).flatMap hexDump = hexDump data := by
  have hflat : (Deck.chunks size data).flatten = data :=
    Deck.flatten_chunksFrom hsize (Nat.le_refl _)
  conv_rhs => rw [← hflat, List.flatten_eq_flatMap, hexDump, List.flatMap_assoc]
  rfl

/-- Blanks between octets do not count. -/
theorem filter_blank_join (pieces : List Bytes) :
    (Bytes.join [blank] (pieces.map hexDump)).filter (· ≠ 0x20) =
      pieces.flatMap hexDump := by
  induction pieces with
  | nil => rfl
  | cons piece rest ih =>
      rw [List.flatMap_cons, ← ih, ← filter_blank_hexDump piece]
      cases rest <;> simp [Bytes.join, blank]

/-- The code of a line, without the blanks that group it. -/
theorem filter_blank_objectField (r : Record) (data : Bytes) :
    (objectField r data).filter (· ≠ 0x20) = hexDump data := by
  unfold objectField
  split
  · rw [filter_blank_join, hexDump_chunks Nat.zero_lt_two]
  · exact filter_blank_hexDump data

/-- A text whose octets other than blanks are the digits of some code shows it
in its column. -/
theorem isCode_padRight {data text : Bytes}
    (h : text.filter (· ≠ 0x20) = hexDump data) :
    IsCode data (Bytes.padRight 16 blank text) where
  wide := by simp [Bytes.padRight]; omega
  digits := by simpa [Bytes.padRight, blank, hexDump_eq] using h

/-- A number stands on the right, in decimal digits. -/
theorem isNumber_rightNumber (number : Nat) :
    IsNumber number (rightNumber 5 number) := by
  have hdecimal : decimal number =
      (Nat.toDigits 10 number).map (·.toNat.toUInt8) :=
    if_neg (Int.not_lt.mpr (Int.natCast_nonneg number))
  refine ⟨by simp [rightNumber, Bytes.padLeft]; omega,
    5 - (decimal number).length, ?_⟩
  rw [← hdecimal]
  rfl

/-- An address takes five columns. -/
theorem addressField_spec (address : Option Int64) :
    (addressField address).length = 5 ∧
      ∀ c ∈ addressField address, c ∈ bytes " 0123456789ABCDEF" := by
  have hmem : ∀ c ∈ bytes "0123456789ABCDEF",
      c ∈ bytes " 0123456789ABCDEF" := by
    decide +kernel
  cases address with
  | none => exact ⟨rfl, by decide +kernel⟩
  | some n =>
      have hlow := Int.emod_nonneg n.toInt (b := 0x100000) (by decide)
      have hhigh := Int.emod_lt_of_pos n.toInt (b := 0x100000) (by decide)
      have hdigits : (hexUpper (n.toInt % 0x100000).natAbs).length ≤ 5 := by
        unfold hexUpper digits
        rw [List.length_map, List.length_map,
          Nat.length_toDigits_le_iff (by decide) (by decide)]
        omega
      have hfield : addressField (some n) =
          Bytes.padLeft 5 0x30 (hexUpper (n.toInt % 0x100000).natAbs) :=
        if_neg (by omega)
      rw [hfield]
      refine ⟨by simp [Bytes.padLeft]; omega, fun c hc => ?_⟩
      rcases List.mem_append.mp hc with hc | hc
      · rw [(List.mem_replicate.mp hc).2]
        decide +kernel
      · exact hmem c (mem_hexUpper hc)

/-- The fields of two addresses. -/
theorem areAddresses (first second : Option Int64) :
    AreAddresses
      (addressField first ++ gap 2 ++ addressField second ++ gap 2) := by
  obtain ⟨hfirst, hdigits⟩ := addressField_spec first
  obtain ⟨hsecond, hdigits'⟩ := addressField_spec second
  have hgap : ∀ c ∈ gap 2, c ∈ bytes " 0123456789ABCDEF" := by decide +kernel
  refine ⟨by simp [hfirst, hsecond, gap], ?_⟩
  simp only [List.mem_append]
  rintro c (((hc | hc) | hc) | hc)
  · exact hdigits c hc
  · exact hgap c hc
  · exact hdigits' c hc
  · exact hgap c hc

namespace Entry

/-- The row of a literal: its place, its octets, its number and its text. -/
theorem row_literal (color : Bool) (pool : Record) (number : Nat)
    (shown : Literal) :
    Row color (.literal pool number shown) (literalLine pool number shown) := by
  unfold literalLine
  extract_lets address offset object inside data
  have hdata : data.take objectPerLine <:+: pool.object.getD [] := by
    refine (List.take_prefix _ _).isInfix.trans ?_
    unfold data
    split
    · exact (List.take_prefix _ _).isInfix.trans (List.drop_suffix _ _).isInfix
    · exact List.nil_infix
  have hrow := @Row.literal color pool number shown _ _ _ _
    (isLocation_hexField address.toInt)
    hdata (isCode_padRight (filter_blank_hexDump _))
      (isNumber_rightNumber number)
  simpa [endLine, gap, blank] using hrow

/-- The row of a diagnostic is its text, coloured or not. -/
theorem row_problem (l : Listing) (d : Diagnostic) :
    Row l.color (.problem d) (print l (.problem d)) := by
  have hmild : control "1;30" = 0x1B :: bytes "[1;30m" := by decide +kernel
  have hgrave : control "1;31" = 0x1B :: bytes "[1;31m" := by decide +kernel
  have hplain : control "0" = 0x1B :: bytes "[0m" := by decide +kernel
  simp only [print, styled, endLine]
  cases hcolor : l.color with
  | false => exact .problem rfl
  | true =>
      rw [if_pos rfl, hplain]
      split
      · exact hmild ▸ .colored rfl (Or.inl rfl)
      · exact hgrave ▸ .colored rfl (Or.inr rfl)

/-- **What is printed for an entry is its line.** -/
theorem row_print (l : Listing) (e : Entry) : Row l.color e (print l e) := by
  cases e with
  | opening r number data text =>
      have hrow := @Row.opening l.color r number data text _ _ _ _
        (isLocation_locationField r)
        (isCode_padRight (filter_blank_objectField r data))
        (areAddresses r.firstAddress (secondColumn r))
          (isNumber_rightNumber number)
      simpa [print, endLine, gap, blank] using hrow
  | continued text => exact .continued
  | code r offset data =>
      exact .code (isLocation_hexField _)
        (isCode_padRight (filter_blank_objectField r data))
  | literal pool number shown => exact row_literal l.color pool number shown
  | problem d => exact row_problem l d

end Entry

end Listing

end System370
