import System370.Proofs.DeckRoundTrip
import System370.Proofs.Labels
import System370.Proofs.SpelledNumbers

/-!
# Sequence numbers

The last eight columns of a card hold the name of its deck, at most four octets
of it, and the number of the card in as many digits as are left:
`Deck.sequence_columns`.

Behind a name that is cut the number is counted modulo the room that it has.
Any other number is written in full and then cut to the columns, which leaves
its first digits.  As long as it has room both are its remainder, and cards are
told apart by their numbers.

* `decimalField_take`: the first digits of a number are those of a quotient;
* `decimalField_inj`: numbers that have room are told apart;
* `Deck.sequenceText_take`: what the columns take of the text for them.
-/

namespace System370

/-! ### Decimal digits -/

theorem digits_of_le {n : Nat} (h : 10 ≤ n) :
    digits 10 n = digits 10 (n / 10) ++ [octet (n % 10).digitChar] := by
  unfold digits
  rw [Nat.toDigits_of_base_le (by decide) h, List.map_append]
  rfl

theorem digits_of_lt {n : Nat} (h : n < 10) :
    digits 10 n = [octet n.digitChar] := by
  unfold digits
  rw [Nat.toDigits_of_lt_base h]
  rfl

/-- How many digits a number has says below which power of ten it is. -/
theorem length_digits_le_iff {n width : Nat} (h : 0 < width) :
    (digits 10 n).length ≤ width ↔ n < 10 ^ width := by
  unfold digits
  rw [List.length_map]
  exact Nat.length_toDigits_le_iff (by decide) h

/-- **Digits spell their number.** -/
theorem positional_digits (n : Nat) :
    Numeral.positional 10 ((digits 10 n).map digitValue) = n := by
  have hdigit : ∀ d < 10, digitValue (octet d.digitChar) = d := by decide
  have hsingle : ∀ d, Numeral.positional 10 [d] = d :=
    fun _ => Nat.ofDigits_singleton
  induction n using Nat.strongRecOn with
  | ind n ih =>
      by_cases h : n < 10
      · rw [digits_of_lt h, List.map_singleton, hdigit n h, hsingle]
      · rw [digits_of_le (Nat.not_lt.mp h), List.map_append,
          Numeral.positional_append, ih (n / 10) (by omega), List.map_singleton,
          hdigit _ (by omega), hsingle, List.length_singleton]
        omega

/-- Without its last digits a number is a quotient. -/
theorem digits_div {n cut : Nat} (h : cut < (digits 10 n).length) :
    digits 10 (n / 10 ^ cut) =
      (digits 10 n).take ((digits 10 n).length - cut) := by
  induction cut with
  | zero => simp
  | succ cut ih =>
      have hrest := ih (by omega)
      have hlength : (digits 10 (n / 10 ^ cut)).length =
          (digits 10 n).length - cut := by
        rw [hrest, List.length_take]
        omega
      have hlarge : 10 ≤ n / 10 ^ cut := by
        by_contra hsmall
        rw [digits_of_lt (Nat.not_le.mp hsmall),
          List.length_singleton] at hlength
        omega
      have hsplit : digits 10 (n / 10 ^ cut) =
          digits 10 (n / 10 ^ (cut + 1)) ++
            [octet (n / 10 ^ cut % 10).digitChar] := by
        rw [Nat.pow_succ, ← Nat.div_div_eq_div_mul]
        exact digits_of_le hlarge
      have htake :=
        congrArg (List.take ((digits 10 n).length - (cut + 1))) hsplit
      have hfront : (digits 10 (n / 10 ^ (cut + 1))).length =
          (digits 10 n).length - (cut + 1) := by
        have hall := congrArg List.length hsplit
        rw [List.length_append, List.length_singleton] at hall
        omega
      rw [List.take_left' hfront, hrest, List.take_take] at htake
      rw [← htake]
      congr 1
      omega

theorem decimalField_eq (width n : Nat) :
    decimalField width n = List.replicate (width - (digits 10 n).length) 0x30 ++
      digits 10 n := rfl

/-- A number that fits fills its field. -/
theorem length_decimalField {width n : Nat} (hpos : 0 < width)
    (h : n < 10 ^ width) :
    (decimalField width n).length = width := by
  have hle := (length_digits_le_iff hpos).mpr h
  rw [decimalField_eq, List.length_append, List.length_replicate]
  omega

/-- **Numbers that have room are told apart.** -/
theorem decimalField_inj {width m n : Nat}
    (h : decimalField width m = decimalField width n) :
    m = n := by
  have hvalue : ∀ n : Nat,
      Numeral.positional 10 ((decimalField width n).map digitValue) = n := by
    intro n
    rw [decimalField_eq, List.map_append, List.map_replicate]
    exact (Numeral.positional_replicate 10 _ _).trans (positional_digits n)
  rw [← hvalue m, h, hvalue n]

/-- **A number that has no room is cut to its first digits**, which are those of
a quotient. -/
theorem decimalField_take {width : Nat} (hpos : 0 < width) (n : Nat) :
    (decimalField width n).take width =
      decimalField width (n / 10 ^ ((digits 10 n).length - width) : Nat) := by
  by_cases h : (digits 10 n).length ≤ width
  · rw [Nat.sub_eq_zero_of_le h, Nat.pow_zero, Nat.div_one,
      List.take_of_length_le]
    exact Nat.le_of_eq
      (length_decimalField hpos ((length_digits_le_iff hpos).mp h))
  · have hcut : (digits 10 n).length - ((digits 10 n).length - width) =
        width := by
      omega
    have hdigits := @digits_div n ((digits 10 n).length - width) (by omega)
    rw [hcut] at hdigits
    have hlength : ((digits 10 n).take width).length = width := by
      rw [List.length_take]
      omega
    rw [decimalField_eq, decimalField_eq, hdigits, hlength, Nat.sub_self,
      Nat.sub_eq_zero_of_le (Nat.le_of_not_le h)]
    rfl

theorem lt_of_mem_digits {n : Nat} {c : UInt8} (hc : c ∈ digits 10 n) :
    c < 0x80 := by
  have hdigit : ∀ d < 10, octet d.digitChar < 0x80 := by decide
  induction n using Nat.strongRecOn with
  | ind n ih =>
      by_cases h : n < 10
      · rw [digits_of_lt h, List.mem_singleton] at hc
        rw [hc]
        exact hdigit n h
      · rw [digits_of_le (Nat.not_lt.mp h), List.mem_append,
          List.mem_singleton] at hc
        rcases hc with hc | rfl
        · exact ih (n / 10) (by omega) hc
        · exact hdigit _ (by omega)

theorem lt_of_mem_decimalField {width n : Nat} {c : UInt8}
    (hc : c ∈ decimalField width n) :
    c < 0x80 := by
  rw [decimalField_eq] at hc
  rcases List.mem_append.mp hc with hc | hc
  · rw [(List.mem_replicate.mp hc).2]
    decide
  · exact lt_of_mem_digits hc

/-! ### Texts of seven bits on a card -/

/-- Capitals of seven bits are octets of seven bits, as many as there were. -/
theorem toUpper_ascii_spec {text : Bytes} (h : ∀ c ∈ text, c < 0x80) :
    (toUpper text).length = text.length ∧ ∀ c ∈ toUpper text, c < 0x80 := by
  have hoctet : ∀ c : UInt8,
      c < 0x80 → (if isSmall c then c - 0x20 else c) < 0x80 := by
    apply forall_octet
    decide +kernel
  rw [toUpper_ascii h]
  refine ⟨List.length_map _, ?_⟩
  intro c hc
  obtain ⟨d, hd, rfl⟩ := List.mem_map.mp hc
  exact hoctet d (h d hd)

namespace CodePage037

/-- The code page has every character of seven bits. -/
theorem encode_ascii {text : Bytes} (h : ∀ c ∈ text, c < 0x80) :
    encode text = .ok (text.map fun c => (ofCode? c.toNat).getD blank) := by
  have hoctet : ∀ c : UInt8, c < 0x80 →
      ofCode? c.toNat = some ((ofCode? c.toNat).getD blank) := by
    apply forall_octet
    decide +kernel
  unfold encode
  rw [Utf8.decode_ascii h]
  induction text with
  | nil => rfl
  | cons c rest ih =>
      have hfirst : encodeCharacter ⟨c.toNat, [c]⟩ =
          .ok ((ofCode? c.toNat).getD blank) := by
        unfold encodeCharacter
        rw [hoctet c (h c List.mem_cons_self)]
        rfl
      rw [List.map_cons, List.mapM_cons, hfirst,
        ih fun d hd => h d (List.mem_cons_of_mem _ hd)]
      rfl

/-- A field holds what it takes of a text. -/
theorem encode_take {text : Bytes} (h : ∀ c ∈ text, c < 0x80)
    {width : Nat} (hlength : width ≤ text.length) :
    encode (text.take width) = .ok (nameField width text) := by
  unfold nameField
  rw [encode_ascii h, encode_ascii fun c hc => h c (List.mem_of_mem_take hc)]
  simp only
  unfold Bytes.fit
  rw [List.take_append_of_le_length (by simpa using hlength), List.map_take]

end CodePage037

namespace Deck

/-! ### The cards of an emitter -/

/-- The sequence field is in columns 73 to 80. -/
theorem Card.columns_sequence (c : Card) (sequence : Bytes) :
    columns 72 80 (c.octets sequence) = CodePage037.nameField 8 sequence := by
  unfold octets
  exact columns_back (by simp [blanks, textSize]) (by simp)

/-- Cards are numbered from the one behind. -/
theorem getElem?_punch (deck : Bytes) (number : Nat)
    (cards : List Card) (i : Nat) :
    (Emitter.punch deck number cards)[i]? =
      cards[i]?.map fun c => c.octets (sequenceText deck (number + i + 1)) := by
  induction cards generalizing number i with
  | nil => rfl
  | cons c rest ih =>
      cases i with
      | zero => rfl
      | succ i =>
          have hnumber : number + 1 + i + 1 = number + (i + 1) + 1 := by omega
          rw [Emitter.punch, List.getElem?_cons_succ, List.getElem?_cons_succ,
            ih, hnumber]

/-- The number that the sequence columns show behind a name of some octets: a
remainder behind a name that is cut, and otherwise what is left of the number
without the last digits that have no room. -/
def sequenceNumber (size number : Nat) : Nat :=
  if 4 < size then number % 10 ^ 4 else
    number / 10 ^ ((digits 10 number).length - (8 - size))

/-- As long as there is room the number is its remainder. -/
theorem sequenceNumber_eq {size number : Nat}
    (h : 4 < size ∨ number < 10 ^ (8 - min 4 size)) :
    sequenceNumber size number = number % 10 ^ (8 - min 4 size) := by
  unfold sequenceNumber
  by_cases hsize : 4 < size
  · rw [if_pos hsize, Nat.min_eq_left (Nat.le_of_lt hsize)]
  · rw [Nat.min_eq_right (Nat.not_lt.mp hsize)] at h ⊢
    have hroom := h.resolve_left hsize
    have hlength := (length_digits_le_iff (by omega)).mpr hroom
    rw [if_neg hsize, Nat.sub_eq_zero_of_le hlength, Nat.pow_zero, Nat.div_one,
      Nat.mod_eq_of_lt hroom]

/-- **What the columns take of the text for them**: four octets of the name, and
the number that they show. -/
theorem sequenceText_take (deck : Bytes) (number : Nat) :
    8 ≤ (sequenceText deck number).length ∧
      (sequenceText deck number).take 8 =
        deck.take 4 ++ decimalField (8 - min 4 deck.length)
          (sequenceNumber deck.length number) := by
  unfold sequenceText sequenceNumber
  by_cases hsize : 4 < deck.length
  · have hname : (deck.take 4).length = 4 :=
      List.length_take_of_le (Nat.le_of_lt hsize)
    have hnumber : (decimalField 4 (number % 10000 : Nat)).length = 4 :=
      length_decimalField (by decide) (Nat.mod_lt _ (by decide))
    rw [if_pos hsize, if_pos hsize, Nat.min_eq_left (Nat.le_of_lt hsize)]
    have hlength :
        (deck.take 4 ++ decimalField 4 (number % 10000 : Nat)).length = 8 := by
      rw [List.length_append, hname, hnumber]
    exact ⟨Nat.le_of_eq hlength.symm,
      List.take_of_length_le (Nat.le_of_eq hlength)⟩
  · have hshort := Nat.not_lt.mp hsize
    rw [if_neg hsize, if_neg hsize, Nat.min_eq_right hshort,
      List.take_of_length_le hshort]
    constructor
    · rw [decimalField_eq, List.length_append, List.length_append,
        List.length_replicate]
      omega
    · rw [List.take_append, List.take_of_length_le (by omega),
        decimalField_take (by omega)]

/-- The text in the sequence columns of a card. -/
theorem encode_sequence {deckId : Bytes} (h : ∀ c ∈ deckId, c < 0x80)
    {items : List Item} {i : Nat}
    {card : Bytes} (hcard : ((Emitter.new deckId).run items)[i]? = some card) :
    CodePage037.encode
      ((toUpper deckId).take 4 ++
        decimalField (8 - min 4 deckId.length)
          (sequenceNumber deckId.length (i + 1))) =
      .ok (columns 72 80 card) := by
  obtain ⟨hsize, hupper⟩ := toUpper_ascii_spec h
  obtain ⟨hlength, htake⟩ := sequenceText_take (toUpper deckId) (i + 1)
  rw [Emitter.run_eq, getElem?_punch] at hcard
  obtain ⟨c, -, rfl⟩ := Option.map_eq_some_iff.mp hcard
  have hnumber : (Emitter.new deckId).cards + i + 1 = i + 1 := by
    rw [Nat.add_assoc]
    exact Nat.zero_add _
  have htext : ∀ c ∈ sequenceText (toUpper deckId) (i + 1), c < 0x80 := by
    intro c hc
    unfold sequenceText at hc
    split at hc
    · rcases List.mem_append.mp hc with hc | hc
      · exact hupper c (List.mem_of_mem_take hc)
      · exact lt_of_mem_decimalField hc
    · rcases List.mem_append.mp hc with hc | hc
      · exact hupper c hc
      · exact lt_of_mem_decimalField hc
  rw [hsize] at htake
  rw [Card.columns_sequence, hnumber, ← htake]
  exact CodePage037.encode_take htext hlength

/-- Two cards have the same sequence columns exactly if they show the same
number. -/
theorem columns_sequence_eq_iff {deckId : Bytes} (h : ∀ c ∈ deckId, c < 0x80)
    {items : List Item} {i j : Nat} {card other : Bytes}
    (hcard : ((Emitter.new deckId).run items)[i]? = some card)
    (hother : ((Emitter.new deckId).run items)[j]? = some other) :
    columns 72 80 card = columns 72 80 other ↔
      sequenceNumber deckId.length (i + 1) = sequenceNumber deckId.length
        (j + 1) := by
  have hi := encode_sequence h hcard
  have hj := encode_sequence h hother
  constructor
  · intro heq
    rw [heq] at hi
    have htext :=
      (CodePage037.decode_encode hi).symm.trans (CodePage037.decode_encode hj)
    exact decimalField_inj (List.append_cancel_left htext)
  · intro heq
    rw [heq, hj] at hi
    exact (Except.ok.inj hi).symm

/-- Numbers that have room and are not too far apart have different
remainders. -/
theorem sequenceNumber_ne {size i j : Nat} (hlt : i < j)
    (hnear : j < i + 10 ^ (8 - min 4 size))
    (hroom : 4 < size ∨ j < 10 ^ (8 - min 4 size)) :
    sequenceNumber size i ≠ sequenceNumber size j := by
  rw [sequenceNumber_eq (hroom.imp_right (Nat.lt_trans hlt)),
    sequenceNumber_eq hroom]
  intro heq
  have hdvd := (Nat.modEq_iff_dvd' (Nat.le_of_lt hlt)).mp heq
  have hle := Nat.le_of_dvd (by omega) hdvd
  omega

/-- **The sequence columns of a deck.**  Card by card they hold the first four
octets of the deck's name in capitals and the number that is shown behind it.
While there is room for the number, that is its remainder, one more on each
card, and cards that are not too far apart are told apart. -/
theorem sequence_columns {deckId : Bytes} (h : ∀ c ∈ deckId, c < 0x80)
    (items : List Item) :
    let cards := (Emitter.new deckId).run items
    let width := 8 - min 4 deckId.length
    (∀ i card, cards[i]? = some card →
      CodePage037.encode ((toUpper deckId).take 4 ++
          decimalField width (sequenceNumber deckId.length (i + 1))) =
            .ok (columns 72 80 card)) ∧
    (∀ n, 4 < deckId.length ∨ n + 1 < 10 ^ width →
      sequenceNumber deckId.length (n + 1) = (n + 1) % 10 ^ width ∧
        sequenceNumber deckId.length (n + 1) =
          (sequenceNumber deckId.length n + 1) % 10 ^ width) ∧
    (∀ i card j other, cards[i]? = some card → cards[j]? = some other →
      (columns 72 80 card = columns 72 80 other ↔
        sequenceNumber deckId.length (i + 1) = sequenceNumber
          deckId.length (j + 1))) ∧
    ∀ i card j other, cards[i]? = some card → cards[j]? = some other →
      i < j → j < i + 10 ^ width → 4 < deckId.length ∨ j + 1 < 10 ^ width →
      columns 72 80 card ≠ columns 72 80 other := by
  refine ⟨fun i card => encode_sequence h, ?_,
    fun i card j other => columns_sequence_eq_iff h, ?_⟩
  · intro n hroom
    have hnext := sequenceNumber_eq hroom
    refine ⟨hnext, ?_⟩
    rw [hnext, sequenceNumber_eq (hroom.imp_right (Nat.lt_of_succ_lt)),
      Nat.mod_add_mod]
  · intro i card j other hcard hother hlt hnear hroom heq
    have hsame := (columns_sequence_eq_iff h hcard hother).mp heq
    exact sequenceNumber_ne (by omega) (by omega) hroom hsame

/-- A name of four octets leaves four columns, and the card numbered 10000 shows
its first digits and not its last ones. -/
theorem sequence_columns_four :
    (∀ c ∈ bytes "test", c < 0x80) ∧
    (∃ card, ((Emitter.new (bytes "test")).run [.ending {}])[0]? = some card ∧
      CodePage037.encode (bytes "TEST0001") = .ok (columns 72 80 card)) ∧
    sequenceNumber (bytes "test").length 9999 = 9999 % 10 ^ 4 ∧
    sequenceNumber (bytes "test").length 10000 = 1000 ∧ 10000 % 10 ^ 4 = 0 := by
  have hascii : ∀ c ∈ bytes "test", c < 0x80 := by decide +kernel
  obtain ⟨hcolumns, hnumber, -, -⟩ := sequence_columns hascii [.ending {}]
  have htext :
      (toUpper (bytes "test")).take 4 ++ decimalField 4 (sequenceNumber 4 1) =
      bytes "TEST0001" := by
    decide +kernel
  refine ⟨hascii, ?_,
    (hnumber 9998 (by decide)).1, by decide +kernel, by decide⟩
  obtain ⟨card, hcard⟩ : ∃ card,
      ((Emitter.new (bytes "test")).run [.ending {}])[0]? = some card :=
    ⟨_, rfl⟩
  exact ⟨card, hcard, htext ▸ hcolumns 0 card hcard⟩

end Deck

end System370
