import System370.Proofs.DeckRoundTrip

/-!
# Decks of any contents

A reader of decks does not know who punched them.  Whatever the octets, it takes
them apart without looking beyond a card, and what it accepts as text or as
relocations it reads again from a deck of its own: `Deck.reading_safe_stable`.

* `Deck.readCards_spec`: the complete cards of a deck, and what is said of the
  rest;
* `Deck.decode?_eq`: no card of 80 octets is read beyond its columns;
* `Deck.Accepted.text`, `Deck.Accepted.relocations`: what a card can hold is in
  the range of the fields it is written into;
* `Deck.Emitter.reads_again`: items of accepted cards come back from an emitter.
-/

namespace System370

namespace Deck

open CodePage037

/-! ### Complete cards -/

/-- The complete pieces of some octets have their size, and make up the
front. -/
theorem take_chunksFrom {size : Nat} (hpos : 0 < size) {fuel whole : Nat}
    {data : Bytes} (hwhole : whole * size ≤ data.length)
    (hfuel : data.length ≤ fuel) :
    ((chunksFrom size fuel data).take whole).length = whole ∧
      (∀ piece ∈ (chunksFrom size fuel data).take whole, piece.length = size) ∧
      ((chunksFrom size fuel data).take whole).flatten = data.take
        (whole * size) := by
  induction whole generalizing fuel data with
  | zero => simp
  | succ whole ih =>
      rw [Nat.succ_mul] at hwhole
      cases data with
      | nil =>
          rw [List.length_nil] at hwhole
          omega
      | cons b rest =>
          cases fuel with
          | zero => simp at hfuel
          | succ fuel =>
              have hdrop : ((b :: rest).drop size).length =
                  (b :: rest).length - size :=
                List.length_drop
              obtain ⟨hlength, hsize, hflatten⟩ :=
                @ih fuel ((b :: rest).drop size) (by omega) (by omega)
              rw [chunksFrom, List.take_succ_cons]
              · refine ⟨by rw [List.length_cons, hlength], ?_, ?_⟩
                · intro piece hpiece
                  rcases List.mem_cons.mp hpiece with rfl | hpiece
                  · rw [List.length_take]
                    omega
                  · exact hsize piece hpiece
                · rw [List.flatten_cons, hflatten, Nat.succ_mul, Nat.add_comm,
                    List.take_add]
              · simp

/-- **A deck is cut into its complete cards.**  Whatever is left over is refused
under the number behind them. -/
theorem readCards_spec (deck : Bytes) :
    (readCards deck).1.length = deck.length / cardSize ∧
      (∀ card ∈ (readCards deck).1, card.length = cardSize) ∧
      (readCards deck).1.flatten = deck.take
        (deck.length / cardSize * cardSize) ∧
      (readCards deck).2 =
        if deck.length % cardSize = 0 then none
        else some
          ⟨(readCards deck).1.length, .short (deck.length % cardSize)⟩ := by
  obtain ⟨hlength, hsize, hflatten⟩ :=
    take_chunksFrom (by decide : 0 < cardSize)
      (Nat.div_mul_le_self deck.length cardSize) (Nat.le_refl deck.length)
  refine ⟨hlength, hsize, hflatten, ?_⟩
  have hcards : (readCards deck).1.length = deck.length / cardSize := hlength
  rw [hcards]
  rfl

/-! ### Columns that a card has -/

/-- The columns from `start` to `stop`, if the card has them. -/
def columns? (start stop : Nat) (card : Bytes) : Option Bytes :=
  if start ≤ stop ∧ stop ≤ card.length then
    some (columns start stop card) else none

/-- Columns that a card has are read. -/
theorem columns?_eq {start stop : Nat} {card : Bytes}
    (hstart : start ≤ stop) (hstop : stop ≤ card.length) :
    columns? start stop card = some (columns start stop card) :=
  if_pos ⟨hstart, hstop⟩

/-- An external symbol, read only from columns that the item has. -/
def readSymbol? (id : Nat) (item : Bytes) : Option Symbol := do
  let name ← columns? 0 8 item
  let type ← item[8]?
  let address ← columns? 9 12 item
  let named : Symbol :=
    { name := readName name, type := ⟨type⟩
      address := Int64.ofNat (readNumber address) }
  if named.type = .entry then
    let owner ← columns? 14 16 item
    some { named with owner := readNumber owner }
  else if named.type.isExternal then some { named with id }
  else
    let length ← columns? 13 16 item
    let flags ← item[12]?
    let (addressingMode, residenceMode) := readModes flags
    some { named with
      id, addressingMode, residenceMode
      length := Int64.ofNat (readNumber length) }

/-- As many external symbols as a card announces, the first one in the columns
from `start` on. -/
def readSymbols? (card : Bytes) (id start : Nat) : Nat → Option (List Symbol)
  | 0 => some []
  | count + 1 => do
    let item ← columns? start (start + symbolSize) card
    let s ← readSymbol? id item
    let more ←
      readSymbols? card (if s.type = .entry then id else
        id + 1) (start + symbolSize) count
    some (s :: more)

/-- The numbers of a relocation and the octets from its flags on, `some none`
where these are too few. -/
def relocationHead? (pointers : Option (Nat × Nat)) (data : Bytes) :
    Option (Option ((Nat × Nat) × Bytes)) :=
  match pointers with
  | none =>
    if data.length < 8 then some none
    else do
      let target ← columns? 0 2 data
      let position ← columns? 2 4 data
      let item ← columns? 4 data.length data
      some (some ((Field.get target, Field.get position), item))
  | some known => if data.length < 4 then some none else
    some (some (known, data))

/-- Relocations, read only from octets that there are; `some none` is a
truncated one. -/
def readRelocations? (pointers : Option (Nat × Nat)) :
    Nat → Bytes → Option (Option (List Relocation))
  | 0, _ => some (some [])
  | _, [] => some (some [])
  | fuel + 1, data =>
    match relocationHead? pointers data with
    | none => none
    | some none => some none
    | some (some ((target, position), item)) => do
      let flags ← item[0]?
      let address ← columns? 1 4 item
      let rest ← columns? 4 item.length item
      let next := if flags &&& 1 = 0 then none else some (target, position)
      let more ← readRelocations? next fuel rest
      some (more.map (readRelocation target position flags address :: ·))

/-- The identification in some columns, if they are long enough. -/
def readIdentification? (item : Bytes) : Option Identification := do
  let translator ← columns? 0 10 item
  let version ← columns? 10 14 item
  let date ← columns? 14 19 item
  some ⟨readName translator, readName version, readName date⟩

/-- Some identifications from the columns from `start` on. -/
def readIdentifications? (card : Bytes) (start : Nat) :
    Nat → Option (List Identification)
  | 0 => some []
  | count + 1 => do
    let item ← columns? start (start + 19) card
    let i ← readIdentification? item
    let more ← readIdentifications? card (start + 19) count
    some (i :: more)

/-- The end item of a card that has its columns. -/
def readEnd? (card : Bytes) : Option End := do
  let address ← columns? 5 8 card
  let id ← columns? 14 16 card
  let name ← columns? 16 24 card
  let length ← columns? 28 32 card
  let count ← columns? 32 33 card
  let identifications ← readIdentifications? card 33
      (min (readCount count) identificationsPerCard)
  some
    { hasEntry := readNumber id ≠ 0 ∨ readName name ≠ []
      address := Int64.ofNat (readNumber address)
      sectionId := readNumber id
      name := readName name
      length := Int64.ofNat (readNumber length)
      identifications }

/-- The contents of a card of some kind, read only from columns that it has. -/
def readContent? (kind card : Bytes) : Option (Except Problem Content) := do
  let number ← columns? 10 12 card
  let count := readNumber number
  if kind = bytes "ESD" then
    if count % symbolSize ≠ 0 ∨ symbolsPerCard * symbolSize < count then
      some (.error (.badCount kind))
    else
      let id ← columns? 14 16 card
      let items ← readSymbols? card (readNumber id) 16 (count / symbolSize)
      some (.ok (.symbols items))
  else if kind = bytes "TXT" then
    if textSize < count then some (.error (.badCount kind))
    else
      let id ← columns? 14 16 card
      let address ← columns? 5 8 card
      let data ← columns? 16 (16 + count) card
      some (.ok (.text
        { sectionId := readNumber id
          address := Int64.ofNat (readNumber address), data }))
  else if kind = bytes "RLD" then
    if textSize < count then some (.error (.badCount kind))
    else
      let data ← columns? 16 (16 + count) card
      let read ← readRelocations? none count data
      match read with
      | some items => some (.ok (.relocations items))
      | none => some (.error .truncatedRelocation)
  else if kind = bytes "END" then
    let item ← readEnd? card
    some (.ok (.ending item))
  else some (.error (.unknownKind kind))

/-- Takes a card apart and looks only at columns that it has: there is no result
where one is missing. -/
def decode? (index : Nat) (card : Bytes) :
    Option (Except InvalidCard Decoded) := do
  let mark ← card[0]?
  if mark ≠ marker then some (.error ⟨index, .missingMarker⟩)
  else
    let kind ← columns? 1 4 card
    let sequence ← columns? 72 80 card
    let read ← readContent? (readName kind) card
    match read with
    | .ok content => some (.ok ⟨readName kind, readName sequence, content⟩)
    | .error problem => some (.error ⟨index, problem⟩)

theorem getElem?_eq_getD {item : Bytes} {i : Nat} (h : i < item.length) :
    item[i]? = some (item.getD i 0) := by
  rw [List.getD_eq_getElem?_getD, List.getElem?_eq_getElem h]
  rfl

/-- A symbol is read without leaving its octets. -/
theorem readSymbol?_eq (id : Nat) {item : Bytes}
    (h : item.length = symbolSize) :
    readSymbol? id item = some (readSymbol id item) := by
  unfold symbolSize at h
  unfold readSymbol? readSymbol
  rw [columns?_eq (by decide) (by omega),
    getElem?_eq_getD (by omega : 8 < item.length),
    columns?_eq (by decide) (by omega), columns?_eq (by decide) (by omega),
    columns?_eq (by decide) (by omega),
    getElem?_eq_getD (by omega : 12 < item.length)]
  simp only [Option.bind_eq_bind, Option.bind_some]
  split
  · rfl
  · split <;> rfl

theorem length_columns {start stop : Nat} {card : Bytes}
    (h : stop ≤ card.length) :
    (columns start stop card).length = stop - start := by
  unfold columns
  rw [List.length_take, List.length_drop]
  omega

/-- The first of some columns. -/
theorem take_columns {start size stop : Nat} (h : size ≤ stop - start)
    (card : Bytes) :
    (columns start stop card).take size =
      columns start (start + size) card := by
  unfold columns
  rw [List.take_take, Nat.min_eq_left h, Nat.add_sub_cancel_left]

/-- The last of some columns. -/
theorem drop_columns (start size stop : Nat) (card : Bytes) :
    (columns start stop card).drop size = columns (start + size) stop card := by
  unfold columns
  rw [List.drop_take, List.drop_drop, Nat.sub_sub]

/-- The pieces do not depend on the fuel. -/
theorem chunksFrom_eq {size : Nat} (hpos : 0 < size) {fuel more : Nat}
    {data : Bytes} (hfuel : data.length ≤ fuel) (hmore : data.length ≤ more) :
    chunksFrom size fuel data = chunksFrom size more data := by
  induction fuel generalizing more data with
  | zero =>
      rw [List.length_eq_zero_iff.mp (Nat.le_zero.mp hfuel)]
      cases more <;> rfl
  | succ fuel ih =>
      cases data with
      | nil => cases more <;> rfl
      | cons b rest =>
          cases more with
          | zero => simp at hmore
          | succ more =>
              have hdrop : ((b :: rest).drop size).length =
                  (b :: rest).length - size :=
                List.length_drop
              have hrest :=
                @ih more ((b :: rest).drop size) (by omega) (by omega)
              rw [chunksFrom, chunksFrom, hrest] <;> simp

/-- Octets are cut into pieces from the front. -/
theorem chunks_eq_cons {size : Nat} (hpos : 0 < size) {data : Bytes}
    (h : data ≠ []) :
    chunks size data = data.take size :: chunks size (data.drop size) := by
  obtain ⟨b, rest, rfl⟩ := List.exists_cons_of_ne_nil h
  have hdrop : ((b :: rest).drop size).length ≤ rest.length := by
    rw [List.length_drop, List.length_cons]
    omega
  unfold chunks
  rw [List.length_cons, chunksFrom, chunksFrom_eq hpos hdrop (Nat.le_refl _)]
  simp

/-- The symbols of a card are read from its columns. -/
theorem readSymbols?_eq {card : Bytes} {start stop count : Nat}
    (hstop : start + count * symbolSize = stop) (h : stop ≤ card.length)
    (id : Nat) :
    readSymbols? card id start count =
      some (readSymbols id (chunks symbolSize (columns start stop card))) := by
  induction count generalizing id start with
  | zero =>
      simp [readSymbols?, columns, chunks, chunksFrom, readSymbols, ← hstop]
  | succ count ih =>
      rw [Nat.succ_mul] at hstop
      have hpos : 0 < symbolSize := by decide
      have hitem : (columns start (start + symbolSize) card).length =
          symbolSize := by
        rw [length_columns (by omega), Nat.add_sub_cancel_left]
      have hne : columns start stop card ≠ [] := by
        rw [ne_eq, ← List.length_eq_zero_iff, length_columns h]
        omega
      rw [readSymbols?, columns?_eq (by omega) (by omega),
        chunks_eq_cons hpos hne, take_columns (by omega), drop_columns]
      simp only [Option.bind_eq_bind, Option.bind_some]
      rw [readSymbol?_eq id hitem]
      simp only [Option.bind_some]
      rw [ih (by omega)]
      rfl

/-- The octets of a relocation from its flags on, all of which are there. -/
theorem relocationItem?_eq (f a b c : UInt8) (rest : Bytes) :
    (f :: a :: b :: c :: rest)[0]? = some f ∧
      columns? 1 4 (f :: a :: b :: c :: rest) = some [a, b, c] ∧
      columns? 4 (f :: a :: b :: c :: rest).length (f :: a :: b :: c :: rest) =
        some rest := by
  refine ⟨rfl, ?_, ?_⟩
  · rw [columns?_eq (by decide) (by simp)]
    rfl
  · rw [columns?_eq (by simp) (Nat.le_refl _), columns]
    simp

/-- **The length of a relocation is looked at before its octets are.** -/
theorem readRelocations?_eq (pointers : Option (Nat × Nat)) (fuel : Nat)
    (data : Bytes) :
    readRelocations? pointers fuel data =
      some (readRelocations pointers fuel data) := by
  induction fuel generalizing pointers data with
  | zero => rfl
  | succ fuel ih =>
      cases pointers with
      | some known =>
          match data with
          | [] | [_] | [_, _] | [_, _, _] => rfl
          | f :: a :: b :: c :: rest =>
              obtain ⟨hflags, haddress, hrest⟩ :=
                relocationItem?_eq f a b c rest
              have hhead :
                  relocationHead? (some known) (f :: a :: b :: c :: rest) =
                  some (some (known, f :: a :: b :: c :: rest)) := by
                unfold relocationHead?
                exact if_neg (by simp)
              rw [readRelocations?, hhead]
              · simp only [Option.bind_eq_bind, hflags, haddress, hrest,
                  Option.bind_some, ih]
                rfl
              · simp
      | none =>
          match data with
          | [] | [_] | [_, _] | [_, _, _] | [_, _, _, _] | [_, _, _, _, _] | [_,
            _, _, _, _, _]
          | [_, _, _, _, _, _, _] => rfl
          | t :: t' :: p :: p' :: f :: a :: b :: c :: rest =>
              obtain ⟨hflags, haddress, hrest⟩ :=
                relocationItem?_eq f a b c rest
              have hhead : relocationHead? none
                  (t :: t' :: p :: p' :: f :: a :: b :: c :: rest) =
                  some (some ((Field.get [t, t'], Field.get [p, p']),
                    f :: a :: b :: c :: rest)) := by
                unfold relocationHead?
                rw [if_neg (by simp), columns?_eq (by decide) (by simp),
                  columns?_eq (by decide) (by simp),
                  columns?_eq (by simp) (Nat.le_refl _)]
                simp [columns]
              rw [readRelocations?, hhead]
              · simp only [Option.bind_eq_bind, hflags, haddress, hrest,
                  Option.bind_some, ih]
                rfl
              · simp

/-- A processor is read without leaving its octets. -/
theorem readIdentification?_eq {item : Bytes} (h : item.length = 19) :
    readIdentification? item = some (readIdentification item) := by
  unfold readIdentification? readIdentification
  rw [columns?_eq (by decide) (by omega), columns?_eq (by decide) (by omega),
    columns?_eq (by decide) (by omega)]
  rfl

/-- The identifications that a card announces, at most two. -/
theorem readIdentifications?_eq {card : Bytes} (h : card.length = cardSize)
    (count : Nat) :
    readIdentifications? card 33 (min count identificationsPerCard) =
      some (([columns 33 52 card, columns 52 71 card].take count).map
        readIdentification) := by
  unfold cardSize at h
  have hfirst : readIdentification? (columns 33 52 card) =
      some (readIdentification (columns 33 52 card)) :=
    readIdentification?_eq (length_columns (by omega))
  have hsecond : readIdentification? (columns 52 71 card) =
      some (readIdentification (columns 52 71 card)) :=
    readIdentification?_eq (length_columns (by omega))
  have hcolumns : columns? 33 52 card = some (columns 33 52 card) :=
    columns?_eq (by decide) (by omega)
  have hcolumns' : columns? 52 71 card = some (columns 52 71 card) :=
    columns?_eq (by decide) (by omega)
  unfold identificationsPerCard
  match count with
  | 0 => rfl
  | 1 => simp [readIdentifications?, hcolumns, hfirst]
  | count + 2 =>
      rw [Nat.min_eq_right (by omega)]
      simp [readIdentifications?, hcolumns, hcolumns', hfirst, hsecond]

/-- An `END` card is read without leaving its 80 columns. -/
theorem readEnd?_eq {card : Bytes} (h : card.length = cardSize) :
    readEnd? card = some (readEnd card) := by
  have hsize : card.length = 80 := h
  unfold readEnd? readEnd
  rw [columns?_eq (by decide) (by omega), columns?_eq (by decide) (by omega),
    columns?_eq (by decide) (by omega), columns?_eq (by decide) (by omega),
    columns?_eq (by decide) (by omega)]
  simp only [Option.bind_eq_bind, Option.bind_some, readIdentifications?_eq h]

/-- **No card** is read beyond its 80 columns, whatever its kind. -/
theorem readContent?_eq (kind : Bytes) {card : Bytes}
    (h : card.length = cardSize) :
    readContent? kind card = some (readContent kind card) := by
  have hsize : card.length = 80 := h
  have hcolumns : ∀ {start stop : Nat}, start ≤ stop → stop ≤ 80 →
      columns? start stop card = some (columns start stop card) :=
    fun hstart hstop => columns?_eq hstart (by omega)
  unfold readContent? readContent
  simp only [hcolumns (by decide : 10 ≤ 12) (by decide),
    hcolumns (by decide : 14 ≤ 16) (by decide),
    hcolumns (by decide : 5 ≤ 8) (by decide), Option.bind_eq_bind,
    Option.bind_some, readEnd?_eq h, readRelocations?_eq]
  -- a count is looked at before the columns that it announces are
  split
  · split
    · rfl
    · rename_i hcount
      unfold symbolsPerCard symbolSize at hcount
      rw [@readSymbols?_eq card _ (16 + readNumber (columns 10 12 card))]
      · rfl
      · unfold symbolSize
        omega
      · omega
  · split
    · split
      · rfl
      · rename_i hcount
        unfold textSize at hcount
        rw [hcolumns (by omega) (by omega)]
        rfl
    · split
      · split
        · rfl
        · rename_i hcount
          unfold textSize at hcount
          rw [hcolumns (by omega) (by omega)]
          simp only [Option.bind_some]
          cases readRelocations none (readNumber (columns 10 12 card))
            (columns 16 (16 + readNumber (columns 10 12 card)) card) <;> rfl
      · split <;> rfl

/-- **No card is read beyond its columns.** -/
theorem decode?_eq (index : Nat) {card : Bytes} (h : card.length = cardSize) :
    decode? index card = some (decode index card) := by
  have hsize : card.length = 80 := h
  obtain ⟨mark, rest, rfl⟩ : ∃ mark rest, card = mark :: rest :=
    List.exists_cons_of_length_pos (by omega)
  unfold decode? decode
  rw [columns?_eq (by decide) (by omega), columns?_eq (by decide) (by omega)]
  simp only [List.getElem?_cons_zero, List.head?_cons, Option.bind_eq_bind,
    Option.bind_some, readContent?_eq _ h, ne_eq, Option.some.injEq]
  split
  · rfl
  · cases readContent (readName (columns 1 4 (mark :: rest))) (mark :: rest) <;>
      rfl

/-- A card that is refused is named by its position. -/
theorem index_of_decode {index : Nat} {card : Bytes} {e : InvalidCard}
    (h : decode index card = .error e) : e.index = index := by
  unfold decode at h
  split at h
  · rw [← Except.error.inj h]
  · simp only at h
    split at h
    · contradiction
    · rw [← Except.error.inj h]

/-! ### What a card can hold -/

/-- What was read from a field comes back from it. -/
theorem legible_readBack {width : Nat} (hpos : 0 < width) (n : Int) :
    Legible width (readBack width n) := by
  have hwidth : (0 : Int) < 256 ^ width := by positivity
  have hlow := Int.emod_nonneg n (ne_of_gt hwidth)
  have hhigh := Int.emod_lt_of_pos n hwidth
  have hblank := blankNumber_pos hpos
  unfold readBack Legible
  split
  · exact ⟨Int.natCast_nonneg 0, hwidth, by omega⟩
  · rename_i hnumber
    rw [Int.toNat_of_nonneg hlow]
    exact ⟨hlow, hhigh, hnumber⟩

/-- **A number that was read is never the one that is written as blanks.** -/
theorem legible_readNumber {width : Nat} (hpos : 0 < width) {field : Bytes}
    (h : field.length = width) : Legible width (readNumber field) := by
  have hread := readNumber_put field.length (Field.get field)
  rw [Field.put_get] at hread
  rw [hread, h]
  exact legible_readBack hpos _

/-- A number of up to seven octets is positive. -/
theorem toInt_ofNat_of_lt_pow {width n : Nat} (hsmall : width ≤ 7)
    (h : (n : Int) < 256 ^ width) :
    (Int64.ofNat n).toInt = n := by
  have hpow : (256 : Int) ^ width ≤ 256 ^ 7 :=
    pow_le_pow_right₀ (by decide) hsmall
  rw [Int64.toInt_ofNat_of_lt]
  omega

/-- What some card of 80 octets reads as, wherever it stands in a deck. -/
def Accepted (content : Content) : Prop :=
  ∃ index card d, card.length = cardSize ∧ decode index card = .ok d ∧
    d.content = content

/-- What is accepted was read from some card. -/
theorem Accepted.read {content : Content} (h : Accepted content) :
    ∃ kind card, card.length = cardSize ∧
      readContent kind card = .ok content := by
  obtain ⟨index, card, d, hsize, hd, rfl⟩ := h
  unfold decode at hd
  split at hd
  · contradiction
  · simp only at hd
    split at hd
    · rename_i content hread
      obtain rfl := Except.ok.inj hd
      exact ⟨_, card, hsize, hread⟩
    · contradiction

/-- What a card is read as, by its kind. -/
theorem readContent_ok {kind card : Bytes} {content : Content}
    (h : readContent kind card = .ok content) :
    (∃ items, content = .symbols items) ∨
      (readNumber (columns 10 12 card) ≤ textSize ∧
        content = .text
          { sectionId := readNumber (columns 14 16 card)
            address := Int64.ofNat (readNumber (columns 5 8 card))
            data := columns 16 (16 + readNumber (columns 10 12 card)) card }) ∨
      (∃ items fuel data, readRelocations none fuel data = some items ∧
        content = .relocations items) ∨
      content = .ending (readEnd card) := by
  unfold readContent at h
  simp only at h
  split at h
  · split at h
    · contradiction
    · exact .inl ⟨_, (Except.ok.inj h).symm⟩
  · split at h
    · split at h
      · contradiction
      · rename_i hcount
        exact .inr (.inl ⟨Nat.not_lt.mp hcount, (Except.ok.inj h).symm⟩)
    · split at h
      · split at h
        · contradiction
        · split at h
          · rename_i items hread
            exact .inr
              (.inr (.inl ⟨items, _, _, hread, (Except.ok.inj h).symm⟩))
          · contradiction
      · split at h
        · exact .inr (.inr (.inr (Except.ok.inj h).symm))
        · contradiction

/-- **The text of a card fits a card again**, and its numbers come back. -/
theorem Accepted.text {t : Text} (h : Accepted (.text t)) :
    t.data.length ≤ textSize ∧ t.Legible := by
  obtain ⟨kind, card, hsize, hread⟩ := h.read
  have hcard : card.length = 80 := hsize
  obtain ⟨_, h⟩ | ⟨hcount, h⟩ | ⟨_, _, _, _, h⟩ | h := readContent_ok hread
  · contradiction
  · obtain rfl := Content.text.inj h
    have haddress : Legible 3 (readNumber (columns 5 8 card)) :=
      legible_readNumber (by decide) (length_columns (by omega))
    refine ⟨?_,
      ⟨legible_readNumber (by decide) (length_columns (by omega)), ?_⟩⟩
    · unfold textSize at hcount ⊢
      rw [length_columns (by omega)]
      omega
    · simp only
      rw [toInt_ofNat_of_lt_pow (by decide) haddress.2.1]
      exact haddress
  · contradiction
  · contradiction

/-- A relocation of some columns is in the range of its fields. -/
theorem readRelocation_inFields {target position : Nat}
    (htarget : target < 256 ^ 2) (hposition : position < 256 ^ 2)
    (flags : UInt8) {address : Bytes} (h : address.length = 3) :
    (readRelocation target position flags address).InFields ∧
      1 ≤ (readRelocation target position flags address).length ∧
      (readRelocation target position flags address).length ≤ 4 := by
  have hlt := Field.get_lt address
  rw [h] at hlt
  have haddress : (Int64.ofNat (Field.get address)).toInt = Field.get address :=
    toInt_ofNat_of_lt_pow (by decide : 3 ≤ 7) (by exact_mod_cast hlt)
  unfold readRelocation
  refine ⟨⟨?_, ?_, ?_⟩, ?_, ?_⟩
  · simp only
    omega
  · simp only
    omega
  · simp only [haddress]
    omega
  · simp only
    omega
  · simp only
    omega

/-- The first relocation of some octets has the numbers that are remembered, or
reads them from two octets each. -/
theorem readRelocations_head (pointers : Option (Nat × Nat)) (fuel : Nat)
    (o : UInt8) (octets : Bytes) :
    ∃ target position item,
      (pointers = some (target, position) ∨
        (target < 256 ^ 2 ∧ position < 256 ^ 2)) ∧
      readRelocations pointers (fuel + 1) (o :: octets) =
        match item with
        | flags :: a :: b :: c :: rest =>
          (readRelocations (if flags &&& 1 = 0 then none else
            some (target, position)) fuel
            rest).map (readRelocation target position flags [a, b, c] :: ·)
        | _ => none := by
  cases pointers with
  | some known => exact ⟨known.1, known.2, o :: octets, .inl rfl, rfl⟩
  | none =>
      have hnumber : ∀ field : Bytes, field.length ≤ 2 →
          Field.get field < 256 ^ 2 := by
        intro field hfield
        have hlt := Field.get_lt field
        have hpow : 256 ^ field.length ≤ 256 ^ 2 :=
          Nat.pow_le_pow_right (by decide) hfield
        omega
      refine ⟨Field.get ((o :: octets).take 2),
        Field.get (columns 2 4 (o :: octets)),
        (o :: octets).drop 4, .inr ⟨hnumber _ ?_, hnumber _ ?_⟩, rfl⟩
      · exact List.length_take_le _ _
      · exact List.length_take_le _ _

/-- **Relocations are in the range of their fields**, whatever their packing. -/
theorem readRelocations_inFields {pointers : Option (Nat × Nat)}
    (hpointers : ∀ target position, pointers = some (target, position) →
      target < 256 ^ 2 ∧ position < 256 ^ 2)
    {fuel : Nat} {data : Bytes} {items : List Relocation}
    (h : readRelocations pointers fuel data = some items) :
    ∀ r ∈ items, r.InFields ∧ 1 ≤ r.length ∧ r.length ≤ 4 := by
  induction fuel generalizing pointers data items with
  | zero =>
      obtain rfl : [] = items := by simpa [readRelocations] using h
      simp
  | succ fuel ih =>
      cases data with
      | nil =>
          obtain rfl : [] = items := by simpa [readRelocations] using h
          simp
      | cons o octets =>
          obtain ⟨target, position, item, hhead, hread⟩ :=
            readRelocations_head pointers fuel o octets
          obtain ⟨htarget, hposition⟩ : target < 256 ^ 2 ∧ position < 256 ^ 2 :=
            hhead.elim (hpointers target position) id
          rw [hread] at h
          split at h
          · rename_i flags a b c rest
            obtain ⟨more, hmore, rfl⟩ := Option.map_eq_some_iff.mp h
            -- whatever is remembered for a short form are these numbers
            have hnext : ∀ target' position',
                (if flags &&& 1 = 0 then none else some (target, position)) =
                  some (target', position') → target' < 256 ^ 2 ∧
                  position' < 256 ^ 2 := by
              intro target' position' hnext
              split at hnext
              · contradiction
              · obtain ⟨rfl, rfl⟩ := Prod.mk.inj (Option.some.inj hnext)
                exact ⟨htarget, hposition⟩
            intro r hr
            rcases List.mem_cons.mp hr with rfl | hr
            · exact readRelocation_inFields htarget hposition flags rfl
            · exact ih hnext hmore r hr
          · contradiction

/-- **The relocations of a card can be written**, and come back. -/
theorem Accepted.relocations {items : List Relocation}
    (h : Accepted (.relocations items)) :
    ∀ r ∈ items, r.InFields ∧ 1 ≤ r.length ∧ r.length ≤ 4 := by
  obtain ⟨kind, card, hsize, hread⟩ := h.read
  obtain ⟨_, h⟩ | ⟨_, h⟩ | ⟨_, _, _, hitems, h⟩ | h := readContent_ok hread
  · contradiction
  · contradiction
  · obtain rfl := Content.relocations.inj h
    exact readRelocations_inFields (by simp) hitems
  · contradiction

/-! ### Punched again -/

/-- **Every end card can be read**, and what it is read as does not depend on
where it stands. -/
theorem End.reads (e : End) : ∃ item, e.card.Reads (.ending item) := by
  refine ⟨readEnd (e.card.octets []),
    Card.reads_of (bytes "END") rfl (by decide +kernel) ?_⟩
  intro sequence
  have hdata : ∀ start stop, stop ≤ textSize →
      columns (16 + start) (16 + stop) (e.card.octets sequence) =
        columns (16 + start) (16 + stop) (e.card.octets []) := by
    intro start stop hstop
    rw [Card.columns_data _ _ _ hstop, Card.columns_data _ _ _ hstop]
  have hname := hdata 0 8 (by decide)
  have hlength := hdata 12 16 (by decide)
  have hcount := hdata 16 17 (by decide)
  have hfirst := hdata 17 36 (by decide)
  have hsecond := hdata 36 55 (by decide)
  unfold readContent
  simp only
  rw [if_neg (by decide +kernel), if_neg (by decide +kernel),
    if_neg (by decide +kernel), if_pos trivial]
  unfold readEnd
  simp only [Card.columns_id, Card.columns_address, hname, hlength, hcount,
    hfirst, hsecond]

/-- The items of a card for an emitter. -/
def Content.items : Content → List Item
  | symbols items => items.map .symbol
  | text item => [.text item]
  | relocations items => items.map .relocation
  | ending item => [.ending item]

/-- Whether a card holds text, at least one octet, or relocations. -/
def Content.Carries : Content → Prop
  | text item => item.data ≠ []
  | relocations _ => True
  | _ => False

/-- Text from a card is punched on one card. -/
theorem Text.cards_eq {t : Text} (hdata : t.data ≠ [])
    (hsize : t.data.length ≤ textSize) :
    t.cards = [t.card] := by
  rw [cards, textCardsFrom_eq, chunks_eq_cons (by decide) hdata,
    List.take_of_length_le hsize, List.drop_of_length_le hsize]
  rfl

/-- Relocations in the range of their fields are read as they are. -/
theorem reads_relocationCard_inFields {relocations : List Relocation}
    (h : ∀ r ∈ relocations, r.InFields ∧ 1 ≤ r.length ∧ r.length ≤ 4)
    (hlength : (relocationOctets none relocations).length ≤ textSize) :
    (relocationCard relocations).Reads (.relocations relocations) := by
  have hreads := reads_relocationCard (fun r hr => (h r hr).2) hlength
  have hback : relocations.map Relocation.readBack = relocations :=
    map_eq_self_iff.mpr fun r hr => r.readBack_eq_iff.mpr (h r hr).1
  rwa [hback] at hreads

/-- Cards of relocations carry no text. -/
theorem flatMap_relocations (groups : List (List Relocation)) :
    (groups.map Content.relocations).flatMap Content.textItems = [] ∧
      (groups.map Content.relocations).flatMap Content.relocationItems =
        groups.flatten := by
  rw [List.flatMap_map, List.flatMap_map]
  exact ⟨List.flatMap_eq_nil_iff.mpr fun _ _ => rfl, List.flatMap_id⟩

/-- Groups of such relocations are read from their cards. -/
theorem reads_relocationCards {groups : List (List Relocation)}
    (h : ∀ r ∈ groups.flatten, r.InFields ∧ 1 ≤ r.length ∧ r.length ≤ 4)
    (hlength : ∀ g ∈ groups, (relocationOctets none g).length ≤ textSize) :
    List.Forall₂ Card.Reads (groups.map relocationCard)
      (groups.map Content.relocations) := by
  rw [List.forall₂_map_left_iff, List.forall₂_map_right_iff, List.forall₂_same]
  intro g hg
  exact reads_relocationCard_inFields
    (fun r hr => h r (List.mem_flatten_of_mem hg hr)) (hlength g hg)

/-- **Items of accepted cards come back from an emitter** in their order,
together with the relocations that waited in front of them. -/
theorem Emitter.reads_again {e : Emitter} (hwait : e.symbols = [])
    (hfits : (relocationOctets none e.relocations).length ≤ textSize)
    (hwaiting : ∀ r ∈ e.relocations, r.InFields ∧ 1 ≤ r.length ∧ r.length ≤ 4)
    {contents : List Content} (h : ∀ c ∈ contents, Accepted c ∧ c.Carries)
    (ending : End) :
    ∃ read, List.Forall₂ Card.Reads
        (e.produce (contents.flatMap Content.items ++ [.ending ending])) read ∧
      read.flatMap Content.textItems = contents.flatMap Content.textItems ∧
      read.flatMap Content.relocationItems =
        e.relocations ++ contents.flatMap Content.relocationItems := by
  induction contents generalizing e with
  | nil =>
      obtain ⟨item, hitem⟩ := ending.reads
      rw [List.flatMap_nil, List.nil_append, produce_ending hwait,
        waitingRelocations]
      split
      · rename_i hempty
        exact ⟨[.ending item], .cons hitem .nil, rfl, by rw [hempty]; rfl⟩
      · refine ⟨[.relocations e.relocations, .ending item], ?_, rfl, ?_⟩
        · exact .cons (reads_relocationCard_inFields hwaiting hfits)
            (.cons hitem .nil)
        · simp [Content.relocationItems]
  | cons c contents ih =>
      obtain ⟨hc, hcarries⟩ := h c List.mem_cons_self
      have hcontents := fun d hd => h d (List.mem_cons_of_mem c hd)
      rw [List.flatMap_cons, List.append_assoc]
      cases c with
      | symbols items => exact hcarries.elim
      | ending item => exact hcarries.elim
      | text t =>
          obtain ⟨hsize, hlegible⟩ := hc.text
          obtain ⟨read, hread, htexts, hrelocations⟩ :=
            ih hwait hfits hwaiting hcontents
          have hcard : t.card.Reads (.text t) := by
            have hreads := reads_textCard hsize
            rwa [t.readBack_eq_iff.mpr hlegible] at hreads
          have hproduce := produce_text hwait [t]
            (contents.flatMap Content.items ++ [.ending ending])
          rw [List.flatMap_singleton, t.cards_eq hcarries hsize] at hproduce
          refine ⟨.text t :: read, ?_, ?_, ?_⟩
          · exact hproduce ▸ .cons hcard hread
          · rw [List.flatMap_cons, htexts]
            rfl
          · rw [List.flatMap_cons, hrelocations]
            rfl
      | relocations items =>
          obtain ⟨groups, waiting, hgroups, hlast, hsplit, hproduce⟩ :=
            produce_relocations_append hwait hfits items
              (contents.flatMap Content.items ++ [.ending ending])
          have hall : ∀ r ∈ groups.flatten ++ waiting,
              r.InFields ∧ 1 ≤ r.length ∧ r.length ≤ 4 := by
            intro r hr
            rw [hsplit] at hr
            exact (List.mem_append.mp hr).elim (hwaiting r) (hc.relocations r)
          obtain ⟨read, hread, htexts, hrelocations⟩ :=
            ih (e := { e with relocations := waiting }) hwait hlast
              (fun r hr => hall r (List.mem_append_right _ hr)) hcontents
          obtain ⟨hnone, hflatten⟩ := flatMap_relocations groups
          refine ⟨groups.map .relocations ++ read, ?_, ?_, ?_⟩
          · have hitems : (Content.relocations items).items =
                items.map .relocation := rfl
            rw [hitems, hproduce]
            refine List.rel_append
              (reads_relocationCards (fun r hr => ?_) hgroups) hread
            exact hall r (List.mem_append_left _ hr)
          · rw [List.flatMap_append, hnone, htexts]
            rfl
          · rw [List.flatMap_append, hflatten, hrelocations,
              ← List.append_assoc, hsplit, List.append_assoc]
            rfl

/-- **Reading a deck is safe and stable.**  It is cut into its complete cards,
each card is understood or refused without a look beyond its 80 octets, and what
is accepted as text or as relocations is read again from the cards of any
emitter that takes it. -/
theorem reading_safe_stable :
    (∀ deck : Bytes, (readCards deck).1.length = deck.length / cardSize ∧
      (∀ card ∈ (readCards deck).1, card.length = cardSize) ∧
      (readCards deck).1.flatten = deck.take
        (deck.length / cardSize * cardSize) ∧
      (readCards deck).2 =
        if deck.length % cardSize = 0 then none
        else
          some ⟨(readCards deck).1.length, .short (deck.length % cardSize)⟩) ∧
    (∀ (index : Nat) (card : Bytes), card.length = cardSize →
      decode? index card = some (decode index card) ∧
        ∀ e, decode index card = .error e → e.index = index) ∧
    ∀ (deckId : Bytes) (contents : List Content) (ending : End),
      (∀ c ∈ contents, Accepted c ∧ c.Carries) →
      ∃ ds, decodeFrom 0
          ((Emitter.new deckId).run
            (contents.flatMap Content.items ++ [.ending ending])) = .ok ds ∧
        ds.flatMap (·.content.textItems) = contents.flatMap Content.textItems ∧
        ds.flatMap (·.content.relocationItems) = contents.flatMap
          Content.relocationItems := by
  refine ⟨readCards_spec,
    fun index card h => ⟨decode?_eq index h, fun e => index_of_decode⟩, ?_⟩
  intro deckId contents ending h
  obtain ⟨read, hread, htexts, hrelocations⟩ :=
    Emitter.reads_again
      (e := Emitter.new deckId) rfl (Nat.zero_le _) (by simp [Emitter.new]) h
      ending
  obtain ⟨ds, hds, hcontents⟩ := decodeFrom_punch hread (toUpper deckId) 0 0
  have hnew : (Emitter.new deckId).relocations = [] := rfl
  rw [hnew, List.nil_append] at hrelocations
  refine ⟨ds, ?_, ?_, ?_⟩
  · rw [Emitter.run_eq]
    exact hds
  · rw [← htexts, ← hcontents, List.flatMap_map]
  · rw [← hrelocations, ← hcontents, List.flatMap_map]

/-- Text with blanks for an address, punched by someone else. -/
def foreignText : Bytes :=
  { kind := bytes "TXT", count := some 2, id := some 1
    data := [0x07, 0x00] : Card }.octets []

/-- Relocations punched by someone else: the second has the numbers of the first
in full, and the third, which is in the short form, announces another one. -/
def foreignRelocations : Bytes :=
  { kind := bytes "RLD", count := some 20
    data :=
      [0x00, 0x02, 0x00, 0x01, 0x0C, 0x00, 0x00, 0x04] ++
      [0x00, 0x02, 0x00, 0x01, 0x27, 0x40, 0x40, 0x40] ++
        [0xFF, 0x00, 0x00, 0x0C] : Card }.octets []

/-- What is read from these cards. -/
def foreignContents : List Content :=
  [.text ⟨1, 0, [0x07, 0x00]⟩, .relocations [⟨1, 2, 4, 4, .add⟩,
      ⟨1, 2, 0x404040, 2, .subtract⟩, ⟨1, 2, 12, 4, .subtract⟩]]

theorem accepted_foreignContents : ∀ c ∈ foreignContents,
    Accepted c ∧ c.Carries := by
  have htext : decode 0 foreignText =
      .ok ⟨bytes "TXT", [], .text ⟨1, 0, [0x07, 0x00]⟩⟩ := by
    decide +kernel
  have hrelocations : decode 1 foreignRelocations =
      .ok ⟨bytes "RLD", [], .relocations
      [⟨1, 2, 4, 4, .add⟩, ⟨1, 2, 0x404040, 2, .subtract⟩,
        ⟨1, 2, 12, 4, .subtract⟩]⟩ := by
    decide +kernel
  intro c hc
  fin_cases hc
  · exact ⟨⟨0, foreignText, _, Card.length_octets _ _, htext,
      rfl⟩, by simp [Content.Carries]⟩
  · exact ⟨⟨1, foreignRelocations, _, Card.length_octets _ _, hrelocations,
      rfl⟩, trivial⟩

/-- The cards of another translator are read again from a deck, and 19 octets of
a third one are refused. -/
theorem reading_safe_stable_foreign :
    (∀ c ∈ foreignContents, Accepted c ∧ c.Carries) ∧
    (readCards (foreignText ++ foreignRelocations ++ blanks 19)).2 =
      some ⟨2, .short 19⟩ ∧
    foreignText.length = cardSize ∧
    decode? 0 foreignText = some (decode 0 foreignText) ∧
    ∃ ds, decodeFrom 0
      ((Emitter.new (bytes "D")).run
        (foreignContents.flatMap Content.items ++ [.ending {}])) = .ok ds ∧
      ds.flatMap (·.content.textItems) = [⟨1, 0, [0x07, 0x00]⟩] ∧
      ds.flatMap (·.content.relocationItems) =
        [⟨1, 2, 4, 4, .add⟩, ⟨1, 2, 0x404040, 2, .subtract⟩,
          ⟨1, 2, 12, 4, .subtract⟩] := by
  obtain ⟨hcards, hdecode, hstable⟩ := reading_safe_stable
  obtain ⟨hlength, -, -, hrest⟩ :=
    hcards (foreignText ++ foreignRelocations ++ blanks 19)
  have hsize : (foreignText ++ foreignRelocations ++ blanks 19).length =
      179 := by
    simp [foreignText, foreignRelocations, blanks, cardSize]
  rw [hlength, hsize] at hrest
  have htext : foreignText.length = cardSize := Card.length_octets _ _
  exact ⟨accepted_foreignContents, hrest, htext,
    (hdecode 0 foreignText htext).1,
    hstable (bytes "D") foreignContents {} accepted_foreignContents⟩

end Deck

end System370
