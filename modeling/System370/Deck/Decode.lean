import System370.Deck.Card

/-!
# Reading decks

A deck is read card by card, and each card is taken apart by itself.  Any 80
octets are either understood or refused with a reason; an incomplete card at the
end of a deck is refused as well.

* `readCards` cuts a deck into cards;
* `decode` takes one card apart.
-/

namespace System370

namespace Deck

/-- What is wrong with a card. -/
inductive Problem where
  | short (size : Nat)
  | missingMarker
  | badCount (kind : Bytes)
  | truncatedRelocation
  | unknownKind (kind : Bytes)
  deriving DecidableEq, Repr

/-- A card that cannot be read. -/
structure InvalidCard where
  /-- The position in the deck, from zero. -/
  index : Nat
  problem : Problem
  deriving DecidableEq, Repr

/-- The reason why a card cannot be read. -/
def Problem.message : Problem → Bytes
  | short size => bytes "short record of " ++ decimal size ++ bytes " bytes"
  | missingMarker => bytes "missing record marker"
  | badCount kind => bytes "bad " ++ kind ++ bytes " byte count"
  | truncatedRelocation => bytes "truncated RLD item"
  | unknownKind kind => bytes "unknown record type " ++ kind

/-- The text of the failure. -/
def InvalidCard.message (e : InvalidCard) : Bytes :=
  bytes "Record " ++ decimal (e.index + 1 : Nat) ++ bytes ": " ++
    e.problem.message

/-- What a card holds. -/
inductive Content where
  | symbols (items : List Symbol)
  | text (item : Text)
  | relocations (items : List Relocation)
  | ending (item : End)
  deriving DecidableEq, Repr

/-- A card taken apart. -/
structure Decoded where
  kind : Bytes
  sequence : Bytes
  content : Content
  deriving DecidableEq, Repr

/-- The cards of a deck, and the failure of an incomplete one behind them. -/
def readCards (deck : Bytes) : List Bytes × Option InvalidCard :=
  let whole := deck.length / cardSize
  let rest := deck.length % cardSize
  ((chunks cardSize deck).take whole, if rest = 0 then none else
    some ⟨whole, .short rest⟩)

/-- Columns `start` to `stop`, counted from zero and without the last. -/
def columns (start stop : Nat) (card : Bytes) : Bytes :=
  (card.drop start).take (stop - start)

/-- The number in a field; blank columns read as zero. -/
def readNumber (field : Bytes) : Nat :=
  if field.all (· = CodePage037.blank) then 0 else Field.get field

/-- The modes that a flag octet stands for. -/
def readModes (flags : UInt8) : Bytes × Bytes :=
  if flags = CodePage037.blank then (bytes "24", bytes "24")
  else
    (if flags &&& 3 = 2 then bytes "31" else if flags &&& 3 = 3 then
      bytes "ANY" else bytes "24",
      if flags &&& 4 = 0 then bytes "24" else bytes "ANY")

/-- The external symbol in some columns, numbered `id` unless it is an entry
point. -/
def readSymbol (id : Nat) (item : Bytes) : Symbol :=
  let type : SymbolType := ⟨item.getD 8 0⟩
  let named : Symbol :=
    { name := CodePage037.readName (columns 0 8 item)
      type
      address := Int64.ofNat (readNumber (columns 9 12 item)) }
  if type = .entry then { named with owner := readNumber (columns 14 16 item) }
  else if type.isExternal then { named with id }
  else
    let (addressingMode, residenceMode) := readModes (item.getD 12 0)
    { named with
      id, addressingMode, residenceMode
      length := Int64.ofNat (readNumber (columns 13 16 item)) }

/-- External symbols, numbered from `id` on. -/
def readSymbols (id : Nat) : List Bytes → List Symbol
  | [] => []
  | item :: rest =>
    let s := readSymbol id item
    s :: readSymbols (if s.type = .entry then id else id + 1) rest

/-- The relocation of four columns. -/
def readRelocation (target position : Nat) (flags : UInt8) (address : Bytes) :
    Relocation where
  position := position
  target := target
  address := Int64.ofNat (Field.get address)
  length := (flags.toNat / 4 % 4 + 1 : Nat)
  action :=
    if flags &&& 0xF0 = 0x10 then .store else if flags &&& 0x02 = 0 then
      .add else .subtract

/-- Relocations.  `pointers` are the target and the section of a short form. -/
def readRelocations (pointers : Option (Nat × Nat)) :
    Nat → Bytes → Option (List Relocation)
  | 0, _ => some []
  | _, [] => some []
  | fuel + 1, data =>
    let ((target, position), item) :=
      match pointers with
      | some known => (known, data)
      | none => ((Field.get (data.take 2), Field.get (columns 2 4 data)),
        data.drop 4)
    match item with
    | flags :: a :: b :: c :: rest =>
      let next := if flags &&& 1 = 0 then none else some (target, position)
      (readRelocations next fuel rest).map
        (readRelocation target position flags [a, b, c] :: ·)
    | _ => none

/-- The identification in some columns. -/
def readIdentification (item : Bytes) : Identification where
  translator := CodePage037.readName (columns 0 10 item)
  version := CodePage037.readName (columns 10 14 item)
  date := CodePage037.readName (columns 14 19 item)

/-- How many identifications a card announces; none if the column is no
digit. -/
def readCount (column : Bytes) : Nat :=
  match CodePage037.readName column with
  | [c] => if isDigit c then digitValue c else 0
  | _ => 0

/-- The end item of a card. -/
def readEnd (card : Bytes) : End :=
  let sectionId := readNumber (columns 14 16 card)
  let name := CodePage037.readName (columns 16 24 card)
  { hasEntry := sectionId ≠ 0 ∨ name ≠ []
    address := Int64.ofNat (readNumber (columns 5 8 card))
    sectionId
    name
    length := Int64.ofNat (readNumber (columns 28 32 card))
    identifications :=
      ([columns 33 52 card,
        columns 52 71 card].take (readCount (columns 32 33 card))).map
        readIdentification }

/-- The contents of a card of some kind. -/
def readContent (kind card : Bytes) : Except Problem Content :=
  let count := readNumber (columns 10 12 card)
  let data := columns 16 (16 + count) card
  if kind = bytes "ESD" then
    if count % symbolSize ≠ 0 ∨ symbolsPerCard * symbolSize < count then
      .error (.badCount kind)
    else .ok (.symbols
      (readSymbols (readNumber (columns 14 16 card)) (chunks symbolSize data)))
  else if kind = bytes "TXT" then
    if textSize < count then .error (.badCount kind)
    else .ok (.text
      { sectionId := readNumber (columns 14 16 card)
        address := Int64.ofNat (readNumber (columns 5 8 card))
        data })
  else if kind = bytes "RLD" then
    if textSize < count then .error (.badCount kind)
    else match readRelocations none count data with
      | some items => .ok (.relocations items)
      | none => .error .truncatedRelocation
  else if kind = bytes "END" then .ok (.ending (readEnd card))
  else .error (.unknownKind kind)

/-- Takes the card at a position of a deck apart. -/
def decode (index : Nat) (card : Bytes) : Except InvalidCard Decoded :=
  if card.head? ≠ some marker then .error ⟨index, .missingMarker⟩
  else
    let kind := CodePage037.readName (columns 1 4 card)
    match readContent kind card with
    | .ok content => .ok ⟨kind,
      CodePage037.readName (columns 72 80 card), content⟩
    | .error problem => .error ⟨index, problem⟩

end Deck

end System370
