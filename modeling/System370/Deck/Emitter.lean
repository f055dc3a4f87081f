import System370.Deck.Card

/-!
# Writing decks

External symbols are punched three to a card and relocations as many as a card
takes, so an emitter holds both back until a card is full or something else has
to follow.  Symbols come before text and relocations, and the end item comes
last.

A relocation of the same field's section and target as the one before it on its
card is written in a short form without the two numbers, and the one before says
so in its lowest bit.

* `Emitter.step` takes one item and gives the cards that it completes;
* `Module.emit` is the deck of a module.
-/

namespace System370

namespace Deck

/-- A part of a module. -/
inductive Item where
  | symbol (s : Symbol)
  | text (t : Text)
  | relocation (r : Relocation)
  | ending (e : End)
  deriving DecidableEq, Repr

/-- The octet of addressing and residence mode. -/
def modeFlags (addressingMode residenceMode : Bytes) : UInt8 :=
  (if toUpper addressingMode = bytes "31" then 2
    else if toUpper addressingMode = bytes "ANY" then 3 else 0) +
  (if toUpper residenceMode = bytes "ANY" then 4 else 0)

/-- The columns of an external symbol. -/
def Symbol.octets (s : Symbol) : Bytes :=
  CodePage037.nameField 8 (toUpper s.name) ++ [s.type.code] ++
  (if s.type.isExternal ∧ s.address = 0 then blanks 3 else
    Field.put 3 s.address.toInt) ++
  (if s.type = .entry then blanks 2 ++ Field.put 2 s.owner
    else if s.type.isExternal then blanks 4
    else [modeFlags s.addressingMode s.residenceMode] ++
      Field.put 3 s.length.toInt)

/-- The card of some external symbols.  It has the number of the first one. -/
def symbolCard (symbols : List Symbol) : Card where
  kind := bytes "ESD"
  count := some (symbols.length * symbolSize : Nat)
  id := (symbols.head?.filter (·.type ≠ .entry)).map (·.id)
  data := symbols.flatMap Symbol.octets

/-- The cards of pieces of text from an address on. -/
def textCardsFrom (sectionId : Int) (address : Int64) : List Bytes → List Card
  | [] => []
  | piece :: rest =>
    { kind := bytes "TXT"
      address := some address.toInt
      count := some (piece.length : Nat)
      id := some sectionId
      data := piece } ::
        textCardsFrom sectionId (address + Int64.ofNat piece.length) rest

/-- The cards of a run of text. -/
def Text.cards (t : Text) : List Card :=
  textCardsFrom t.sectionId t.address (chunks textSize t.data)

/-- The bit that announces a short form. -/
def continuation : UInt8 := 0x01

/-- The flag octet of a relocation: kind, length and direction. -/
def Relocation.flags (r : Relocation) : UInt8 :=
  (if r.action = .store then 0x10 else 0) +
    ((r.length - 1) % 4 * 4).toNat.toUInt8 +
    (if r.action = .subtract then 0x02 else 0)

/-- Whether two relocations have the same section and the same target. -/
def Relocation.sharesPointers (r s : Relocation) : Bool :=
  r.target = s.target && r.position = s.position

/-- The columns of relocations after `previous`. -/
def relocationOctets (previous : Option Relocation) : List Relocation → Bytes
  | [] => []
  | r :: rest =>
    (if previous.any (·.sharesPointers r) then [] else
      Field.put 2 r.target ++ Field.put 2 r.position) ++
      [if rest.head?.any r.sharesPointers then
        r.flags ||| continuation else r.flags] ++
      Field.put 3 r.address.toInt ++ relocationOctets (some r) rest

/-- The card of some relocations. -/
def relocationCard (relocations : List Relocation) : Card where
  kind := bytes "RLD"
  count := some ((relocationOctets none relocations).length : Nat)
  data := relocationOctets none relocations

/-- The columns of an identification. -/
def Identification.octets (i : Identification) : Bytes :=
  CodePage037.nameField 10 i.translator ++ CodePage037.nameField 4 i.version ++
    CodePage037.nameField 5 i.date

/-- The columns that count and list the identifications, at most two. -/
def identificationOctets (identifications : List Identification) : Bytes :=
  match identifications.take identificationsPerCard with
  | [] => []
  | shown => CodePage037.nameField 1 (decimal shown.length) ++
    shown.flatMap Identification.octets

/-- The card of the end item.  An entry point is a name or an address. -/
def End.card (e : End) : Card where
  kind := bytes "END"
  address := if e.hasEntry ∧ e.name = [] then some e.address.toInt else none
  id := if e.hasEntry ∧ e.name = [] then some e.sectionId else none
  data :=
    (if e.hasEntry then CodePage037.nameField 8 (toUpper e.name) ++ blanks 4 ++
      Field.put 4 e.length.toInt else blanks 16) ++
        identificationOctets e.identifications

/-- A deck in the making. -/
structure Emitter where
  /-- The deck's name in capitals. -/
  deck : Bytes
  /-- How many cards are complete. -/
  cards : Nat := 0
  /-- External symbols that wait for their card to fill. -/
  symbols : List Symbol := []
  /-- Relocations that wait for their card to fill. -/
  relocations : List Relocation := []
  deriving DecidableEq, Repr

namespace Emitter

/-- A deck without cards. -/
def new (deckId : Bytes) : Emitter := { deck := toUpper deckId }

/-- The card of the waiting symbols. -/
def waitingSymbols (e : Emitter) : List Card :=
  if e.symbols = [] then [] else [symbolCard e.symbols]

/-- The card of the waiting relocations. -/
def waitingRelocations (e : Emitter) : List Card :=
  if e.relocations = [] then [] else [relocationCard e.relocations]

/-- What waits after an item, and the cards that the item completes. -/
def accept (e : Emitter) : Item → Emitter × List Card
  | .symbol s =>
    let symbols := e.symbols ++ [s]
    if symbols.length = symbolsPerCard then
      ({ e with symbols := [] }, [symbolCard symbols])
    else ({ e with symbols }, [])
  | .text t => ({ e with symbols := [] }, e.waitingSymbols ++ t.cards)
  | .relocation r =>
    let relocations := e.relocations ++ [r]
    if textSize < (relocationOctets none relocations).length then
      ({ e with symbols := [], relocations := [r] },
        e.waitingSymbols ++ e.waitingRelocations)
    else ({ e with symbols := [], relocations }, e.waitingSymbols)
  | .ending item =>
    ({ e with symbols := [], relocations := [] },
      e.waitingSymbols ++ e.waitingRelocations ++ [item.card])

/-- Punches cards with consecutive numbers behind `number`. -/
def punch (deck : Bytes) (number : Nat) : List Card → List Bytes
  | [] => []
  | c :: rest => c.octets (sequenceText deck (number + 1)) ::
    punch deck (number + 1) rest

/-- Takes one item and gives the cards that it completes. -/
def step (e : Emitter) (item : Item) : Emitter × List Bytes :=
  let (next, cards) := e.accept item
  ({ next with cards := e.cards + cards.length }, punch e.deck e.cards cards)

/-- The cards that a list of items completes. -/
def run (e : Emitter) : List Item → List Bytes
  | [] => []
  | item :: rest =>
    let (next, cards) := e.step item
    cards ++ next.run rest

end Emitter

namespace Module

/-- The parts of a module in the order of the deck. -/
def items (m : Module) : List Item :=
  m.symbols.map .symbol ++ m.text.map .text ++ m.relocations.map .relocation ++
    [.ending m.ending]

/-- The deck of a module. -/
def emit (m : Module) : List Bytes := (Emitter.new m.deckId).run m.items

end Module

end Deck

end System370
