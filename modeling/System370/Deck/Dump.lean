import System370.Deck.Decode
import System370.Yaml.Document

/-!
# Dumps

A dump shows the cards of a deck in a form for reading.  It comes as plain text,
with the items of a card on indented lines under it, or as a YAML document.

* `Deck.readAll` takes a whole deck apart, or names the first card that cannot
  be read;
* `Deck.dumpText` and `Deck.dumpYaml` are the two forms.
-/

namespace System370

namespace Deck

/-- Takes cards apart; the first is at `index`. -/
def decodeFrom (index : Nat) : List Bytes → Except InvalidCard (List Decoded)
  | [] => .ok []
  | card :: rest =>
    match decode index card with
    | .error e => .error e
    | .ok d => (decodeFrom (index + 1) rest).map (d :: ·)

/-- Takes a deck apart.  An incomplete card is noticed before anything on the
others. -/
def readAll (deck : Bytes) : Except InvalidCard (List Decoded) :=
  match readCards deck with
  | (_, some e) => .error e
  | (cards, none) => decodeFrom 0 cards

/-- Words with blanks between them. -/
def phrase (parts : List Bytes) : Bytes := Bytes.join [System370.blank] parts

/-- An address or a length in a dump. -/
def dumpAddress (n : Int64) : Bytes := hexField 6 n.toInt

/-- What a dump says about an external symbol. -/
def dumpSymbol (s : Symbol) : Bytes :=
  phrase ([Utf8.padRight 8 s.name, s.type.name] ++
    if s.type = .entry then
      [bytes "address", dumpAddress s.address, bytes "ldid", decimal s.owner]
    else if s.type.isExternal then [bytes "esdid", decimal s.id]
    else
      [bytes "esdid", decimal s.id, bytes "address", dumpAddress s.address,
        bytes "length", dumpAddress s.length, bytes "amode", s.addressingMode,
        bytes "rmode", s.residenceMode])

/-- What a dump says about a relocation. -/
def dumpRelocation (r : Relocation) : Bytes :=
  phrase [bytes "position", decimal r.position, bytes "target",
    decimal r.target, bytes "address",
    dumpAddress r.address, bytes "length", decimal r.length, r.action.name]

/-- What a dump says about the entry point, if there is one. -/
def dumpEntry (e : End) : List Bytes :=
  if e.name ≠ [] then [phrase [bytes "entry", e.name]]
  else if e.sectionId ≠ 0 then
    [phrase [bytes "entry esdid", decimal e.sectionId, bytes "address",
      dumpAddress e.address, bytes "length", dumpAddress e.length]]
  else []

/-- What a dump says about an identification. -/
def dumpIdentification (i : Identification) : Bytes :=
  phrase [bytes "idr", i.translator, i.version, i.date]

/-- The items of a card in a dump. -/
def dumpContent : Content → List Bytes
  | .symbols items => items.map dumpSymbol
  | .text item =>
    [phrase [bytes "esdid", decimal item.sectionId, bytes "address",
      dumpAddress item.address, hexDump item.data]]
  | .relocations items => items.map dumpRelocation
  | .ending item => dumpEntry item ++
    item.identifications.map dumpIdentification

/-- A card in a dump: its number, kind and sequence, and its items below. -/
def dumpCard (number : Nat) (d : Decoded) : List Bytes :=
  phrase [decimalField 4 number, d.kind, d.sequence] ::
    (dumpContent d.content).map (bytes "     " ++ ·)

/-- A deck as plain text. -/
def dumpText (cards : List Decoded) : Bytes :=
  ((cards.zipIdx 1).flatMap fun (d, number) => dumpCard number d).flatMap
    (· ++ [0x0A])

/-- A number that is left out if it is zero. -/
def shownNumber (key : String) (n : Int) : List (Bytes × Yaml) :=
  if n = 0 then [] else [(bytes key, .number n)]

/-- A text that is left out if it is empty. -/
def shownText (key : String) (value : Bytes) : List (Bytes × Yaml) :=
  if value = [] then [] else [(bytes key, .text value)]

/-- An external symbol as data. -/
def symbolData (s : Symbol) : Yaml :=
  .record ([(bytes "name", .text s.name), (bytes "type", .text s.type.name)] ++
    shownNumber "id" s.id ++ [(bytes "address", .number s.address.toInt)] ++
    shownNumber "length" s.length.toInt ++ shownNumber "ldid" s.owner ++
    shownText "amode" s.addressingMode ++ shownText "rmode" s.residenceMode)

/-- A run of text as data. -/
def textData (t : Text) : Yaml :=
  .record [(bytes "esdid", .number t.sectionId),
    (bytes "address", .number t.address.toInt),
    (bytes "data", .text (hexDump t.data))]

/-- A relocation as data. -/
def relocationData (r : Relocation) : Yaml :=
  .record [(bytes "position", .number r.position),
    (bytes "target", .number r.target),
    (bytes "address", .number r.address.toInt),
    (bytes "length", .number r.length), (bytes "action", .text r.action.name)]

/-- An identification as data. -/
def identificationData (i : Identification) : Yaml :=
  .record [(bytes "translator", .text i.translator),
    (bytes "version", .text i.version), (bytes "date", .text i.date)]

/-- A list that is left out if it is empty. -/
def shownList (key : String) (items : List Yaml) : List (Bytes × Yaml) :=
  if items.isEmpty then [] else [(bytes key, .list items)]

/-- The end of a module as data. -/
def endData (e : End) : Yaml :=
  .record (shownNumber "address" e.address.toInt ++
    shownNumber "esdid" e.sectionId ++
    shownText "name" e.name ++ shownNumber "length" e.length.toInt ++
    shownList "idr" (e.identifications.map identificationData))

/-- The contents of a card as a field of its record. -/
def contentField : Content → List (Bytes × Yaml)
  | .symbols items => shownList "esd" (items.map symbolData)
  | .text item => [(bytes "text", textData item)]
  | .relocations items => shownList "rld" (items.map relocationData)
  | .ending item => [(bytes "end", endData item)]

/-- A card as data. -/
def cardData (d : Decoded) : Yaml :=
  .record ([(bytes "kind", .text d.kind),
    (bytes "sequence", .text d.sequence)] ++
    contentField d.content)

/-- A deck as a YAML document. -/
def dumpYaml (cards : List Decoded) : Bytes :=
  (Yaml.list (cards.map cardData)).render

end Deck

end System370
