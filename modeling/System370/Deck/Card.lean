import System370.Deck.Basic
import System370.Field

/-!
# Cards

A card has 80 columns.  Column 1 marks it as part of an object deck, columns 2
to 4 name its kind, columns 73 to 80 hold the deck's name and a running number.
In between stand an address, a count of octets, a number and 56 columns of data.
Columns without a meaning are blank, and blank number fields read as zero.

* `Card.octets` punches a card, always into 80 octets (`Card.length_octets`);
* `sequenceText` is the rule of columns 73 to 80.
-/

namespace System370

namespace Deck

/-- The octet in the first column. -/
def marker : UInt8 := 0x02

/-- The number of columns. -/
def cardSize : Nat := 80

/-- The contents of a card without its sequence columns. -/
structure Card where
  kind : Bytes
  address : Option Int := none
  count : Option Int := none
  id : Option Int := none
  data : Bytes := []
  deriving DecidableEq, Repr

/-- `width` blank columns. -/
def blanks (width : Nat) : Bytes := List.replicate width CodePage037.blank

/-- A number field, blank without a number. -/
def numberField (width : Nat) : Option Int → Bytes
  | some n => Field.put width n
  | none => blanks width

@[simp] theorem length_numberField (width : Nat) (n : Option Int) :
    (numberField width n).length = width := by
  cases n <;> simp [numberField, blanks]

/-- The columns of a card. -/
def Card.octets (c : Card) (sequence : Bytes) : Bytes :=
  [marker] ++ CodePage037.nameField 3 c.kind ++ blanks 1 ++
    numberField 3 c.address ++ blanks 2 ++
    numberField 2 c.count ++ blanks 2 ++ numberField 2 c.id ++
    Bytes.fit textSize CodePage037.blank c.data ++
      CodePage037.nameField 8 sequence

/-- Every card has 80 columns. -/
@[simp] theorem Card.length_octets (c : Card) (sequence : Bytes) :
    (c.octets sequence).length = cardSize := by
  simp [Card.octets, blanks, textSize, cardSize]

/-- The text of the sequence columns: the deck's name and a running number,
which a name of more than four octets leaves four places. -/
def sequenceText (deck : Bytes) (number : Nat) : Bytes :=
  if 4 < deck.length then deck.take 4 ++ decimalField 4 (number % 10000 : Nat)
  else deck ++ decimalField (8 - deck.length) number

end Deck

end System370
