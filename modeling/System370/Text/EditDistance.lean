import System370.Text.LetterCase

/-!
# How far apart two texts are

The distance of two texts is the least number of octets to insert, to delete or
to replace on the way from one to the other.  It is computed row by row: the row
of a text holds its distances from the first octets of the other text, none of
them first.

* `editDistance` is the distance;
* `resembles` tells which names a mistyped name may stand for.
-/

namespace System370

namespace EditDistance

/-- The rest of the row of a text with one more octet `c`.  The other text goes
on with `text`, and `row` is what the row before holds from there on; `corner`
stands in the row before, and `left` in this row, one place earlier. -/
def extend (c : UInt8) (corner left : Nat) : Bytes → List Nat → List Nat
  | b :: text, up :: row =>
    let here := if b = c then corner else min (min up left) corner + 1
    here :: extend c up here text row
  | _, _ => []

/-- The row of a text with one more octet `c` against `text`. -/
def nextRow (text : Bytes) (row : List Nat) (c : UInt8) : List Nat :=
  match row with
  | [] => []
  | first :: rest => (first + 1) :: extend c first (first + 1) text rest

/-- The row of the empty text. -/
def firstRow (text : Bytes) : List Nat := List.range (text.length + 1)

end EditDistance

/-- The least number of octets to insert, to delete or to replace on the way
from one text to another. -/
def editDistance (source target : Bytes) : Nat :=
  (source.foldl (EditDistance.nextRow target)
    (EditDistance.firstRow target)).getLastD 0

/-- Whether a typed name may stand for a name in small letters: it is the
beginning of it, or at most two octets away from it, without regard to case. -/
def resembles (typed name : Bytes) : Bool :=
  name.startsWith (toLower typed) || editDistance (toLower typed) name ≤ 2

end System370
