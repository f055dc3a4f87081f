import System370.Bytes

/-!
# Quotes, parentheses and lists

Operands are taken apart by three kinds of octets: the apostrophe opens and
closes strings, parentheses group, and commas separate.  Inside a string
nothing else counts, and two apostrophes in a row stand for one.  An apostrophe
does not open a string if it belongs to a length attribute: after an `L` that is
a term of its own and before a symbol or `*`, as in `L'FIELD`.

An operand field is read octet by octet, and `Quoting` says where such a reader
stands.  The other scanners have the whole text at hand and pass over a string
as soon as they come to it:

* `closingQuote` finds the end of a string;
* `closingParen` finds the partner of a parenthesis;
* `splitAtCommas` cuts an operand field at the commas outside strings and
  parentheses and says whether the parentheses balance;
* `splitList` cuts a list in the same way, but takes no string without an end
  and no empty item;
* `closingGroup` finds a parenthesized group at the end of a text.

Each of them has its own loop over the octets of the text.  When a loop comes to
a string, it goes on behind it: `skip` is the number of octets that it still has
to pass over.  `before` is the text in front of it, nearest octet first.
-/

namespace System370

/-- Whether an octet may start a symbol: a letter or one of `$`, `#`, `@`. -/
def isSymbolStart (c : UInt8) : Bool :=
  (0x41 ≤ c && c ≤ 0x5A) || (0x61 ≤ c && c ≤ 0x7A) || c = 0x24 || c =
    0x23 || c = 0x40

/-- Whether an octet may stand in a symbol: also a digit or an underscore. -/
def isSymbolChar (c : UInt8) : Bool := isSymbolStart c || isDigit c || c = 0x5F

namespace Scan

/-- The octet of an opening parenthesis. -/
def openParen : UInt8 := 0x28

/-- The octet of a closing parenthesis. -/
def closeParen : UInt8 := 0x29

/-- Whether an apostrophe belongs to a length attribute, given the text before
it, nearest octet first, and the octet after it. -/
def attributeQuote (before : Bytes) (next : Option UInt8) : Bool :=
  (match before with
    | [] => false
    | [c] => c = 0x4C || c = 0x6C
    | c :: d :: _ => (c = 0x4C || c = 0x6C) && !isSymbolChar d) &&
  (match next with
    | none => false
    | some c => isSymbolStart c || c = 0x2A)

/-- Where a scanner stands with respect to strings. -/
inductive Quoting where
  /-- Outside any string. -/
  | outside
  /-- Inside a string. -/
  | inside
  /-- Inside a string, before the second of two apostrophes that stand for
  one. -/
  | doubled
  deriving DecidableEq, Repr

/-- Whether the octet `c` is part of a string, and where the scanner stands
after it. -/
def Quoting.step (before : Bytes) (next : Option UInt8) (c : UInt8) :
    Quoting → Bool × Quoting
  | .outside =>
    if c = quote ∧ attributeQuote before next = false then (true, .inside) else
      (false, .outside)
  | .inside =>
    if c = quote then
      (if next = some quote then (true, .doubled) else (true, .outside))
    else (true, .inside)
  | .doubled => (true, .inside)

/-- The number of octets before the apostrophe that ends a string, given the
text after the apostrophe that opened it. -/
def closingQuote : Bytes → Option Nat
  | [] => none
  | [c] => if c = quote then some 0 else none
  | c :: d :: rest =>
    if c = quote then
      if d = quote then (closingQuote rest).map (· + 2) else some 0
    else (closingQuote (d :: rest)).map (· + 1)

/-- The number of octets to the end of a string, given the text after the
apostrophe that opened it: all of them if the string has no end. -/
def stringLength (text : Bytes) : Nat :=
  ((closingQuote text).map (· + 1)).getD text.length

/-- The loop of `closingParen`. -/
def closingParenFrom :
    (skip : Nat) → (depth : Int) → (before text : Bytes) → Option Nat
  | _, _, _, [] => none
  | skip + 1, depth, before, c :: rest =>
    (closingParenFrom skip depth (c :: before) rest).map (· + 1)
  | 0, depth, before, c :: rest =>
    if c = quote ∧ attributeQuote before rest.head? = false then
      match closingQuote rest with
      | none => none
      | some n =>
        (closingParenFrom (n + 1) depth (c :: before) rest).map (· + 1)
    else if c = openParen then
      (closingParenFrom 0 (depth + 1) (c :: before) rest).map (· + 1)
    else if c = closeParen then
      if depth = 1 then some 0
      else (closingParenFrom 0 (depth - 1) (c :: before) rest).map (· + 1)
    else (closingParenFrom 0 depth (c :: before) rest).map (· + 1)

/-- The position in `text` of the parenthesis that closes the one at its
start. -/
def closingParen (before text : Bytes) : Option Nat :=
  closingParenFrom 0 0 before text

/-- The text inside the parentheses at the start of a text, and the text after
them. -/
def parenthesized? (text : Bytes) : Option (Bytes × Bytes) :=
  (closingParen [] text).map fun i => ((text.take i).tail, text.drop (i + 1))

/-- How the parentheses of a text pair up. -/
inductive Balance where
  | balanced
  /-- The closing parenthesis at this position has no partner. -/
  | excess (position : Nat)
  /-- Some opening parenthesis has no partner. -/
  | missing
  deriving DecidableEq, Repr

/-- The loop of `splitAtCommas`.  `done` holds the pieces that are complete, and
`piece` the part of the next one already read, nearest octet first. -/
def piecesFrom :
    (skip depth : Nat) → (done : List Bytes) → (piece before text : Bytes) →
    List Bytes × Balance
  | _, depth, done, piece, _, [] =>
    if depth = 0 then (done ++ [piece.reverse], .balanced) else ([], .missing)
  | skip + 1, depth, done, piece, before, c :: rest =>
    piecesFrom skip depth done (c :: piece) (c :: before) rest
  | 0, depth, done, piece, before, c :: rest =>
    if c = quote ∧ attributeQuote before rest.head? = false then
      piecesFrom (stringLength rest) depth done (c :: piece) (c :: before) rest
    else if c = openParen then
      piecesFrom 0 (depth + 1) done (c :: piece) (c :: before) rest
    else if c = closeParen then
      if depth = 0 then (done, .excess before.length)
      else piecesFrom 0 (depth - 1) done (c :: piece) (c :: before) rest
    else if c = comma ∧ depth = 0 then
      piecesFrom 0 depth (done ++ [piece.reverse]) [] (c :: before) rest
    else piecesFrom 0 depth done (c :: piece) (c :: before) rest

/-- The pieces of a text between commas outside strings and parentheses.  An
excess parenthesis leaves the pieces completed before it, a missing one leaves
none. -/
def splitAtCommas (text : Bytes) : List Bytes × Balance :=
  piecesFrom 0 0 [] [] [] text

/-- Why a text is no list. -/
inductive ListError where
  | unterminatedString
  | unbalancedParentheses
  | emptyItem
  deriving DecidableEq, Repr

/-- The text of the failure. -/
def ListError.message : ListError → Bytes
  | unterminatedString => bytes "unterminated string"
  | unbalancedParentheses => bytes "unbalanced parentheses"
  | emptyItem => bytes "empty list item"

/-- The loop of `splitList`. -/
def itemsFrom :
    (skip depth : Nat) → (done : List Bytes) → (piece before text : Bytes) →
    Except ListError (List Bytes)
  | _, depth, done, piece, _, [] =>
    let items := done ++ [piece.reverse]
    if depth ≠ 0 then .error .unbalancedParentheses
    else if items.any (· = []) then .error .emptyItem
    else .ok items
  | skip + 1, depth, done, piece, before, c :: rest =>
    itemsFrom skip depth done (c :: piece) (c :: before) rest
  | 0, depth, done, piece, before, c :: rest =>
    if c = quote ∧ attributeQuote before rest.head? = false then
      match closingQuote rest with
      | none => .error .unterminatedString
      | some n => itemsFrom (n + 1) depth done (c :: piece) (c :: before) rest
    else if c = openParen then
      itemsFrom 0 (depth + 1) done (c :: piece) (c :: before) rest
    else if c = closeParen then
      if depth = 0 then .error .unbalancedParentheses
      else itemsFrom 0 (depth - 1) done (c :: piece) (c :: before) rest
    else if c = comma ∧ depth = 0 then
      itemsFrom 0 depth (done ++ [piece.reverse]) [] (c :: before) rest
    else itemsFrom 0 depth done (c :: piece) (c :: before) rest

/-- The items of a list.  A closing parenthesis too many is noticed where it
stands, so is a string without an end, and open parentheses are at the end. -/
def splitList (text : Bytes) : Except ListError (List Bytes) :=
  itemsFrom 0 0 [] [] [] text

/-- The loop of `closingGroup`.  It also passes over each group that it comes
to. -/
def closingGroupFrom : (skip : Nat) → (last : Option Nat) →
    (before text : Bytes) → Option Nat
  | _, last, _, [] => last
  | skip + 1, last, before,
    c :: rest => closingGroupFrom skip last (c :: before) rest
  | 0, last, before, c :: rest =>
    if c = quote ∧ attributeQuote before rest.head? = false then
      closingGroupFrom (stringLength rest) last (c :: before) rest
    else if c = openParen then
      match closingParen before (c :: rest) with
      | none => none
      | some n =>
        closingGroupFrom n (if n = rest.length then some before.length else
          last) (c :: before) rest
    else closingGroupFrom 0 last (c :: before) rest

/-- The position of the parenthesized group that a text ends with. -/
def closingGroup (text : Bytes) : Option Nat := closingGroupFrom 0 none [] text

end Scan

end System370
