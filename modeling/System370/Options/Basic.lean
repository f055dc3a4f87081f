import System370.Text.LetterCase

/-!
# Options

The options of an assembly: how much storage and how many literals it may use,
what the deck says about itself, and what the listing shows.

* `Options.invalid?` names the first option whose value is not acceptable;
* `validDate` is the rule for dates: two digits of the year and three of the day
  in the year.
-/

namespace System370

/-- The options of an assembly. -/
structure Options where
  regionSize : Int64 := 1048576
  literalLimit : Int64 := 8192
  deckId : Bytes := []
  translator : Bytes := bytes "ASM370"
  version : Bytes := bytes "0100"
  date : Bytes := []
  addressingMode : Bytes := bytes "24"
  residenceMode : Bytes := bytes "24"
  listing : Bool := true
  crossReference : Bool := true
  deriving DecidableEq, Repr

/-- The date of an assembly: that of the options, otherwise the day of the
clock. -/
def Options.assemblyDate (o : Options) (today : Bytes) : Bytes :=
  if o.date = [] then today else o.date

/-- An option with a value that is not acceptable. -/
structure InvalidOption where
  name : Bytes
  value : Bytes
  deriving DecidableEq, Repr

/-- The text of the failure. -/
def InvalidOption.message (e : InvalidOption) : Bytes :=
  bytes "Invalid value for " ++ e.name ++ bytes ": " ++ e.value

/-- Whether a text names an addressing mode. -/
def validAddressingMode (mode : Bytes) : Bool :=
  [bytes "24", bytes "31", bytes "ANY"].contains (toUpper mode)

/-- Whether a text names a residence mode. -/
def validResidenceMode (mode : Bytes) : Bool :=
  [bytes "24", bytes "ANY"].contains (toUpper mode)

/-- The year of two columns, of which the first may be a sign.  Numbers below 69
count from the year 2000, others from 1900. -/
def yearOf? (a b : UInt8) : Option Int :=
  let number : Option Int :=
    if isDigit b = false then none
    else if a = 0x2B then some (digitValue b)
    else if a = 0x2D then some (-(digitValue b : Int))
    else if isDigit a then some (digitValue a * 10 + digitValue b : Nat)
    else none
  number.map fun n => if 69 ≤ n then 1900 + n else 2000 + n

/-- The number of days in a year. -/
def daysOf (year : Int) : Nat :=
  if year % 4 = 0 ∧ (year % 100 ≠ 0 ∨ year % 400 = 0) then 366 else 365

/-- Whether a text is a year and a day of that year. -/
def validDate : Bytes → Bool
  | [a, b, c, d, e] =>
    match yearOf? a b with
    | none => false
    | some year =>
      let day := digitValue c * 100 + digitValue d * 10 + digitValue e
      isDigit c && isDigit d && isDigit e && decide (1 ≤ day) &&
        decide (day ≤ daysOf year)
  | _ => false

/-- The year of a day and its number in that year, for a day counted from the
start of `year`.  The fuel bounds the number of years. -/
def yearAndDay (year day : Nat) : Nat → Nat × Nat
  | 0 => (year, day + 1)
  | fuel + 1 =>
    if day < daysOf year then (year, day + 1) else
      yearAndDay (year + 1) (day - daysOf year) fuel

/-- The date of a day counted from the start of 1970. -/
def dateOfDay (day : Nat) : Bytes :=
  let (year, number) := yearAndDay 1970 day day
  decimalField 2 (year % 100 : Nat) ++ decimalField 3 number

namespace Options

/-- Each check with the option it is about, in order: name, value, verdict. -/
def checks (o : Options) : List (InvalidOption × Bool) :=
  [(⟨bytes "region_size", decimal o.regionSize.toInt⟩, 0 < o.regionSize),
    (⟨bytes "literal_limit", decimal o.literalLimit.toInt⟩, 0 < o.literalLimit),
    (⟨bytes "deck_id", o.deckId⟩, o.deckId.length ≤ 8),
    (⟨bytes "translator", o.translator⟩, o.translator.length ≤ 10),
    (⟨bytes "version", o.version⟩, o.version.length ≤ 4),
    (⟨bytes "date", o.date⟩, o.date = [] || validDate o.date),
    (⟨bytes "amode", o.addressingMode⟩, validAddressingMode o.addressingMode),
    (⟨bytes "rmode", o.residenceMode⟩, validResidenceMode o.residenceMode)]

/-- The first option with a value that is not acceptable. -/
def invalid? (o : Options) : Option InvalidOption :=
  (o.checks.find? (!·.2)).map (·.1)

end Options

end System370
