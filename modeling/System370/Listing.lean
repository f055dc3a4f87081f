import System370.Assembly

/-!
# Listings

A listing shows every line of the source with the location, the code and the
addresses that the assembler gave it, and under each statement what is wrong
with it.  Tables of the external symbols and of all symbols follow, then a
summary.

* `Listing.render` is the text of a listing.
-/

namespace System370

/-- What a listing shows. -/
structure Listing where
  title : Bytes
  crossReference : Bool := true
  color : Bool := false
  deriving DecidableEq, Repr

namespace Listing

/-- How many octets of code stand on a line. -/
def objectPerLine : Nat := 8

/-- How many references stand on a line. -/
def referencesPerLine : Nat := 8

/-- A control sequence of a terminal. -/
def control (parameters : String) : Bytes :=
  0x1B :: bytes "[" ++ bytes parameters ++ bytes "m"

/-- A text in a style, if there are colors. -/
def styled (l : Listing) (style : String) (text : Bytes) : Bytes :=
  if l.color then control style ++ text ++ control "0" else text

/-- A line of the listing. -/
def endLine (text : Bytes) : Bytes := text ++ [0x0A]

/-- A number at the right end of a field. -/
def rightNumber (width : Nat) (n : Int) : Bytes :=
  Bytes.padLeft width blank (decimal n)

/-- A field without contents. -/
def gap (width : Nat) : Bytes := List.replicate width blank

/-- A heading with empty lines around it. -/
def heading (l : Listing) (title : Bytes) : Bytes :=
  endLine [] ++ (if title = [] then [] else l.styled "1" (endLine title)) ++
    endLine []

/-- A line of column titles. -/
def columnTitles (l : Listing) (titles : String) : Bytes :=
  l.styled "1" (endLine (bytes titles))

/-- The last five hexadecimal digits of an address. -/
def shortAddress (n : Int64) : Bytes := hexField 5 (n.toInt % 0x100000)

/-- The location of a record, blank if it has none worth showing. -/
def locationField (r : Record) : Bytes :=
  let shown : Bool := match r.body with
    | .instruction .. | .storage _ | .pool _ => true
    | .located => decide (r.sectionId ≠ 0) &&
      decide (r.directive ≠ some .ending)
    | _ => false
  if shown then hexField 6 r.loc.toInt else gap 6

/-- An address, or the value of an equate, in its column. -/
def addressField (address : Option Int64) : Bytes :=
  match address with
  | some n => shortAddress n
  | none => gap 5

/-- What stands in the column of second addresses. -/
def secondColumn (r : Record) : Option Int64 :=
  match r.secondAddress, r.body with
  | some n, _ => some n
  | none, .equate value _ => some value.number
  | none, _ => none

/-- Code in hexadecimal; that of instructions in groups of two octets. -/
def objectField (r : Record) (data : Bytes) : Bytes :=
  match r.body with
  | .instruction .. => Bytes.join [blank] ((Deck.chunks 2 data).map hexDump)
  | _ => hexDump data

/-- The lines of the source, the first with everything known about it. -/
def sourceLines (r : Record) (number : Nat) : Bytes :=
  let object := (r.object.getD []).take objectPerLine
  match r.statement.lines with
  | [] => []
  | first :: rest =>
    endLine
      (locationField r ++ [blank] ++
        Bytes.padRight 16 blank (objectField r object) ++ [blank] ++
        addressField r.firstAddress ++ gap 2 ++
          addressField (secondColumn r) ++ gap 2 ++
        rightNumber 5 number ++ gap 2 ++ first) ++
      rest.flatMap fun line => endLine (gap 44 ++ line)

/-- Further lines of code from an offset on. -/
def objectLines (r : Record) (offset : Nat) : List Bytes → Bytes
  | [] => []
  | data :: rest =>
    endLine (hexField 6 (r.loc + Int64.ofNat offset).toInt ++ [blank] ++
      Bytes.padRight 16 blank (objectField r data)) ++
      objectLines r (offset + objectPerLine) rest

/-- The diagnostics of a line. -/
def diagnosticLines (l : Listing) (diagnostics : List Diagnostic)
    (line : Nat) : Bytes :=
  (diagnostics.filter (·.cursor.line = line)).flatMap fun d =>
    l.styled (if d.severity.rank < Severity.warning.rank then
      "1;30" else "1;31")
      (endLine (bytes "** " ++ d.code ++ [blank] ++ d.message))

/-- How far a listing has got: statements counted, and lines whose diagnostics
are printed. -/
structure Progress where
  number : Nat := 0
  printed : List Nat := []
  deriving DecidableEq, Repr

/-- The diagnostics of lines that were not printed before. -/
def newDiagnostics (l : Listing) (diagnostics : List Diagnostic)
    (p : Progress) :
    List Nat → Bytes × Progress
  | [] => ([], p)
  | line :: rest =>
    if line ∈ p.printed then l.newDiagnostics diagnostics p rest
    else
      let (others, q) := l.newDiagnostics diagnostics
        { p with printed := line :: p.printed } rest
      (l.diagnosticLines diagnostics line ++ others, q)

/-- The lines of a record that has source lines. -/
def sourceRecord (l : Listing) (diagnostics : List Diagnostic) (p : Progress)
    (r : Record) :
    Bytes × Progress :=
  let number := p.number + 1
  let more := Deck.chunks objectPerLine ((r.object.getD []).drop objectPerLine)
  let lines := (List.range r.statement.lines.length).map (r.statement.line + ·)
  let (problems, p) := l.newDiagnostics diagnostics { p with number } lines
  (sourceLines r number ++ objectLines r objectPerLine more ++ problems, p)

/-- The line of a literal in a pool. -/
def literalLine (r : Record) (number : Nat) (literal : Literal) : Bytes :=
  let address := (literal.place.map (·.address)).getD 0
  let offset := address - r.loc
  let object := r.object.getD []
  let inside : Bool := 0 ≤ offset.toInt && offset.toInt + literal.length ≤
    object.length
  let data :=
    if inside then (object.drop offset.toInt.toNat).take literal.length else []
  endLine
    (hexField 6 address.toInt ++ [blank] ++
      Bytes.padRight 16 blank (hexDump (data.take objectPerLine)) ++ gap 15 ++
      rightNumber 5 number ++ gap 2 ++ literal.text)

/-- The lines of the literals of a pool. -/
def literalLines (r : Record) (number : Nat) : List Literal → Bytes
  | [] => []
  | literal :: rest => literalLine r (number + 1) literal ++
    literalLines r (number + 1) rest

/-- The lines of a record.  Literals placed by the end statement come before
it. -/
def recordLines (l : Listing) (a : Assembly) (p : Progress) (r : Record) :
    Bytes × Progress :=
  match r.body with
  | .pool ids =>
    let (source, p) :=
      if r.statement.mnemonic = bytes "END" then ([], p) else
        l.sourceRecord a.diagnostics p r
    let literals := ids.filterMap fun id => a.literals.literals[id]?
    (source ++ literalLines r p.number literals,
      { p with number := p.number + literals.length })
  | _ => l.sourceRecord a.diagnostics p r

/-- The lines of records. -/
def programLines (l : Listing) (a : Assembly) (p : Progress) :
    List Record → Bytes × Progress
  | [] => ([], p)
  | r :: rest =>
    let (lines, p) := l.recordLines a p r
    let (others, p) := l.programLines a p rest
    (lines ++ others, p)

/-- The diagnostics of lines that no statement has. -/
def remainingDiagnostics (l : Listing) (a : Assembly) (p : Progress) : Bytes :=
  let lines :=
    ((a.diagnostics.map (·.cursor.line)).eraseDups).filter (· ∉ p.printed)
  (sortByKey (fun line : Nat => (line : Int)) lines).flatMap
    (l.diagnosticLines a.diagnostics)

/-- The line of an external symbol. -/
def externalLine (s : Deck.Symbol) : Bytes :=
  let isEntry := s.type = .entry
  let isSection := s.type = .control ∨ s.type = .unnamed
  endLine
    (Utf8.padRight 8 s.name ++ gap 2 ++
      Utf8.padRight 2 s.type.name ++ [blank] ++
      (if isEntry then gap 4 else rightNumber 4 s.id) ++ gap 2 ++
        hexField 6 s.address.toInt ++
      gap 2 ++ (if isSection then hexField 6 s.length.toInt ++ gap 2 else
        gap 8) ++ [blank] ++
      (if isEntry then rightNumber 5 s.owner else gap 5) ++ gap 2 ++
      Utf8.padRight 5 s.addressingMode ++ [blank] ++
        Utf8.padRight 5 s.residenceMode)

/-- The table of external symbols. -/
def externalTable (l : Listing) (m : Deck.Module) : Bytes :=
  l.heading (bytes "External Symbol Dictionary") ++
    l.columnTitles "SYMBOL   TYPE  ID  ADDRESS  LENGTH  LD ID  AMODE RMODE" ++
    m.symbols.flatMap externalLine

/-- References from the `i`-th on, eight to a line. -/
def referenceFields (i : Nat) : List Reference → Bytes
  | [] => []
  | r :: rest =>
    (if 0 < i ∧ i % referencesPerLine = 0 then endLine [] ++ gap 50 else
      []) ++ [blank] ++
      rightNumber 4 r.line ++ [r.usage.letter] ++ referenceFields (i + 1) rest

/-- The letter of a class of values. -/
def classLetter : Value.Class → Bytes
  | .absolute => bytes "A"
  | .relocatable => bytes "R"
  | .complex => bytes "C"

/-- The line of a symbol. -/
def symbolLine (s : Symbol) : Bytes :=
  let name := Utf8.padRight 8 s.name
  let described := match s.definition with
    | none => name ++ bytes " ****UNDEFINED****"
    | some d =>
      name ++ [blank] ++ rightNumber 6 d.length.toInt ++ gap 2 ++
        hexField 8 (d.value.number.toInt % 0x100000000) ++ gap 2 ++
          rightNumber 3 d.value.sectionId ++
        gap 2 ++ classLetter d.value.classify ++ gap 2 ++
        Utf8.padRight 4 (Utf8.encode d.kind.toNat) ++ gap 2 ++
          rightNumber 4 d.line ++ [blank]
  endLine (described ++ referenceFields 0 s.references)

/-- The table of all symbols. -/
def symbolTable (l : Listing) (t : SymbolTable) : Bytes :=
  l.heading (bytes "Ordinary Symbol and Literal Cross Reference") ++
    l.columnTitles
      "SYMBOL   LENGTH   VALUE     ID  R  TYPE  DEFN  REFERENCES" ++
    t.sorted.flatMap symbolLine

/-- The severities that problems have, from the mildest to the worst. -/
def severities : List Severity :=
  [.informational, .notify, .warning, .error, .severe]

/-- How many problems there are of each severity, and what came out in the
end. -/
def summary (l : Listing) (a : Assembly) (number : Nat) : Bytes :=
  let counts := severities.flatMap fun s =>
    let count := a.diagnostics.countP (·.severity = s)
    if count = 0 then [] else endLine (rightNumber 6 count ++ [blank] ++ s.name)
  l.heading (bytes "Diagnostic Summary") ++ counts ++
    endLine
      (rightNumber 6 number ++ bytes " statements, " ++ decimal a.size.toInt ++
        bytes " bytes, highest severity " ++ a.severity.name ++
          bytes ", return code " ++
        decimal a.returnCode) ++
    if a.deck?.isNone then
      l.styled "1;31" (endLine (bytes "No object deck produced")) else []

/-- The text of the listing of an assembly. -/
def render (l : Listing) (a : Assembly) : Bytes :=
  let (program, p) := l.programLines a {} a.records
  l.heading l.title ++
    l.columnTitles
      "  LOC   OBJECT CODE      ADDR1  ADDR2   STMT  SOURCE STATEMENT" ++
      program ++
    l.remainingDiagnostics a p ++
    (match a.module? with
      | some m => l.externalTable m
      | none => []) ++
    (if l.crossReference then l.symbolTable a.symbols else []) ++
      l.summary a p.number

end Listing

end System370
