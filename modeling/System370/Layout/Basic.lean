import System370.Constant.Parse
import System370.LiteralPool
import System370.Options.Basic
import System370.Record

/-!
# The layout of a program

Laying a program out goes through the statements once.  It gives every statement
its place and its size, defines the labels, collects the literals and reports
what is wrong.  What is generated later fits exactly into the places given here.

`Layout` is the state between statements, and a `Draft` is that state together
with the record of the statement at hand.  The operations of this file are the
steps that the rules for single statements are made of.
-/

namespace System370

/-- The modes that statements ask for, empty where none does. -/
structure Modes where
  addressing : Bytes := []
  residence : Bytes := []
  deriving DecidableEq, Repr

/-- What is known between two statements. -/
structure Layout where
  symbols : SymbolTable := {}
  literals : LiteralPool
  diagnostics : List Diagnostic := []
  /-- The modes of sections, by label. -/
  modes : List (Bytes × Modes) := []
  /-- Where the names for other assemblies were first offered. -/
  entryCursors : List (Bytes × Cursor) := []
  deckId : Bytes
  /-- Whether the end statement was met. -/
  ended : Bool := false
  /-- Whether statements behind the end were reported. -/
  afterEnd : Bool := false
  /-- Whether the conversion of a constant never came to an end.  The statements
  behind that constant are then never reached. -/
  endless : Bool := false
  deriving DecidableEq, Repr

namespace Layout

/-- The state before the first statement. -/
def new (options : Options) : Layout where
  literals := { limit := options.literalLimit.toInt }
  deckId := toUpper options.deckId

/-- Reports a problem. -/
def report (l : Layout) (d : Diagnostic) : Layout :=
  { l with diagnostics := l.diagnostics ++ [d] }

end Layout

/-- A record in the making. -/
structure Draft where
  layout : Layout
  record : Record
  deriving DecidableEq, Repr

namespace Draft

/-- The statement at hand. -/
def statement (d : Draft) : Statement := d.record.statement

/-- Reports a problem of the statement. -/
def report (d : Draft) (cursor : Cursor) (problem : Problem) : Draft where
  layout := d.layout.report ⟨cursor, problem⟩
  record :=
    { d.record with errored := d.record.errored || problem.severity.isError }

/-- Changes the symbol table. -/
def mapSymbols (d : Draft) (f : SymbolTable → SymbolTable) : Draft :=
  { d with layout := { d.layout with symbols := f d.layout.symbols } }

/-- Records that the statement reads symbols. -/
def reference (d : Draft) (names : List Bytes) : Draft :=
  d.mapSymbols fun t =>
    names.foldl (fun t name => t.reference name ⟨d.statement.line, .plain⟩) t

/-- The current section. -/
def currentSection? (d : Draft) : Option Section :=
  d.layout.symbols.currentSection?

/-- The location counter, zero outside any section. -/
def loc (d : Draft) : Int64 := (d.currentSection?.map (·.loc)).getD 0

/-- Places the record at the location counter, if there is a section. -/
def locate (d : Draft) : Draft :=
  match d.currentSection? with
  | some s =>
    { d with record := { d.record with sectionId := s.id, loc := s.loc } }
  | none => d

/-- Places the record at the location counter.  The first statement that needs a
section opens the unnamed one. -/
def ensureSection (d : Draft) : Draft :=
  match d.currentSection? with
  | some _ => d.locate
  | none =>
    match d.layout.symbols.openSection [] .unnamed d.statement.line with
    | .ok t => (d.mapSymbols fun _ => t).locate
    | .error _ => d

/-- Moves the location counter. -/
def setLoc (d : Draft) (loc : Int64) : Draft := d.mapSymbols (·.setLoc loc)

/-- Gives the record another body. -/
def withBody (d : Draft) (body : Record.Body) : Draft :=
  { d with record := { d.record with body } }

/-- Gives the record another location. -/
def withLoc (d : Draft) (loc : Int64) : Draft :=
  { d with record := { d.record with loc } }

/-- Gives a name a meaning, or reports that it already has one. -/
def define (d : Draft) (name : Bytes) (definition : Definition) : Draft :=
  match d.layout.symbols.define name definition with
  | .ok t => d.mapSymbols fun _ => t
  | .error _ => d.report d.statement.labelCursor (.redeclaredLabel name)

/-- Defines the label of the statement, if it has one, as a place in the section
of the record. -/
def defineLabel (d : Draft) (loc length : Int64) (kind : UInt8) : Draft :=
  if d.record.label = [] then d
  else
    let place : Expression.Place := ⟨d.record.sectionId, loc, 1⟩
    d.define d.record.label ⟨place.value, length, kind, d.statement.line⟩

/-- The letter of a label that names no data. -/
def plainKind : UInt8 := octet 'U'

/-- Defines the label of the statement as a place of length one. -/
def defineMark (d : Draft) (loc : Int64) : Draft :=
  d.defineLabel loc 1 plainKind

/-- The greatest length of a label. -/
def maxLabel : Nat := 8

/-- The position of the first octet that may not stand in a label. -/
def badLabelChar? (label : Bytes) : Option Nat :=
  match label with
  | [] => none
  | c :: rest =>
    if isSymbolStart c then
      (rest.findIdx? (!isSymbolChar ·)).map (· + 1) else some 0

/-- Whether a text is a symbol. -/
def isSymbol (name : Bytes) : Bool :=
  name ≠ [] && decide (name.length ≤ maxLabel) && (badLabelChar? name).isNone

/-- Takes the label over into the record, unless it is malformed. -/
def checkLabel (d : Draft) : Draft :=
  let label := d.statement.label
  match badLabelChar? label with
  | some i =>
    d.report (d.statement.labelCharCursor i)
      (.unexpectedCharacter (label.getD i 0))
  | none =>
    if maxLabel < label.length then
      d.report d.statement.labelCursor (.oversizedLabel maxLabel label.length)
    else { d with record := { d.record with label := toUpper label } }

/-- Evaluates an expression of the statement and records what it reads. -/
def evaluate (d : Draft) (text : Bytes) :
    Except Problem Expression.Result × Draft :=
  let outcome := Expression.evaluate d.layout.symbols d.record.place text
  (outcome.result, d.reference outcome.names)

/-- Evaluates an absolute expression of the statement and records what it
reads. -/
def absolute (d : Draft) (text : Bytes) : Except Problem Int64 × Draft :=
  let outcome := Expression.absolute d.layout.symbols d.record.place text
  (outcome.result, d.reference outcome.names)

/-- Parses a constant of the statement and records what its expressions read. -/
def parseConstant (d : Draft) (text : Bytes) :
    Except Problem Constant.Descriptor × Draft :=
  let outcome :=
    Constant.parse (Expression.absolute d.layout.symbols d.record.place) text
  let result := match outcome.result with
    | .ok descriptor => .ok descriptor
    | .error (.expression problem) => .error problem
    | .error (.constant cause) => .error (.invalidConstant cause)
  (result, d.reference outcome.names)

end Draft

end System370
