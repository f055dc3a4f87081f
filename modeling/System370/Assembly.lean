import System370.Deck.Emitter
import System370.Generation.Program
import System370.Statement.Read

/-!
# Assemblies

An assembly reads a source, lays its statements out, generates their code and,
if nothing is worse than a warning, makes the object module and its deck.

The code is collected in a region of storage, so that later statements overwrite
earlier ones, and the texts of the module are read back from it: stretches of a
section that touch or overlap are one text.

The conversion of an infinite floating-point constant never comes to an end, and
an assembly that meets one has no result at all.

* `Workspace.run` assembles a source in a workspace, whose storage is used again
  and again;
* `assemble` assembles a source on its own.
-/

namespace System370

/-- Why an assembly has no result. -/
inductive Fatal where
  | unreadable (e : ReadError)
  /-- The assembly never comes to an end. -/
  | endless
  /-- The program does not fit into the region. -/
  | regionOverflow (required limit : Int64)
  | fault (e : StorageFault)
  deriving DecidableEq, Repr

/-- The text of the failure. -/
def Fatal.message : Fatal → Bytes
  | unreadable e => e.message
  | endless => bytes "Assembly never ends"
  | regionOverflow required limit =>
    bytes "Program needs " ++ decimal required.toInt ++
      bytes " bytes, region is " ++
      decimal limit.toInt ++ bytes " bytes"
  | fault e => e.message

/-- The result of an assembly. -/
structure Assembly where
  records : List Record
  symbols : SymbolTable
  literals : LiteralPool
  /-- In the order of their lines. -/
  diagnostics : List Diagnostic
  module? : Option Deck.Module
  /-- The cards of the deck, if there is one. -/
  deck? : Option (List Bytes)
  deckId : Bytes
  size : Int64

namespace Assembly

/-- The worst severity of the diagnostics. -/
def severity (a : Assembly) : Severity := Diagnostic.worst a.diagnostics

/-- The return code of the assembly. -/
def returnCode (a : Assembly) : Nat := a.severity.returnCode

end Assembly

/-- A stretch of generated code in a section. -/
structure Extent where
  sectionId : Int
  start : Int64
  stop : Int64
  deriving DecidableEq, Repr

namespace Extent

/-- The stretch of a run. -/
def ofRun (r : Run) : Extent :=
  ⟨r.sectionId, r.start, r.start + Int64.ofNat r.data.length⟩

/-- Joins stretches in the order of their starts: one that begins inside or
right behind the last of the same section extends it. -/
def mergeInto (last : Extent) : List Extent → List Extent
  | [] => [last]
  | e :: rest =>
    if last.sectionId = e.sectionId ∧ e.start ≤ last.stop then
      mergeInto (if last.stop < e.stop then
        { last with stop := e.stop } else last) rest
    else last :: mergeInto e rest

/-- The stretches that runs cover together. -/
def ofRuns (runs : List Run) : List Extent :=
  match sortByKey (·.start.toInt) (runs.map ofRun) with
  | [] => []
  | first :: rest => mergeInto first rest

end Extent

namespace Deck

/-- The modes of a section: those that statements ask for, otherwise those of
the options. -/
def modesOf (options : Options) (modes : List (Bytes × Modes))
    (label : Bytes) : Modes :=
  let asked := ((modes.find? (·.1 = label)).map (·.2)).getD {}
  { addressing := toUpper (if asked.addressing = [] then
    options.addressingMode else asked.addressing)
    residence := toUpper (if asked.residence = [] then
      options.residenceMode else asked.residence) }

/-- The external symbol of a control section. -/
def sectionSymbol (options : Options) (modes : List (Bytes × Modes))
    (s : Section) : Symbol :=
  let mode := modesOf options modes s.label
  { name := s.label
    type := if s.label = [] then .unnamed else .control
    id := s.id
    address := s.base
    length := s.length
    addressingMode := mode.addressing
    residenceMode := mode.residence }

/-- The external symbol of an external name, unless a section has that name. -/
def externalSymbol? (e : ExternalName) : Option Symbol :=
  if e.sectionId ≠ 0 then none
  else some { name := e.name, type := if e.weak then .weakExternal else
    .external, id := e.id }

/-- The external symbol of a name for other assemblies, if it is an address. -/
def entrySymbol? (t : SymbolTable) (e : EntryName) : Option Symbol :=
  match t.definition? e.name with
  | none => none
  | some d =>
    if d.value.sectionId ≤ 0 then none
    else some { name := e.name, type := .entry, address := d.value.number
                owner := d.value.sectionId }

/-- The external symbols of a module: sections, external names, entry points. -/
def symbolsOf (options : Options) (modes : List (Bytes × Modes))
    (t : SymbolTable) : List Symbol :=
  t.sections.map (sectionSymbol options modes) ++
    t.externals.filterMap externalSymbol? ++
    t.entries.filterMap (entrySymbol? t)

end Deck

/-- Storage for assemblies with the same options. -/
structure Workspace where
  options : Options
  arena : Arena := Arena.ofPageSize 4096
  /-- The region of the last assembly. -/
  region? : Option Region := none

namespace Workspace

/-- Stores the code of runs, later ones over earlier ones. -/
def storeRuns (region : Region) (runs : List Run) : StorageStep Unit :=
  runs.forM fun r => region.write r.start r.data

/-- The texts of stretches of storage. -/
def readTexts (region : Region) (extents : List Extent) :
    StorageStep (List Deck.Text) :=
  extents.mapM fun e => do
    return ⟨e.sectionId, e.start, ← region.read e.start (e.stop - e.start)⟩

/-- Gives the region of the last assembly back. -/
def reset (w : Workspace) : Workspace :=
  match w.region? with
  | none => w
  | some region =>
    let (_, arena) := StateT.run (ExceptT.run region.release) w.arena
    { w with arena, region? := none }

/-- What a program needs that does not fit into the region: all control sections
together, or a single dummy section. -/
def overflow? (options : Options) (t : SymbolTable) : Option Fatal :=
  if options.regionSize < t.size then
    some (.regionOverflow t.size options.regionSize)
  else (t.dummies.find? (options.regionSize < ·.length)).map fun s =>
    .regionOverflow s.length options.regionSize

/-- The module of a program whose code is stored. -/
def moduleOf (options : Options) (today : Bytes) (layout : Layout)
    (g : Generation) (text : List Deck.Text) : Deck.Module where
  deckId := layout.deckId
  symbols := Deck.symbolsOf options layout.modes g.symbols
  text := text
  relocations := g.relocations
  ending :=
    { g.ending with
      identifications :=
        [⟨options.translator, options.version, options.assemblyDate today⟩] }

/-- Stores the code of a generation, and reads the texts back if a module is
made. -/
def collect (region : Region) (g : Generation) (isClean : Bool) :
    StorageStep (List Deck.Text) := do
  storeRuns region g.runs
  if let some e := g.fault then throw e
  if isClean then readTexts region (Extent.ofRuns g.runs) else pure []

/-- Assembles a program that fits into the region.  The region stays in the
workspace, also after a fault. -/
def finish (w : Workspace) (today : Bytes) (p : Program) :
    Except Fatal Assembly × Workspace :=
  let size := p.layout.symbols.size
  match StateT.run (ExceptT.run (Region.new size)) w.arena with
  | (.error e, arena) => (.error (.fault e), { w with arena })
  | (.ok region, arena) =>
    let (records, g) := (Generation.new p).run p.records
    let g := g.checkEntries p.layout.entryCursors
    let diagnostics :=
      sortByKey (fun d : Diagnostic => (d.cursor.line : Int)) g.diagnostics
    let isClean := !(Diagnostic.worst diagnostics).isError
    match StateT.run (ExceptT.run (collect region g isClean)) arena with
    | (.error e, arena) => (.error (.fault e),
      { w with arena, region? := some region })
    | (.ok texts, arena) =>
      let module? := if isClean then
        some (moduleOf w.options today p.layout g texts) else none
      let assembly : Assembly :=
        { records, diagnostics, size, module?
          symbols := g.symbols
          literals := p.layout.literals
          deck? := module?.map (·.emit)
          deckId := p.layout.deckId }
      (.ok assembly, { w with arena, region? := some region })

/-- Assembles a source on some day. -/
def run (w : Workspace) (today source : Bytes) :
    Except Fatal Assembly × Workspace :=
  let w := w.reset
  match Statement.readAll source with
  | .error e => (.error (.unreadable e), w)
  | .ok statements =>
    let p := Program.ofStatements w.options statements
    if p.layout.endless then (.error .endless, w)
    else match overflow? w.options p.layout.symbols with
      | some fatal => (.error fatal, w)
      | none => w.finish today p

/-- Assembles sources one after the other.  The clock gives the day of each
assembly. -/
def runAll (w : Workspace) (sources : List Bytes)
    (clock : Nat → Bytes := fun _ => []) :
    List (Except Fatal Assembly) :=
  match sources with
  | [] => []
  | source :: rest =>
    let (result, w) := w.run (clock 0) source
    result :: w.runAll rest fun i => clock (i + 1)

end Workspace

/-- Assembles a source on its own. -/
def assemble (options : Options) (source : Bytes) (today : Bytes := []) :
    Except Fatal Assembly :=
  ((Workspace.mk options (Arena.ofPageSize 4096) none).run today source).1

end System370
