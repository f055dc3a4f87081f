import System370.Field
import System370.Value

/-!
# Sections, symbols and external names

The table of an assembly.  Control sections are numbered from one in the order
of their first appearance, dummy sections from minus one downwards.  One section
is current; it has a location counter, and its length is the highest location
reached.  A symbol exists from its first reference or its definition on, and is
defined at most once.

When all sections are known, `SymbolTable.normalize` lays the control sections
out one behind the other, each from a doubleword boundary, moves every symbol
along with its section and numbers the external names behind the sections.

* `SymbolTable.openSection` starts or resumes a section;
* `SymbolTable.define`, `reference`, `declareExternal`, `referenceExternal` and
  `addEntry` record what the source says about names;
* `SymbolTable.relocate` moves a value by the bases of its sections.
-/

namespace System370

/-- How a section is linked. -/
inductive SectionKind where
  | named
  | unnamed
  | dummy
  deriving DecidableEq, Repr

/-- A control section or a dummy section. -/
structure Section where
  id : Int
  label : Bytes
  kind : SectionKind
  /-- The highest location reached. -/
  length : Int64 := 0
  /-- The location counter. -/
  loc : Int64 := 0
  /-- The address of the section in the module. -/
  base : Int64 := 0
  /-- Whether the section was resumed. -/
  continued : Bool := false
  line : Int
  deriving DecidableEq, Repr

namespace Section

/-- Moves the location counter. -/
def setLoc (s : Section) (loc : Int64) : Section :=
  { s with loc, length := if s.length < loc then loc else s.length }

/-- Takes the location counter into the length. -/
def freeze (s : Section) : Section := s.setLoc s.loc

/-- Goes on at the highest location reached. -/
def resume (s : Section) : Section :=
  { s with continued := true, loc := s.length }

end Section

/-- What a statement does with a symbol it names, by its letter in the
cross-reference. -/
structure Usage where
  letter : UInt8
  deriving DecidableEq, Repr

namespace Usage

/-- The symbol is only read. -/
def plain : Usage := ⟨blank⟩

/-- The storage at the symbol changes. -/
def modify : Usage := ⟨octet 'M'⟩

/-- The symbol is the target of a branch. -/
def branch : Usage := ⟨octet 'B'⟩

/-- The symbol describes a base register. -/
def base : Usage := ⟨octet 'U'⟩

/-- The symbol names a base register that is given up. -/
def drop : Usage := ⟨octet 'D'⟩

/-- The symbol is the target of an execution. -/
def execute : Usage := ⟨octet 'X'⟩

end Usage

/-- A use of a symbol. -/
structure Reference where
  line : Int
  usage : Usage
  deriving DecidableEq, Repr

/-- The meaning of a symbol. -/
structure Definition where
  value : Value
  /-- The length attribute. -/
  length : Int64
  /-- The letter of the statement that defines it. -/
  kind : UInt8
  line : Int
  deriving DecidableEq, Repr

/-- The letter of a symbol that names a section. -/
def Definition.sectionKind : UInt8 := 0x4A

/-- The letter of an external symbol. -/
def Definition.externalKind : UInt8 := 0x54

/-- A name that the source defines or uses. -/
structure Symbol where
  name : Bytes
  definition : Option Definition := none
  references : List Reference := []
  deriving DecidableEq, Repr

/-- The section of a defined symbol, zero if there is none. -/
def Symbol.sectionId (s : Symbol) : Int :=
  match s.definition with
  | some d => d.value.sectionId
  | none => 0

/-- A name from outside the assembly. -/
structure ExternalName where
  name : Bytes
  weak : Bool
  line : Int
  /-- The number that relocations use. -/
  id : Int := 0
  /-- The section of this assembly that has the name, zero if none has. -/
  sectionId : Int := 0
  deriving DecidableEq, Repr

/-- A name for other assemblies. -/
structure EntryName where
  name : Bytes
  line : Int
  deriving DecidableEq, Repr

/-- A name that already has a meaning. -/
structure DuplicateDefinition where
  name : Bytes
  /-- The line of the first definition. -/
  line : Int
  deriving DecidableEq, Repr

/-- The text of the failure. -/
def DuplicateDefinition.message (e : DuplicateDefinition) : Bytes :=
  bytes "'" ++ e.name ++ bytes "' was already defined on line " ++
    decimal e.line

/-- The sections and names of an assembly. -/
structure SymbolTable where
  /-- Control sections; the section at position `i` has the number `i + 1`. -/
  sections : List Section := []
  /-- Dummy sections; the section at position `i` has the number `-(i + 1)`. -/
  dummies : List Section := []
  /-- Symbols in order of their first appearance, no two of one name. -/
  symbols : List Symbol := []
  externals : List ExternalName := []
  entries : List EntryName := []
  /-- The number of the current section. -/
  current : Option Int := none
  normalized : Bool := false
  deriving DecidableEq, Repr

namespace SymbolTable

/-- The section of a number. -/
def section? (t : SymbolTable) (id : Int) : Option Section :=
  if 0 < id then t.sections[id.toNat - 1]?
  else if id < 0 then t.dummies[(-id).toNat - 1]?
  else none

/-- The current section. -/
def currentSection? (t : SymbolTable) : Option Section :=
  t.current.bind t.section?

/-- Changes the section of a number. -/
def modifySection (t : SymbolTable) (id : Int) (f : Section → Section) :
    SymbolTable :=
  if 0 < id then { t with sections := t.sections.modify (id.toNat - 1) f }
  else if id < 0 then { t with dummies := t.dummies.modify ((-id).toNat - 1) f }
  else t

/-- Changes the current section, if there is one. -/
def modifyCurrent (t : SymbolTable) (f : Section → Section) : SymbolTable :=
  match t.current with
  | some id => t.modifySection id f
  | none => t

/-- Moves the location counter of the current section. -/
def setLoc (t : SymbolTable) (loc : Int64) : SymbolTable :=
  t.modifyCurrent (·.setLoc loc)

/-- Takes the location counter of the current section into its length. -/
def freeze (t : SymbolTable) : SymbolTable := t.modifyCurrent Section.freeze

/-- The section of a label.  Among the unnamed sections only a control section
is found, and not for a dummy section. -/
def sectionOfLabel? (t : SymbolTable) (label : Bytes) (dummy : Bool) :
    Option Section :=
  if label = [] then
    if dummy then none else t.sections.find? (·.label = label)
  else (t.sections.find? (·.label = label)).or
    (t.dummies.find? (·.label = label))

/-- The symbol of a name. -/
def symbol? (t : SymbolTable) (name : Bytes) : Option Symbol :=
  t.symbols.find? (·.name = name)

/-- The definition of a name. -/
def definition? (t : SymbolTable) (name : Bytes) : Option Definition :=
  (t.symbol? name).bind (·.definition)

/-- The external name of a spelling. -/
def external? (t : SymbolTable) (name : Bytes) : Option ExternalName :=
  t.externals.find? (·.name = name)

/-- Changes the symbol of a name; a name without a symbol gets one behind the
others. -/
def alterSymbol (name : Bytes) (f : Symbol → Symbol) : List Symbol → List Symbol
  | [] => [f { name }]
  | s :: rest => if s.name = name then f s :: rest else
    s :: alterSymbol name f rest

/-- Gives a name a meaning. -/
def define (t : SymbolTable) (name : Bytes) (d : Definition) :
    Except DuplicateDefinition SymbolTable :=
  match t.definition? name with
  | some earlier => .error ⟨name, earlier.line⟩
  | none =>
    .ok { t with symbols :=
      alterSymbol name (fun s => { s with definition := some d }) t.symbols }

/-- Gives a defined name another value. -/
def move (t : SymbolTable) (name : Bytes) (value : Value) : SymbolTable :=
  { t with symbols := t.symbols.map fun s =>
      if s.name = name then
        { s with definition := s.definition.map fun d => { d with value } }
      else s }

/-- Records a use of a name. -/
def reference (t : SymbolTable) (name : Bytes) (r : Reference) : SymbolTable :=
  { t with
    symbols :=
      alterSymbol name (fun s => { s with references := s.references ++ [r] })
        t.symbols }

/-- All symbols in the order of their names. -/
def sorted (t : SymbolTable) : List Symbol := sortByText (·.name) t.symbols

/-- The symbols without a definition, in the order of their names. -/
def undefined (t : SymbolTable) : List Symbol :=
  t.sorted.filter (·.definition.isNone)

/-- Starts a section under the next number of its kind and makes it current. -/
def startSection (t : SymbolTable) (label : Bytes) (kind : SectionKind)
    (line : Int) :
    Except DuplicateDefinition SymbolTable :=
  let id : Int :=
    if kind = .dummy then -(t.dummies.length + 1 : Int) else
      (t.sections.length + 1 : Int)
  let opened : Section := { id, label, kind, line }
  let t := t.freeze
  let t :=
    if kind = .dummy then { t with dummies := t.dummies ++ [opened] }
    else { t with sections := t.sections ++ [opened] }
  let t := { t with current := some id }
  if label = [] then .ok t
  else t.define label ⟨Value.relocatable 0 id, 1, Definition.sectionKind, line⟩

/-- Starts a section, or resumes the one of the same label at its highest
location.  A label with another meaning is refused. -/
def openSection (t : SymbolTable) (label : Bytes) (kind : SectionKind)
    (line : Int) :
    Except DuplicateDefinition SymbolTable :=
  match t.sectionOfLabel? label (kind = .dummy) with
  | some existing =>
    if (existing.kind = .dummy) ≠ (kind = .dummy) then
      .error ⟨label, existing.line⟩
    else .ok { t.freeze.modifySection existing.id Section.resume with
      current := some existing.id }
  | none =>
    match if label = [] then none else t.definition? label with
    | some earlier => .error ⟨label, earlier.line⟩
    | none => t.startSection label kind line

/-- Changes the external name of a spelling. -/
def modifyExternal (t : SymbolTable) (name : Bytes)
    (f : ExternalName → ExternalName) :
    SymbolTable :=
  { t with externals := t.externals.map fun e => if e.name = name then f e else e }

/-- Declares an external symbol.  Declaring it again keeps it weak only if both
declarations are. -/
def declareExternal (t : SymbolTable) (name : Bytes) (weak : Bool)
    (line : Int) :
    Except DuplicateDefinition SymbolTable :=
  match t.definition? name with
  | some d =>
    if (t.external? name).isSome ∧ d.kind = Definition.externalKind then
      .ok (t.modifyExternal name fun e => { e with weak := e.weak && weak })
    else .error ⟨name, d.line⟩
  | none => do
    let t ← t.define name ⟨Value.external name, 1,
        Definition.externalKind, line⟩
    if (t.external? name).isSome then
      .ok (t.modifyExternal name fun e => { e with weak })
    else .ok { t with externals := t.externals ++ [{ name, weak, line }] }

/-- Makes sure that a name is known as external.  It may still turn out to be a
section. -/
def referenceExternal (t : SymbolTable) (name : Bytes) (line : Int) :
    SymbolTable :=
  if (t.external? name).isSome then t
  else { t with externals := t.externals ++ [{ name, weak := false, line }] }

/-- Offers a name to other assemblies, once. -/
def addEntry (t : SymbolTable) (name : Bytes) (line : Int) : SymbolTable :=
  if t.entries.any (·.name = name) then t else
    { t with entries := t.entries ++ [⟨name, line⟩] }

/-- Lays sections out from the address `base` on, each from a doubleword
boundary behind the one before. -/
def layOut (base : Int64) : List Section → List Section
  | [] => []
  | s :: rest => { s with base } :: layOut (alignUp (base + s.length) 8) rest

/-- The base of a control section, zero for any other number. -/
def offset (t : SymbolTable) (id : Int) : Int64 :=
  if 0 < id then ((t.section? id).map (·.base)).getD 0 else 0

/-- A value with the bases of its control sections added. -/
def relocate (t : SymbolTable) (v : Value) : Value :=
  { v with number :=
      v.terms.foldl (fun n term => n + term.sign *
        t.offset term.target.sectionId) v.number }

/-- Numbers external names from `next` on; a name that a control section has
gets the number of the section instead. -/
def numberExternals (t : SymbolTable) (next : Int) :
    List ExternalName → List ExternalName
  | [] => []
  | e :: rest =>
    match (t.sectionOfLabel? e.name false).filter fun s => 0 < s.id &&
      e.name ≠ [] with
    | some s => { e with id := s.id, sectionId := s.id } ::
      numberExternals t next rest
    | none => { e with id := next } :: numberExternals t (next + 1) rest

/-- Places the control sections, once.  Symbols move along with their
sections. -/
def normalize (t : SymbolTable) : SymbolTable :=
  if t.normalized then t
  else
    let t := t.freeze
    let t := { t with normalized := true, sections := layOut 0 t.sections }
    { t with
      externals := t.numberExternals (t.sections.length + 1) t.externals
      symbols := t.symbols.map fun s =>
        { s with definition :=
          s.definition.map fun d => { d with value := t.relocate d.value } } }

/-- The address behind the last control section. -/
def size (t : SymbolTable) : Int64 :=
  match t.sections.getLast? with
  | some last => last.base + last.length
  | none => 0

/-- The number by which relocations refer to a target, zero if it has none. -/
def linkId (t : SymbolTable) : Target → Int
  | .origin id => if 0 < id then id else 0
  | .external name _ => ((t.external? name).map (·.id)).getD 0

end SymbolTable

end System370
