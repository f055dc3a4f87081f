import System370.Generation.Basic

/-!
# Generating constants

Data constants have their octets already.  Address constants are evaluated item
by item, each with the location counter at its own place.  What they name in
control sections or outside the assembly is left for the linker: one relocation
for each time that a target is added or subtracted.
-/

namespace System370

namespace Generate

/-- Leaves an address field for the linker. -/
def relocate (r : Deck.Relocation) : Generate Unit :=
  modifyThe Generation fun g => { g with relocations := g.relocations ++ [r] }

/-- The relocations that a term of a value in a field asks for, one for each
time the target counts.  Dummy sections ask for none. -/
def termRelocations (t : SymbolTable) (place : Expression.Place) (length : Nat)
    (term : Term) :
    List Deck.Relocation :=
  if term.target.sectionId < 0 then []
  else
    let count := if term.sign < 0 then -term.sign else term.sign
    List.replicate count.toInt.toNat
      { position := place.sectionId
        target := t.linkId term.target
        address := place.loc
        length
        action := if term.sign < 0 then .subtract else .add }

/-- An item that is a number or an address. -/
def addressItem (place : Expression.Place) (cursor : Cursor) (v : Value)
    (length : Nat) :
    Generate Bytes := do
  if Field.fits v.number (Int64.ofNat length) = false then
    report cursor (.oversizedValue length v.number.toInt)
    return List.replicate length 0
  if 0 < place.sectionId then
    let t := (← getThe Generation).symbols
    (v.terms.flatMap (termRelocations t place length)).forM relocate
  return Field.put length v.number.toInt

/-- An item that is the address of an external name.  A name that a section of
this assembly has is the base of the section. -/
def externalItem (place : Expression.Place) (line : Int) (name : Bytes)
    (length : Nat) :
    Generate Bytes := do
  reference line .plain [name]
  let t := (← getThe Generation).symbols
  match t.external? name with
  | none => return List.replicate length 0
  | some e =>
    if place.sectionId ≤ 0 then return List.replicate length 0
    let isLocal := e.sectionId ≠ 0
    relocate
      { position := place.sectionId
        target := e.id
        address := place.loc
        length
        action := if isLocal then .add else .store }
    return if isLocal then Field.put length (t.offset e.sectionId).toInt
      else List.replicate length 0

/-- An item that is a base register and a displacement. -/
def baseItem (cursor : Cursor) (v : Value) (length : Nat) : Generate Bytes := do
  match ← resolve v with
  | .ok choice => return baseDisplacement choice
  | .error problem =>
    report cursor problem
    return List.replicate length 0

/-- One item of an address constant. -/
def item (kind : Constant.Kind) (place : Expression.Place) (line : Int)
    (cursor : Cursor) (nominal : Bytes) (length : Nat) : Generate Bytes := do
  if kind = .externalAddress then
    externalItem place line (toUpper nominal) length
  else
    match ← evaluateAt place line .plain nominal with
    | .error problem =>
      report cursor problem
      return List.replicate length 0
    | .ok result =>
      if kind = .baseDisplacement then baseItem cursor result.value length
      else addressItem place cursor result.value length

/-- Items one behind the other from a location on. -/
def items (kind : Constant.Kind) (sectionId : Int) (line : Int)
    (cursor : Cursor) :
    Int64 → List (Bytes × Nat) → Generate Bytes
  | _, [] => return []
  | loc, (nominal, length) :: rest => do
    let data ← item kind ⟨sectionId, loc, 1⟩ line cursor nominal length
    return data ++
      (← items kind sectionId line cursor (loc + Int64.ofNat length) rest)

/-- The octets of a constant at a location. -/
def constantOctets (d : Constant.Descriptor) (loc : Int64) (line : Int)
    (cursor : Cursor) :
    Generate Bytes := do
  if d.kind.isAddress then
    let copies := (List.replicate d.dup (d.nominal.zip d.lengths)).flatten
    items d.kind (← getThe Record).sectionId line cursor loc copies
  else
    match d.encode with
    | .ok data => return data
    | .error cause =>
      report cursor (.invalidConstant cause)
      return []

/-- Constants at their offsets in otherwise zero octets.  There have to be
octets up to every offset. -/
def assembleParts (length : Int64) (parts : List (Int64 × Bytes)) :
    Except StorageFault Bytes :=
  if length < 0 ∨ parts.any fun part => part.1 < 0 ∨ length < part.1 then
    .error .noOctet
  else .ok (parts.foldl
    (fun octets part => Arena.overlay part.1.toInt.toNat part.2 octets)
    (List.replicate length.toInt.toNat 0))

/-- The constants of a storage statement, each with its offset. -/
def storageParts (parts : List (Constant.Descriptor × Int64)) :
    Generate (List (Int64 × Bytes)) := do
  let r ← getThe Record
  let s := r.statement
  parts.zipIdx.mapM fun ((d, offset), i) => do
    let data ← constantOctets d (r.loc + offset) s.line (s.operandCursor i)
    return (offset, data)

/-- The constants of a pool of literals, each with its offset. -/
def poolParts (ids : List Nat) : Generate (List (Int64 × Bytes)) := do
  let r ← getThe Record
  let pool := (← getThe Generation).literals
  (ids.filterMap fun id => pool.literals[id]?).mapM fun literal => do
    let address := (literal.place.map (·.address)).getD 0
    match literal.descriptor with
    | none => return (0, [])
    | some d =>
      let data ← constantOctets d address literal.line
          r.statement.mnemonicCursor
      return (address - r.loc, data)

/-- Sets the code of the record, which constants make up. -/
def emitParts (parts : List (Int64 × Bytes)) : Generate Unit := do
  match assembleParts (← getThe Record).length parts with
  | .ok data => emit data
  | .error e => fail e

end Generate

end System370
