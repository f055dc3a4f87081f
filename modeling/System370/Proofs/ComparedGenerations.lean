import System370.Generation.Program
import System370.Proofs.ComparedPrograms
import System370.Proofs.GenerationFrame

/-!
# Two generations side by side

Generating the code of two programs that a comparison does not tell apart gives
the same code, relocations and end, and diagnostics that it does not tell apart
either.

Steps are compared by what they do to two states: `Generate.Matches` says that
two steps take states that are alike to states that are alike, with related
results.  It goes through sequences, so there is one lemma for each step of the
generation, which follows its definition.

* `Generate.matches_generate` compares two records;
* `Generation.Alike.run` compares two programs, whose records are aligned up to
  idle ones.
-/

namespace System370

variable {c : Comparison}

/-- Two states of the generation that a comparison does not tell apart. -/
structure Generation.Alike (c : Comparison) (g g' : Generation) : Prop where
  symbols : g.symbols.Alike c.line g'.symbols
  literals : g.literals.Alike c.line g'.literals
  bases : g.bases.Alike c.line g'.bases
  diagnostics : c.diagnostics g.diagnostics g'.diagnostics
  runs : g'.runs = g.runs
  relocations : g'.relocations = g.relocations
  ending : g'.ending = g.ending
  fault : g'.fault = g.fault

namespace Generate

variable {α β : Type} {rel : α → α → Prop} {rel' : β → β → Prop}

/-- Two steps that take states that are alike to states that are alike. -/
def Matches (c : Comparison) (rel : α → α → Prop) (x x' : Generate α) : Prop :=
  ∀ ⦃r r' g g'⦄, r.Alike c r' → Generation.Alike c g g' →
    rel (exec x r g).1 (exec x' r' g').1 ∧
      (exec x r g).2.1.Alike c (exec x' r' g').2.1 ∧
      Generation.Alike c (exec x r g).2.2 (exec x' r' g').2.2

theorem matches_pure {a a' : α} (h : rel a a') :
    Matches c rel (pure a) (pure a') :=
  fun _ _ _ _ hr hg => ⟨h, hr, hg⟩

theorem matches_same (a : α) : Matches c Eq (pure a) (pure a) :=
  matches_pure rfl

/-- Two runs that match go on with runs that match. -/
theorem matches_bind {x x' : Generate α} {f f' : α → Generate β}
    (hx : Matches c rel x x')
    (hf : ∀ a a', rel a a' → Matches c rel' (f a) (f' a')) :
    Matches c rel' (x >>= f) (x' >>= f') := by
  intro r r' g g' hr hg
  obtain ⟨hresult, hrecord, hstate⟩ := hx hr hg
  exact hf _ _ hresult hrecord hstate

/-- A step whose result is the same, and what follows it. -/
theorem matches_then {x x' : Generate α} {f f' : α → Generate β}
    (hx : Matches c Eq x x') (hf : ∀ a, Matches c rel' (f a) (f' a)) :
    Matches c rel' (x >>= f) (x' >>= f') :=
  matches_bind hx fun a _ heq => heq ▸ hf a

/-- The records of the two runs are alike. -/
theorem matches_record :
    Matches c (Record.Alike c) (getThe Record) (getThe Record) :=
  fun _ _ _ _ hr hg => ⟨hr, hr, hg⟩

/-- The states of the two runs are alike. -/
theorem matches_generation :
    Matches c (Generation.Alike c) (getThe Generation) (getThe Generation) :=
  fun _ _ _ _ hr hg => ⟨hg, hr, hg⟩

theorem matches_statement : Matches c c.statements statement statement :=
  fun _ _ _ _ hr hg => ⟨hr.statement, hr, hg⟩

/-- A change that keeps states alike. -/
theorem matches_modifyGeneration {f f' : Generation → Generation}
    (hf : ∀ {g g'}, Generation.Alike c g g' →
      Generation.Alike c (f g) (f' g')) :
    Matches c Eq (modifyThe Generation f) (modifyThe Generation f') :=
  fun _ _ _ _ hr hg => ⟨rfl, hr, hf hg⟩

/-- A change that keeps records alike. -/
theorem matches_modifyRecord {f f' : Record → Record}
    (hf : ∀ {r r'}, Record.Alike c r r' → Record.Alike c (f r) (f' r')) :
    Matches c Eq (modifyThe Record f) (modifyThe Record f') :=
  fun _ _ _ _ hr hg => ⟨rfl, hf hr, hg⟩

theorem matches_fail (e : StorageFault) : Matches c Eq (fail e) (fail e) :=
  matches_modifyGeneration fun hg => { hg with fault := rfl }

theorem matches_forM {f f' : α → Generate Unit}
    (items : List α) (hf : ∀ a, Matches c Eq (f a) (f' a)) :
    Matches c Eq (items.forM f) (items.forM f') := by
  induction items with
  | nil => exact matches_same ()
  | cons a rest ih => exact matches_then (hf a) fun _ => ih

theorem matches_mapM {items items' : List α}
    {f f' : α → Generate β} (hitems : List.Forall₂ rel items items')
    (hf : ∀ a a', rel a a' → Matches c Eq (f a) (f' a')) :
    Matches c Eq (items.mapM f) (items'.mapM f') := by
  induction hitems with
  | nil => exact matches_same []
  | cons ha _ ih =>
      rw [List.mapM_cons, List.mapM_cons]
      exact matches_then (hf _ _ ha) fun _ => matches_then ih fun _ =>
        matches_same _

/-! ### Evaluating -/

/-- A diagnostic: the cursors correspond, and the problems do but for their
lines. -/
theorem matches_report {x x' : Cursor} (hx : c.cursors x x')
    {p p' : Problem} (hp : p'.mapLine c.line = p.mapLine c.line) :
    Matches c Eq (report x p) (report x' p') := by
  have hseverity : p'.severity = p.severity := by
    rw [← p'.severity_mapLine c.line, hp, p.severity_mapLine]
  refine matches_then (matches_modifyGeneration fun hg => ?_) fun _ =>
    matches_modifyRecord fun hr => ?_
  · exact { hg with diagnostics := c.report hg.diagnostics hx hp }
  · exact { hr with errored := by rw [hr.errored, hseverity] }

/-- References are noted on lines that correspond. -/
theorem matches_reference {line line' : Int}
    (hline : c.line line' = c.line line) (usage : Usage) (names : List Bytes) :
    Matches c Eq (reference line usage names) (reference line' usage names) :=
  matches_modifyGeneration fun hg =>
    { hg with symbols :=
      hg.symbols.referenceAll names (by simp [Reference.mapLine, hline]) }

/-- An expression has the same value, as symbols have. -/
theorem matches_evaluateAt (place : Expression.Place) {line line' : Int}
    (hline : c.line line' = c.line line) (usage : Usage) (text : Bytes) :
    Matches c Eq (evaluateAt place line usage text)
      (evaluateAt place line' usage text) := by
  refine matches_bind matches_generation fun g g' hg => ?_
  rw [hg.symbols.evaluate]
  exact matches_then (matches_reference hline _ _) fun _ => matches_same _

theorem matches_evaluate (usage : Usage) (text : Bytes) :
    Matches c Eq (evaluate usage text) (evaluate usage text) := by
  refine matches_bind matches_record fun r r' hr => ?_
  rw [hr.place]
  exact matches_evaluateAt _ (c.lines hr.statement) _ _

theorem matches_absolute (usage : Usage) (text : Bytes) :
    Matches c Eq (absolute usage text) (absolute usage text) := by
  refine matches_bind matches_record fun r r' hr =>
    matches_bind matches_generation fun g g' hg => ?_
  rw [hr.place, hg.symbols.absolute]
  exact matches_then (matches_reference (c.lines hr.statement) _ _) fun _ =>
    matches_same _

/-- The same register, or the same complaint. -/
theorem matches_register (usage : Usage) (text : Bytes) :
    Matches c Eq (register usage text) (register usage text) := by
  refine matches_then (matches_absolute usage text) fun outcome => ?_
  split
  · exact matches_same _
  · split <;> exact matches_same _

/-- The choice of a base register reads the domains, which are alike. -/
theorem matches_resolve (v : Value) : Matches c Eq (resolve v) (resolve v) := by
  unfold resolve
  extract_lets search
  have hsearch : ∀ sectionId,
      Matches c Eq (search sectionId) (search sectionId) := by
    intro sectionId
    refine matches_bind matches_generation fun g g' hg => ?_
    have hsame := g'.bases.resolve_mapLines c.line v.number sectionId
    rw [show g'.bases.mapLines c.line = g.bases.mapLines c.line from hg.bases,
      BaseRegisters.resolve_mapLines, Prod.mk.injEq] at hsame
    simp only
    rw [← hsame.1]
    refine matches_then (matches_modifyGeneration fun h =>
      { h with bases := hsame.2.symm }) fun _ => ?_
    split <;> exact matches_same _
  split
  · split
    · exact matches_same _
    · exact hsearch 0
  · split
    · exact matches_same _
    · exact hsearch _
  · exact matches_same _

/-- The same octets are emitted. -/
theorem matches_emit (data : Bytes) : Matches c Eq (emit data) (emit data) := by
  intro r r' g g' hr hg
  rw [exec_emit, exec_emit]
  refine ⟨rfl, { hr with object := rfl }, ?_⟩
  simp only [hr.sectionId, hr.loc]
  split
  · exact { hg with runs := by rw [hg.runs] }
  · exact hg

/-! ### Instructions -/

/-- The value in parentheses is the same. -/
theorem matches_innerValue (kind : Inner) (parts : List Bytes) :
    Matches c Eq (innerValue kind parts) (innerValue kind parts) := by
  unfold innerValue
  split
  · exact matches_same _
  · exact matches_same _
  · split
    · exact matches_same _
    · split
      · refine matches_then (matches_register _ _) fun outcome => ?_
        split <;> exact matches_same _
      · refine matches_then (matches_absolute _ _) fun outcome => ?_
        split <;> exact matches_same _

theorem matches_explicitBase (operand : StorageOperand) (v : Value)
    (text : Bytes) :
    Matches c Eq (explicitBase operand v text)
      (explicitBase operand v text) := by
  refine matches_then (matches_register _ _) fun outcome => ?_
  split
  · exact matches_same _
  · simp only
    split
    · exact matches_same _
    · split <;> exact matches_same _

theorem matches_implicitBase (operand : StorageOperand) (v : Value) :
    Matches c Eq (implicitBase operand v) (implicitBase operand v) := by
  refine matches_then (matches_resolve v) fun outcome => ?_
  split <;> exact matches_same _

theorem matches_expressionOperand (kind : Inner) (usage : Usage)
    (text : Bytes) :
    Matches c Eq (expressionOperand kind usage text)
      (expressionOperand kind usage text) := by
  unfold expressionOperand
  simp only
  generalize (if kind = Inner.base then 1 else 2) = allowed
  split
  · exact matches_same _
  · refine matches_then (matches_evaluate _ _) fun outcome => ?_
    split
    · exact matches_same _
    · refine matches_then (matches_innerValue _ _) fun inner => ?_
      split
      · exact matches_same _
      · split
        · exact matches_explicitBase _ _ _
        · exact matches_implicitBase _ _

/-- Literals of the same number only differ in their lines. -/
theorem literal?_alike {p p' : LiteralPool} (h : p.Alike c.line p') (id : Nat) :
    p'.literals[id]?.map (·.mapLine c.line) =
      p.literals[id]?.map (·.mapLine c.line) := by
  rw [← LiteralPool.getElem?_mapLines,
    show p'.mapLines c.line = p.mapLines c.line from h,
    LiteralPool.getElem?_mapLines]

/-- The bound literals of corresponding operands only differ in their lines. -/
theorem boundLiteral?_alike {r r' : Record} (hr : r.Alike c r')
    {p p' : LiteralPool} (hp : p.Alike c.line p') (i : Nat) :
    (boundLiteral? r' p' i).map (·.mapLine c.line) =
      (boundLiteral? r p i).map (·.mapLine c.line) := by
  unfold boundLiteral?
  rw [hr.body]
  split
  · rename_i bound _
    cases bound.find? (·.1 = i) with
    | none => rfl
    | some binding => exact literal?_alike hp binding.2
  · rfl

/-- A storage operand: a literal, an explicit address or an expression. -/
theorem matches_storageOperand (op : Instruction) (kind : Inner) (i : Nat)
    (text : Bytes) :
    Matches c Eq (storageOperand op kind i text)
      (storageOperand op kind i text) := by
  refine matches_bind matches_record fun r r' hr =>
    matches_bind matches_generation fun g g' hg => ?_
  rcases map_eq_map_cases (boundLiteral?_alike hr hg.literals i) with
    ⟨hbound, hbound'⟩ | ⟨l, l', hbound, hbound', heq⟩
  · rw [hbound, hbound']
    simp only
    split
    · exact matches_same _
    · exact matches_expressionOperand _ _ _
  · have hplace : l'.place = l.place := congrArg (·.place) heq
    have hdescriptor : l'.descriptor = l.descriptor :=
      congrArg (·.descriptor) heq
    have hsection : l'.sectionId = l.sectionId := congrArg (·.sectionId) heq
    rw [hbound, hbound']
    simp only [hplace, hdescriptor, hsection]
    exact matches_implicitBase _ _

/-- The address of an operand is noted in both records. -/
theorem matches_noteAddress (op : Instruction) (i : Nat) {x x' : Cursor}
    (hx : c.cursors x x') (address : Int64) : Matches c Eq
      (noteAddress op i x address) (noteAddress op i x' address) := by
  have hcheck : Matches c Eq
      (if op.format.checksAlignment ∧ 1 < op.alignment ∧ op.use ≠ .branches ∧
        address % Int64.ofNat op.alignment ≠ 0 then
          report x (.misaligned op.alignment address)
        else pure () : Generate Unit)
      (if op.format.checksAlignment ∧ 1 < op.alignment ∧ op.use ≠ .branches ∧
        address % Int64.ofNat op.alignment ≠ 0 then
          report x' (.misaligned op.alignment address)
        else pure ()) := by
    split
    · exact matches_report hx rfl
    · exact matches_same _
  unfold noteAddress
  simp only
  split
  · exact matches_then (matches_modifyRecord fun hr =>
      { hr with firstAddress := rfl }) fun _ => hcheck
  · exact matches_then (matches_modifyRecord fun hr =>
      { hr with secondAddress := rfl }) fun _ => hcheck

/-- An operand has the same text in corresponding places. -/
theorem matches_operandText (i : Nat) :
    Matches c (fun x x' => x'.1 = x.1 ∧ c.cursors x.2 x'.2) (operandText i)
      (operandText i) :=
  matches_bind matches_statement fun s s' hs =>
    matches_pure ⟨by rw [c.operands hs], c.operandCursor hs i⟩

/-- The base and the displacement of an operand. -/
theorem matches_address (op : Instruction) (kind : Inner) (i : Nat) :
    Matches c Eq (address op kind i) (address op kind i) := by
  refine matches_bind (matches_operandText i) fun x x' hx => ?_
  obtain ⟨text, cursor⟩ := x
  obtain ⟨text', cursor'⟩ := x'
  obtain ⟨rfl, hcursor⟩ := hx
  refine matches_then (matches_storageOperand op kind i _) fun y => ?_
  obtain ⟨operand, problem⟩ := y
  simp only
  split
  case' h_1 => refine matches_then (matches_report hcursor rfl) fun _ => ?_
  all_goals
    split
    · exact matches_then (matches_noteAddress op i hcursor _) fun _ =>
        matches_same _
    · exact matches_same _

theorem matches_registerField (i : Nat) :
    Matches c Eq (registerField i) (registerField i) := by
  refine matches_bind (matches_operandText i) fun x x' hx => ?_
  simp only [hx.1]
  refine matches_then (matches_register _ _) fun outcome => ?_
  split
  · exact matches_same _
  · exact matches_then (matches_report hx.2 rfl) fun _ => matches_same _

theorem matches_immediateField (i limit : Nat) :
    Matches c Eq (immediateField i limit) (immediateField i limit) := by
  refine matches_bind (matches_operandText i) fun x x' hx => ?_
  simp only [hx.1]
  refine matches_then (matches_absolute _ _) fun outcome => ?_
  split
  · exact matches_then (matches_report hx.2 rfl) fun _ => matches_same _
  · split
    · exact matches_same _
    · split
      · exact matches_then (matches_report hx.2 rfl) fun _ => matches_same _
      · exact matches_same _

theorem matches_lengthField (operand : StorageOperand) (i limit : Nat) :
    Matches c Eq (lengthField operand i limit)
      (lengthField operand i limit) := by
  unfold lengthField
  simp only
  split
  · exact matches_same _
  · split
    · exact matches_bind matches_statement fun s s' hs =>
        matches_then (matches_report (c.operandCursor hs i) rfl) fun _ =>
          matches_same _
    · exact matches_same _

/-- The fields of an instruction, format by format. -/
theorem matches_fields (op : Instruction) :
    Matches c Eq (fields op) (fields op) := by
  unfold fields
  simp only
  cases op.format with
  | rr =>
      exact matches_then (matches_registerField 0) fun _ =>
        matches_then (matches_registerField 1)
        fun _ => matches_same _
  | rrSingle =>
      exact matches_then (matches_registerField 0) fun _ => matches_same _
  | rrImmediate =>
      exact matches_then (matches_immediateField _ _) fun _ => matches_same _
  | rrMask =>
      exact matches_then (matches_registerField 0) fun _ => matches_same _
  | rx =>
      exact matches_then (matches_registerField 0) fun _ =>
        matches_then (matches_address _ _ _)
        fun _ => matches_same _
  | rxMask => exact matches_then (matches_address _ _ _) fun _ => matches_same _
  | rs =>
      exact matches_then (matches_registerField 0) fun _ =>
        matches_then (matches_registerField 1)
        fun _ => matches_then (matches_address _ _ _) fun _ => matches_same _
  | rsShift =>
      exact matches_then (matches_registerField 0) fun _ =>
        matches_then (matches_address _ _ _)
        fun _ => matches_same _
  | si =>
      exact matches_then (matches_address _ _ _) fun _ =>
        matches_then (matches_immediateField _ _)
        fun _ => matches_same _
  | s => exact matches_then (matches_address _ _ _) fun _ => matches_same _
  | sNone => exact matches_same _
  | ssLength =>
      exact matches_then (matches_address _ _ _) fun _ =>
        matches_then (matches_address _ _ _)
        fun _ => matches_then (matches_lengthField _ _ _) fun _ =>
          matches_same _
  | ssLengths =>
      exact matches_then (matches_address _ _ _) fun _ =>
        matches_then (matches_address _ _ _)
        fun _ => matches_then (matches_lengthField _ _ _) fun _ =>
          matches_then (matches_lengthField _ _ _) fun _ => matches_same _
  | ssShift =>
      exact matches_then (matches_address _ _ _) fun _ =>
        matches_then (matches_address _ _ _)
        fun _ => matches_then (matches_lengthField _ _ _) fun _ =>
          matches_then (matches_immediateField _ _) fun _ => matches_same _

/-- An instruction has the same octets. -/
theorem matches_instructionOctets (op : Instruction) :
    Matches c Eq (instructionOctets op) (instructionOctets op) := by
  refine matches_bind matches_statement fun s s' hs => ?_
  rw [c.operands hs]
  split
  · exact matches_same _
  · exact matches_then (matches_fields op) fun _ => matches_same _

/-! ### Constants -/

theorem matches_relocate (x : Deck.Relocation) :
    Matches c Eq (relocate x) (relocate x) :=
  matches_modifyGeneration fun hg =>
    { hg with relocations := by rw [hg.relocations] }

/-- The relocations of a value name sections and external names by their
numbers, which are the same. -/
theorem termRelocations_alike {t t' : SymbolTable} (h : t.Alike c.line t')
    (place : Expression.Place) (length : Nat) :
    termRelocations t' place length = termRelocations t place length := by
  funext term
  have hlink : t'.linkId term.target = t.linkId term.target := by
    rw [← SymbolTable.linkId_mapLines c.line t', h, SymbolTable.linkId_mapLines]
  simp only [termRelocations, hlink]

/-- An `A` or `Y` item, with its relocations. -/
theorem matches_addressItem (place : Expression.Place) {x x' : Cursor}
    (hx : c.cursors x x') (v : Value) (length : Nat) :
    Matches c Eq (addressItem place x v length)
      (addressItem place x' v length) := by
  unfold addressItem
  simp only
  split
  · exact matches_then (matches_report hx rfl) fun _ => matches_same _
  · split
    · refine matches_bind matches_generation fun g g' hg => ?_
      rw [termRelocations_alike hg.symbols]
      exact matches_then (matches_forM _ matches_relocate) fun _ =>
        matches_same _
    · exact matches_same _

/-- A `V` item, with its relocation. -/
theorem matches_externalItem (place : Expression.Place) {line line' : Int}
    (hline : c.line line' = c.line line) (name : Bytes) (length : Nat) :
    Matches c Eq (externalItem place line name length)
      (externalItem place line' name length) := by
  refine matches_then (matches_reference hline _ _) fun _ =>
    matches_bind matches_generation fun g g' hg => ?_
  have hexternal : (g'.symbols.external? name).map (·.mapLine c.line) =
      (g.symbols.external? name).map (·.mapLine c.line) := by
    rw [← SymbolTable.external?_mapLines, hg.symbols,
      SymbolTable.external?_mapLines]
  simp only
  rcases map_eq_map_cases hexternal with ⟨he, he'⟩ | ⟨e, e', he, he', heq⟩
  · rw [he, he']
    exact matches_same _
  · have hid : e'.id = e.id := congrArg (·.id) heq
    have hsection : e'.sectionId = e.sectionId := congrArg (·.sectionId) heq
    have hoffset : g'.symbols.offset e.sectionId =
        g.symbols.offset e.sectionId := by
      rw [← SymbolTable.offset_mapLines c.line g'.symbols, hg.symbols,
        SymbolTable.offset_mapLines]
    rw [he, he']
    simp only [hid, hsection, hoffset]
    split
    · exact matches_same _
    · exact matches_then (matches_relocate _) fun _ => matches_same _

/-- An `S` item. -/
theorem matches_baseItem {x x' : Cursor} (hx : c.cursors x x') (v : Value)
    (length : Nat) :
    Matches c Eq (baseItem x v length) (baseItem x' v length) := by
  refine matches_then (matches_resolve v) fun outcome => ?_
  split
  · exact matches_same _
  · exact matches_then (matches_report hx rfl) fun _ => matches_same _

section Items

variable {line line' : Int} {x x' : Cursor}

theorem matches_item (kind : Constant.Kind) (place : Expression.Place)
    (hline : c.line line' = c.line line) (hx : c.cursors x x') (nominal : Bytes)
    (length : Nat) :
    Matches c Eq (item kind place line x nominal length)
      (item kind place line' x' nominal length) := by
  unfold item
  split
  · exact matches_externalItem _ hline _ _
  · refine matches_then (matches_evaluateAt _ hline _ _) fun outcome => ?_
    split
    · exact matches_then (matches_report hx rfl) fun _ => matches_same _
    · split
      · exact matches_baseItem hx _ _
      · exact matches_addressItem _ hx _ _

theorem matches_items (kind : Constant.Kind) (sectionId : Int)
    (hline : c.line line' = c.line line) (hx : c.cursors x x')
    (loc : Int64) (values : List (Bytes × Nat)) :
    Matches c Eq (items kind sectionId line x loc values)
      (items kind sectionId line' x' loc values) := by
  induction values generalizing loc with
  | nil => exact matches_same _
  | cons value rest ih =>
      exact matches_then (matches_item kind _ hline hx _ _) fun _ =>
        matches_then (ih _) fun _ =>
        matches_same _

/-- The octets of a constant. -/
theorem matches_constantOctets (d : Constant.Descriptor)
    (loc : Int64) (hline : c.line line' = c.line line) (hx : c.cursors x x') :
    Matches c Eq (constantOctets d loc line x)
      (constantOctets d loc line' x') := by
  unfold constantOctets
  split
  · refine matches_bind matches_record fun r r' hr => ?_
    rw [hr.sectionId]
    exact matches_items _ _ hline hx _ _
  · split
    · exact matches_same _
    · exact matches_then (matches_report hx rfl) fun _ => matches_same _

end Items

theorem matches_storageParts (parts : List (Constant.Descriptor × Int64)) :
    Matches c Eq (storageParts parts) (storageParts parts) := by
  refine matches_bind matches_record fun r r' hr => ?_
  refine matches_mapM
    (List.forall₂_same.mpr fun _ _ => rfl : List.Forall₂ Eq _ _) ?_
  rintro part _ rfl
  simp only [hr.loc]
  exact matches_then (matches_constantOctets _ _ (c.lines hr.statement)
    (c.operandCursor hr.statement _)) fun _ => matches_same _

/-- The literals of the same numbers only differ in their lines. -/
theorem literals_alike {p p' : LiteralPool} (h : p.Alike c.line p')
    (ids : List Nat) :
    List.Forall₂ (fun l l' : Literal => l'.mapLine c.line = l.mapLine c.line)
      (ids.filterMap fun id => p.literals[id]?)
        (ids.filterMap fun id => p'.literals[id]?) := by
  induction ids with
  | nil => exact .nil
  | cons id rest ih =>
      rcases map_eq_map_cases (literal?_alike h id) with
        ⟨hid, hid'⟩ | ⟨l, l', hid, hid', heq⟩
      · rwa [List.filterMap_cons_none hid, List.filterMap_cons_none hid']
      · rw [List.filterMap_cons_some hid, List.filterMap_cons_some hid']
        exact .cons heq ih

theorem matches_poolParts (ids : List Nat) :
    Matches c Eq (poolParts ids) (poolParts ids) := by
  refine matches_bind matches_record fun r r' hr =>
    matches_bind matches_generation fun g g' hg => ?_
  refine matches_mapM (literals_alike hg.literals ids) fun l l' heq => ?_
  have hplace : l'.place = l.place := congrArg (·.place) heq
  have hdescriptor : l'.descriptor = l.descriptor := congrArg (·.descriptor) heq
  have hline : c.line l'.line = c.line l.line := congrArg (·.line) heq
  simp only [hplace, hdescriptor, hr.loc]
  split
  · exact matches_same _
  · exact matches_then (matches_constantOctets _ _ hline
      (c.mnemonicCursor hr.statement)) fun _ =>
      matches_same _

/-- Parts are emitted with the same gaps between them. -/
theorem matches_emitParts (parts : List (Int64 × Bytes)) :
    Matches c Eq (emitParts parts) (emitParts parts) := by
  refine matches_bind matches_record fun r r' hr => ?_
  rw [hr.length]
  split
  · exact matches_emit _
  · exact matches_fail _

/-! ### Directives -/

/-- The registers of `USING` and `DROP`. -/
theorem matches_baseOperands (seen : List Register)
    (operands : List (Nat × Bytes)) :
    Matches c Eq (baseOperands seen operands) (baseOperands seen operands) := by
  induction operands generalizing seen with
  | nil => exact matches_same _
  | cons operand rest ih =>
      refine matches_bind matches_statement fun s s' hs =>
        matches_then (matches_register _ _) fun outcome => ?_
      have hcursor := c.operandCursor hs operand.1
      split
      · exact matches_then (matches_report hcursor rfl) fun _ => matches_same _
      · split
        · exact matches_then (matches_report hcursor rfl) fun _ =>
            matches_same _
        · exact ih _

/-- A register has domains that only differ in their lines. -/
theorem domain?_alike {b b' : BaseRegisters} (h : b.Alike c.line b')
    (r : Register) :
    (b'.domain? r).map (·.mapLine c.line) =
      (b.domain? r).map (·.mapLine c.line) := by
  rw [← BaseRegisters.domain?_mapLines,
    show b'.mapLines c.line = b.mapLines c.line from h,
    BaseRegisters.domain?_mapLines]

/-- The domains that `USING` opens. -/
theorem matches_useRegisters (v : Value) (remaining : Option Int64)
    (k : Nat) (registers : List Register) :
    Matches c Eq (useRegisters v remaining k registers)
      (useRegisters v remaining k registers) := by
  induction registers generalizing k with
  | nil => exact matches_same _
  | cons r rest ih =>
      refine matches_bind matches_statement fun s s' hs =>
        matches_bind matches_generation
        fun g g' hg => ?_
      have hcursor := c.operandCursor hs (k + 1)
      have huse : ∀ (base remaining : Int64) (sectionId : Int), Matches c Eq
          (modifyThe Generation fun g =>
            { g with bases := g.bases.use r base sectionId remaining s.line })
          (modifyThe Generation fun g =>
            { g with bases :=
                g.bases.use r base sectionId remaining s'.line }) := by
        refine fun base remaining sectionId =>
          matches_modifyGeneration fun {g g'} h =>
          { h with bases := ?_ }
        show BaseRegisters.mapLines _ _ = BaseRegisters.mapLines _ _
        rw [← BaseRegisters.use_mapLines,
          ← BaseRegisters.use_mapLines, c.lines hs,
          show g'.bases.mapLines c.line = g.bases.mapLines c.line from h.bases]
      simp only
      rcases map_eq_map_cases (domain?_alike hg.bases r) with
        ⟨hd, hd'⟩ | ⟨d, d', hd, hd', heq⟩
      · rw [hd, hd']
        exact matches_then (huse _ _ _) fun _ => ih _
      · have hline : c.line d'.line = c.line d.line := congrArg (·.line) heq
        rw [hd, hd']
        refine matches_then (matches_report hcursor ?_) fun _ =>
          matches_then (huse _ _ _) fun _ => ih _
        simp [Problem.mapLine, hline]

/-- A section ends where it ends in the other table. -/
theorem remainingFrom_alike {t t' : SymbolTable} (h : t.Alike c.line t')
    (v : Value) :
    remainingFrom t' v = remainingFrom t v := by
  unfold remainingFrom
  rcases map_eq_map_cases (h.section? v.sectionId) with
    ⟨hs, hs'⟩ | ⟨s, s', hs, hs', heq⟩
  · rw [hs, hs']
  · have hid : s'.id = s.id := congrArg (·.id) heq
    have hbase : s'.base = s.base := congrArg (·.base) heq
    have hlength : s'.length = s.length := congrArg (·.length) heq
    rw [hs, hs']
    simp only [hid, hbase, hlength]

/-- `USING`, with its window where it has one. -/
theorem matches_useBases : Matches c Eq useBases useBases := by
  refine matches_bind matches_statement fun s s' hs => ?_
  have hnumbered : s'.numbered = s.numbered := by
    simp only [Statement.numbered, c.operands hs]
  have hcursor := c.operandCursor hs 0
  simp only [c.operands hs, hnumbered]
  split
  · exact matches_same _
  · refine matches_then (matches_baseOperands _ _) fun registers => ?_
    split
    · exact matches_same _
    · refine matches_then (matches_evaluate _ _) fun outcome => ?_
      split
      · exact matches_report hcursor rfl
      · split
        · exact matches_report hcursor rfl
        · refine matches_bind matches_generation fun g g' hg => ?_
          rw [remainingFrom_alike hg.symbols]
          exact matches_useRegisters _ _ _ _

theorem matches_dropAll : Matches c Eq dropAll dropAll :=
  matches_modifyGeneration fun hg => { hg with bases := rfl }

theorem matches_dropOperand (operand : Nat × Bytes) :
    Matches c Eq (dropOperand operand) (dropOperand operand) := by
  refine matches_bind matches_statement fun s s' hs =>
    matches_then (matches_register _ _) fun outcome => ?_
  have hcursor := c.operandCursor hs operand.1
  split
  · exact matches_report hcursor rfl
  · rename_i r
    have hdrop : Matches c Eq
        (modifyThe Generation fun g => { g with bases := g.bases.drop r })
        (modifyThe Generation fun g => { g with bases := g.bases.drop r }) := by
      refine matches_modifyGeneration fun {g g'} h => { h with bases := ?_ }
      show BaseRegisters.mapLines _ _ = BaseRegisters.mapLines _ _
      rw [← BaseRegisters.drop_mapLines, ← BaseRegisters.drop_mapLines,
        show g'.bases.mapLines c.line = g.bases.mapLines c.line from h.bases]
    refine matches_bind matches_generation fun g g' hg => ?_
    have hnone : (g'.bases.domain? r).isNone = (g.bases.domain? r).isNone := by
      rcases map_eq_map_cases (domain?_alike hg.bases r) with
        ⟨hd, hd'⟩ | ⟨d, d', hd, hd', heq⟩
      · rw [hd, hd']
      · rw [hd, hd']
        rfl
    simp only [hnone]
    split
    · exact matches_then (matches_report hcursor rfl) fun _ => hdrop
    · exact hdrop

/-- `DROP`, of some registers or of all. -/
theorem matches_dropBases : Matches c Eq dropBases dropBases := by
  refine matches_bind matches_statement fun s s' hs => ?_
  have hnumbered : s'.numbered = s.numbered := by
    simp only [Statement.numbered, c.operands hs]
  rw [c.operands hs, hnumbered]
  split
  · exact matches_dropAll
  · exact matches_forM _ matches_dropOperand

/-- The entry point that is taken where `END` names none. -/
theorem defaultEnding_mapLines (φ : Int → Int) (t : SymbolTable) :
    defaultEnding (t.mapLines φ) = defaultEnding t := by
  unfold defaultEnding
  rw [show (t.mapLines φ).sections = t.sections.map (·.mapLine φ) from rfl]
  cases t.sections <;> rfl

/-- The section and the offset of an entry point. -/
theorem endingAt?_mapLines (φ : Int → Int) (t : SymbolTable) :
    endingAt? (t.mapLines φ) = endingAt? t := by
  funext v
  have hlength : ∀ id, ((t.mapLines φ).section? id).map (·.length) =
      (t.section? id).map (·.length) := by
    intro id
    rw [SymbolTable.section?_mapLines, Option.map_map]
    rfl
  simp only [endingAt?, hlength]

/-- `END`, with an entry point or without. -/
theorem matches_endProgram : Matches c Eq endProgram endProgram := by
  have hset : ∀ ending,
      Matches c Eq (modifyThe Generation fun g => { g with ending })
      (modifyThe Generation fun g => { g with ending }) :=
    fun _ => matches_modifyGeneration fun hg => { hg with ending := rfl }
  refine matches_then matches_dropAll fun _ =>
    matches_bind matches_statement fun s s' hs => ?_
  have hcursor := c.operandCursor hs 0
  simp only [c.operands hs]
  split
  · refine matches_bind matches_generation fun g g' hg => ?_
    have hsections : g'.symbols.sections = [] ↔ g.symbols.sections = [] := by
      have hmap : g'.symbols.sections.map (·.mapLine c.line) =
          g.symbols.sections.map (·.mapLine c.line) :=
        congrArg (·.sections) hg.symbols
      rw [← List.map_eq_nil_iff (f := (·.mapLine c.line)), hmap,
        List.map_eq_nil_iff]
    have hdefault : defaultEnding g'.symbols = defaultEnding g.symbols := by
      rw [← defaultEnding_mapLines c.line, hg.symbols, defaultEnding_mapLines]
    simp only [ne_eq, hsections, hdefault]
    split
    · exact hset _
    · exact matches_same _
  · refine matches_then (matches_evaluate _ _) fun outcome => ?_
    split
    · exact matches_report hcursor rfl
    · refine matches_bind matches_generation fun g g' hg => ?_
      have hending : endingAt? g'.symbols = endingAt? g.symbols := by
        rw [← endingAt?_mapLines c.line, hg.symbols, endingAt?_mapLines]
      rw [hending]
      split
      · exact hset _
      · exact matches_report hcursor rfl

/-- **Records.**  Generating the code of records that cannot be told apart. -/
theorem matches_generate : Matches c Eq generate generate := by
  refine matches_bind matches_record fun r r' hr => ?_
  simp only [hr.body, hr.directive]
  split
  · exact matches_then (matches_instructionOctets _) fun _ => matches_emit _
  · exact matches_then (matches_storageParts _) fun _ => matches_emitParts _
  · exact matches_then (matches_poolParts _) fun _ => matches_emitParts _
  · rw [c.operands hr.statement]
    exact matches_forM _ fun text => matches_then (matches_evaluate _ _)
      fun _ => matches_same _
  · exact matches_useBases
  · exact matches_dropBases
  · exact matches_endProgram
  · rw [hr.length, hr.loc]
    split
    · exact matches_fail _
    · exact matches_emit _
  · exact matches_same _

/-- An idle record generates nothing. -/
theorem exec_generate_idle {r : Record} (h : r.IsIdle) (g : Generation) :
    exec generate r g = ((), r, g) := by
  unfold generate
  rw [exec_bind, exec_record]
  simp only [show r.body = .comment from h]
  rfl

end Generate

namespace Generation

variable {g g' : Generation}

/-- **One record** of two runs that are alike leaves runs that are alike. -/
theorem Alike.step (h : g.Alike c g') {r r' : Record} (hr : r.Alike c r') :
    (g.step r).1.Alike c (g'.step r').1 ∧
      (g.step r).2.Alike c (g'.step r').2 := by
  unfold Generation.step
  rw [hr.errored, h.fault]
  split
  · exact ⟨hr, h⟩
  · obtain ⟨-, hrecord, hstate⟩ := Generate.matches_generate hr h
    exact ⟨hrecord, hstate⟩

/-- A record that says nothing changes nothing. -/
theorem step_idle {r : Record} (h : r.IsIdle) (g : Generation) :
    g.step r = (r, g) := by
  unfold Generation.step
  split
  · rfl
  · have hexec := Generate.exec_generate_idle h g
    exact Prod.ext (congrArg (·.2.1) hexec) (congrArg (·.2.2) hexec)

/-- **Programs.**  Generating the code of programs that cannot be told apart. -/
theorem Alike.run {records records' : List Record} (h : g.Alike c g')
    (hrecords : Aligned Record.IsIdle (Record.Alike c) records records') :
    Aligned Record.IsIdle (Record.Alike c) (g.run records).1
      (g'.run records').1 ∧
      (g.run records).2.Alike c (g'.run records').2 := by
  induction hrecords generalizing g g' with
  | nil => exact ⟨.nil, h⟩
  | cons hr _ ih =>
      obtain ⟨hfirst, hstate⟩ := h.step hr
      exact ⟨.cons hfirst (ih hstate).1, (ih hstate).2⟩
  | left hidle _ ih =>
      simp only [Generation.run, step_idle hidle]
      exact ⟨.left hidle (ih h).1, (ih h).2⟩
  | right hidle _ ih =>
      simp only [Generation.run, step_idle hidle]
      exact ⟨.right hidle (ih h).1, (ih h).2⟩

/-- The two runs begin alike. -/
theorem Alike.new {p p' : Program} (h : p.Alike c p') :
    (new p).Alike c (new p') :=
  ⟨h.layout.symbols, h.layout.literals, rfl, h.layout.diagnostics, rfl,
    rfl, rfl, rfl⟩

/-- Whether a value is one address is a matter of values. -/
theorem isAddress_mapLines (φ : Int → Int) (t : SymbolTable) :
    isAddress (t.mapLines φ) = isAddress t := by
  funext name
  unfold isAddress
  rw [SymbolTable.definition?_mapLines, Option.any_map]
  rfl

/-- Where a name for other assemblies was first offered. -/
def entryCursor (cursors : List (Bytes × Cursor)) (e : EntryName) : Cursor :=
  match cursors.find? (·.1 = e.name) with
  | some (_, cursor) => cursor
  | none => ⟨e.line.toNat, 1, 0, 0, 0⟩

/-- The diagnostic of an entry stands where its name stands. -/
theorem entryCursor_alike {cursors cursors' : List (Bytes × Cursor)}
    (h : List.Forall₂ (fun x x' => x'.1 = x.1 ∧
      c.cursors x.2 x'.2) cursors cursors') {e e' : EntryName}
    (he : e'.mapLine c.line = e.mapLine c.line) :
    c.cursors (entryCursor cursors e) (entryCursor cursors' e') := by
  have hname : e'.name = e.name := congrArg (·.name) he
  have hline : c.line e'.line = c.line e.line := congrArg (·.line) he
  unfold entryCursor
  rw [hname]
  induction h with
  | nil => exact c.lineCursor hline
  | @cons x x' _ _ hx _ ih =>
      by_cases hfirst : x.1 = e.name
      · rw [List.find?_cons_of_pos (by simpa using hfirst),
          List.find?_cons_of_pos (by simpa [hx.1] using hfirst)]
        exact hx.2
      · rw [List.find?_cons_of_neg (by simpa using hfirst),
          List.find?_cons_of_neg (by simpa [hx.1] using hfirst)]
        exact ih

/-- **The names for other assemblies** are checked alike. -/
theorem Alike.checkEntries (h : g.Alike c g')
    {cursors cursors' : List (Bytes × Cursor)}
    (hcursors : List.Forall₂ (fun x x' => x'.1 = x.1 ∧
      c.cursors x.2 x'.2) cursors cursors') :
    (g.checkEntries cursors).Alike c (g'.checkEntries cursors') := by
  have hreports : ∀ {es es' : List EntryName},
      es'.map (·.mapLine c.line) = es.map (·.mapLine c.line) →
      ∀ {ds ds' : List Diagnostic}, c.diagnostics ds ds' →
        c.diagnostics
          (ds ++ (es.filter fun e => !isAddress g.symbols e.name).map fun e =>
            ⟨entryCursor cursors e, .undefinedSymbol e.name⟩)
          (ds' ++ (es'.filter fun e => !isAddress g.symbols e.name).map fun e =>
            ⟨entryCursor cursors' e, .undefinedSymbol e.name⟩) := by
    intro es
    induction es with
    | nil =>
        intro es' hes ds ds' hds
        rw [List.map_nil, List.map_eq_nil_iff] at hes
        simpa [hes] using hds
    | cons e rest ih =>
        intro es' hes ds ds' hds
        obtain ⟨e', rest', rfl, he, hrest⟩ := List.map_eq_cons_iff.mp hes
        have hname : e'.name = e.name := congrArg (·.name) he
        rw [List.filter_cons, List.filter_cons, hname]
        split
        · rw [List.map_cons, List.map_cons, hname, List.append_cons,
            List.append_cons ds' ⟨entryCursor cursors' e', _⟩]
          exact ih hrest (c.report hds (entryCursor_alike hcursors he) rfl)
        · exact ih hrest hds
  have haddress : isAddress g'.symbols = isAddress g.symbols := by
    rw [← isAddress_mapLines c.line, h.symbols, isAddress_mapLines]
  refine { h with diagnostics := ?_ }
  show c.diagnostics (_ ++ _) (_ ++ _)
  rw [haddress]
  exact hreports (congrArg (·.entries) h.symbols) h.diagnostics

end Generation

end System370
