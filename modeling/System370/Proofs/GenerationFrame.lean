import System370.Generation.Program
import System370.Proofs.ErrorMarks
import System370.Proofs.PagedStorage
import System370.Proofs.TableInvariant

/-!
# What generating code leaves alone

Generating the code of a record evaluates expressions, chooses base registers
and reports problems.  Little of the state depends on it: sections, definitions,
literals and the place of the record stay as they are, and code is added at the
end only.

`Held` says this of two states.  What base registers promise and the end of the
module are only changed by statements on them; `Kept` says that they stay as
well.  A step is `Mild` or `Quiet` if it adds no relocations and its states are
`Held` or `Kept`, and steps in sequence are if each of them is.  The steps that
do add relocations, those for address constants, are described in
`System370.Proofs.AddressConstants`.

* `Generation.step_spec`: one record adds its own code to the runs, and nothing
  else;
* `Generation.run_spec`: so the runs of a program are the code of its records.
-/

namespace System370

/-- What a base register is promised to hold, whatever displacements from it
were used. -/
def BaseRegisters.promise? (b : BaseRegisters) (r : Register) : Option Domain :=
  (b.domain? r).map fun d => { d with maxDisplacement := -1 }

/-- Choosing a base register changes no promise. -/
theorem BaseRegisters.promise?_resolve (b : BaseRegisters) (location : Int64)
    (sectionId : Int) (r : Register) :
    (b.resolve location sectionId).2.promise? r = b.promise? r := by
  unfold resolve promise?
  split
  · rfl
  · rename_i c _
    unfold domain?
    simp only [Fin.getElem_fin, Vector.getElem_set]
    split
    · rename_i heq
      rw [Fin.val_inj.mp heq, Option.map_map]
      congr 1
      funext d
      unfold Domain.note
      simp only [Function.comp]
      split <;> rfl
    · rfl

namespace Generate

variable {α β : Type}

/-- The outcome of a step: its result, the record and the state. -/
def exec (x : Generate α) (r : Record) (g : Generation) :
    α × Record × Generation :=
  let out := StateT.run (StateT.run x r) g
  (out.1.1, out.1.2, out.2)

@[simp] theorem exec_bind (x : Generate α) (f : α → Generate β) (r : Record)
    (g : Generation) :
    exec (x >>= f) r g =
      exec (f (exec x r g).1) (exec x r g).2.1 (exec x r g).2.2 := rfl

@[simp] theorem exec_pure (a : α) (r : Record) (g : Generation) :
    exec (pure a) r g = (a, r, g) := rfl

@[simp] theorem exec_record (r : Record) (g : Generation) :
    exec (getThe Record) r g = (r, r, g) := rfl

@[simp] theorem exec_statement (r : Record) (g : Generation) :
    exec statement r g = (r.statement, r, g) := rfl

@[simp] theorem exec_generation (r : Record) (g : Generation) :
    exec (getThe Generation) r g = (g, r, g) := rfl

@[simp] theorem exec_modifyGeneration (f : Generation → Generation) (r : Record)
    (g : Generation) :
    exec (modifyThe Generation f) r g = ((), r, f g) := rfl

@[simp] theorem exec_fail (e : StorageFault) (r : Record) (g : Generation) :
    exec (fail e) r g = ((), r, { g with fault := some e }) := rfl

/-- What stays of a record and a state, while some relocations are added. -/
structure Held (more : List Deck.Relocation) (r : Record) (g : Generation)
    (r' : Record) (g' : Generation) : Prop where
  record : r' = { r with
    errored := r'.errored
    firstAddress := r'.firstAddress
    secondAddress := r'.secondAddress }
  runs : g'.runs = g.runs
  fault : g'.fault = g.fault
  literals : g'.literals = g.literals
  symbols : g'.symbols = { g.symbols with symbols := g'.symbols.symbols }
  definitions : ∀ name, g'.symbols.definition? name = g.symbols.definition? name
  relocations : g'.relocations = g.relocations ++ more
  reports : Reported r.errored g.diagnostics r'.errored g'.diagnostics

/-- Diagnostics are only added. -/
theorem Held.diagnostics {more : List Deck.Relocation} {r r' : Record}
    {g g' : Generation} (h : Held more r g r' g') :
    g.diagnostics <+: g'.diagnostics := h.reports.isPrefix

/-- A statement that is marked as erroneous stays so. -/
theorem Held.errored {more : List Deck.Relocation} {r r' : Record}
    {g g' : Generation} (h : Held more r g r' g') (he : r.errored = true) :
    r'.errored = true :=
  h.reports.errored_mono he

theorem Held.refl (r : Record) (g : Generation) : Held [] r g r g :=
  ⟨rfl, rfl, rfl, rfl, rfl, fun _ => rfl, by simp, Reported.refl _ _⟩

theorem Held.trans {more others : List Deck.Relocation} {r r' r'' : Record}
    {g g' g'' : Generation} (h : Held more r g r' g')
    (h' : Held others r' g' r'' g'') :
    Held (more ++ others) r g r'' g'' := by
  refine ⟨?_, h'.runs.trans h.runs, h'.fault.trans h.fault,
    h'.literals.trans h.literals, ?_,
    fun name => (h'.definitions name).trans (h.definitions name), ?_,
    h.reports.trans h'.reports⟩
  · rw [h'.record, h.record]
  · rw [h'.symbols, h.symbols]
  · rw [h'.relocations, h.relocations, List.append_assoc]

/-- What stays besides, unless a statement is about it: the end of the module
and the promises of base registers. -/
structure Kept (more : List Deck.Relocation) (r : Record) (g : Generation)
    (r' : Record) (g' : Generation) : Prop extends Held more r g r' g' where
  ending : g'.ending = g.ending
  promises : ∀ register, g'.bases.promise? register = g.bases.promise? register

theorem Kept.refl (r : Record) (g : Generation) : Kept [] r g r g :=
  ⟨Held.refl r g, rfl, fun _ => rfl⟩

/-- Two steps that keep the storage and the domains keep them together. -/
theorem Kept.trans {more others : List Deck.Relocation} {r r' r'' : Record}
    {g g' g'' : Generation} (h : Kept more r g r' g')
    (h' : Kept others r' g' r'' g'') :
    Kept (more ++ others) r g r'' g'' :=
  ⟨h.toHeld.trans h'.toHeld, h'.ending.trans h.ending,
    fun register => (h'.promises register).trans (h.promises register)⟩

/-- A step that adds nothing. -/
def Quiet (x : Generate α) : Prop :=
  ∀ r g, Kept [] r g (exec x r g).2.1 (exec x r g).2.2

theorem quiet_pure (a : α) : Quiet (pure a : Generate α) := Kept.refl

/-- One step behind the other. -/
theorem quiet_bind {x : Generate α} {f : α → Generate β} (hx : Quiet x)
    (hf : ∀ a, Quiet (f a)) :
    Quiet (x >>= f) := fun r g => (hx r g).trans (hf _ _ _)

theorem quiet_record : Quiet (getThe Record : Generate Record) := Kept.refl

theorem quiet_generation :
    Quiet (getThe Generation : Generate Generation) := Kept.refl

theorem quiet_discard {x : Generate α} (hx : Quiet x) : Quiet (discard x) := hx

theorem quiet_forM {items : List α} {f : α → Generate Unit}
    (hf : ∀ a, Quiet (f a)) :
    Quiet (items.forM f) := by
  induction items with
  | nil => exact quiet_pure ()
  | cons a rest ih => exact quiet_bind (hf a) fun _ => ih

/-! ### Evaluating -/

/-- A diagnostic moves neither storage nor relocations. -/
theorem quiet_report (cursor : Cursor) (problem : Problem) :
    Quiet (report cursor problem) :=
  fun _ _ => ⟨⟨rfl, rfl, rfl, rfl, rfl, fun _ => rfl, (List.append_nil _).symm,
    ⟨[⟨cursor, problem⟩], rfl, by simp [Diagnostic.severity]; rfl⟩⟩, rfl,
    fun _ => rfl⟩

theorem quiet_statement : Quiet statement :=
  quiet_bind quiet_record fun _ => quiet_pure _

/-- Recording uses changes the symbols, but no definition. -/
theorem references_spec (names : List Bytes) (u : Reference) (t : SymbolTable) :
    names.foldl (fun t name => t.reference name u) t =
        { t with symbols :=
          (names.foldl (fun t name => t.reference name u) t).symbols } ∧
      ∀ name,
      (names.foldl (fun t name => t.reference name u) t).definition? name =
        t.definition? name := by
  induction names generalizing t with
  | nil => exact ⟨rfl, fun _ => rfl⟩
  | cons first rest ih =>
      obtain ⟨hsame, hdefinition⟩ := ih (t.reference first u)
      refine ⟨?_, fun name => ?_⟩
      · rw [List.foldl_cons, hsame]
        rfl
      · rw [List.foldl_cons, hdefinition, SymbolTable.definition?_reference]

/-- Noting a reference moves the symbol table alone. -/
theorem quiet_reference (line : Int) (usage : Usage) (names : List Bytes) :
    Quiet (reference line usage names) := by
  intro r g
  obtain ⟨hsame, hdefinition⟩ := references_spec names ⟨line, usage⟩ g.symbols
  exact ⟨⟨rfl, rfl, rfl, rfl, hsame, hdefinition, (List.append_nil _).symm,
    Reported.refl _ _⟩, rfl, fun _ => rfl⟩

/-- An expression reports what is wrong with it and notes its references. -/
theorem quiet_evaluateAt (place : Expression.Place) (line : Int) (usage : Usage)
    (text : Bytes) :
    Quiet (evaluateAt place line usage text) :=
  quiet_bind quiet_generation fun _ =>
    quiet_bind (quiet_reference _ _ _) fun _ => quiet_pure _

theorem quiet_evaluate (usage : Usage) (text : Bytes) :
    Quiet (evaluate usage text) :=
  quiet_bind quiet_record fun _ => quiet_evaluateAt _ _ _ _

theorem quiet_absolute (usage : Usage) (text : Bytes) :
    Quiet (absolute usage text) :=
  quiet_bind quiet_record fun _ => quiet_bind quiet_generation fun _ =>
    quiet_bind (quiet_reference _ _ _) fun _ => quiet_pure _

/-- A register is an absolute expression and a check of its bound. -/
theorem quiet_register (usage : Usage) (text : Bytes) :
    Quiet (register usage text) := by
  refine quiet_bind (quiet_absolute usage text) fun outcome => ?_
  split
  · exact quiet_pure _
  · split <;> exact quiet_pure _

/-- The choice of a base register moves the peak displacement alone. -/
theorem quiet_resolve (v : Value) : Quiet (resolve v) := by
  unfold resolve
  extract_lets search
  have hsearch : ∀ sectionId, Quiet (search sectionId) := by
    intro sectionId r g
    have hbases : Kept [] r g r
        { g with bases := (g.bases.resolve v.number sectionId).2 } :=
      ⟨⟨rfl, rfl, rfl, rfl, rfl, fun _ => rfl, (List.append_nil _).symm,
        Reported.refl _ _⟩, rfl,
        fun register => g.bases.promise?_resolve _ _ register⟩
    unfold search
    rw [exec_bind, exec_generation]
    simp only [exec_bind, exec_modifyGeneration]
    split <;> exact hbases
  split
  · split
    · exact quiet_pure _
    · exact hsearch 0
  · split
    · exact quiet_pure _
    · exact hsearch _
  · exact quiet_pure _

/-! ### Instructions -/

/-- The value in parentheses: an index or a length. -/
theorem quiet_innerValue (kind : Inner) (parts : List Bytes) :
    Quiet (innerValue kind parts) := by
  unfold innerValue
  split
  · exact quiet_pure _
  · exact quiet_pure _
  · split
    · exact quiet_pure _
    · split
      · refine quiet_bind (quiet_register _ _) fun outcome => ?_
        split <;> exact quiet_pure _
      · refine quiet_bind (quiet_absolute _ _) fun outcome => ?_
        split <;> exact quiet_pure _

theorem quiet_explicitBase (operand : StorageOperand) (v : Value)
    (text : Bytes) :
    Quiet (explicitBase operand v text) := by
  refine quiet_bind (quiet_register _ _) fun outcome => ?_
  split
  · exact quiet_pure _
  · simp only
    split
    · exact quiet_pure _
    · split <;> exact quiet_pure _

theorem quiet_implicitBase (operand : StorageOperand) (v : Value) :
    Quiet (implicitBase operand v) := by
  refine quiet_bind (quiet_resolve v) fun outcome => ?_
  split <;> exact quiet_pure _

theorem quiet_expressionOperand (kind : Inner) (usage : Usage) (text : Bytes) :
    Quiet (expressionOperand kind usage text) := by
  unfold expressionOperand
  simp only
  generalize (if kind = Inner.base then 1 else 2) = allowed
  split
  · exact quiet_pure _
  · refine quiet_bind (quiet_evaluate _ _) fun outcome => ?_
    split
    · exact quiet_pure _
    · refine quiet_bind (quiet_innerValue _ _) fun inner => ?_
      split
      · exact quiet_pure _
      · split
        · exact quiet_explicitBase _ _ _
        · exact quiet_implicitBase _ _

/-- A storage operand, whether it is a literal, an expression or an explicit
address. -/
theorem quiet_storageOperand (op : Instruction) (kind : Inner) (i : Nat)
    (text : Bytes) :
    Quiet (storageOperand op kind i text) := by
  refine quiet_bind quiet_record fun r =>
    quiet_bind quiet_generation fun g => ?_
  split
  · exact quiet_implicitBase _ _
  · split
    · exact quiet_pure _
    · exact quiet_expressionOperand _ _ _

/-- The address of an operand is noted in the record of its instruction. -/
theorem quiet_noteAddress (op : Instruction) (i : Nat) (cursor : Cursor)
    (address : Int64) :
    Quiet (noteAddress op i cursor address) := by
  have hfirst :
      Quiet (modifyThe Record fun r => { r with firstAddress := some address } :
      Generate Unit) := fun _ _ =>
    ⟨⟨rfl, rfl, rfl, rfl, rfl, fun _ => rfl, (List.append_nil _).symm,
      Reported.refl _ _⟩, rfl, fun _ => rfl⟩
  have hsecond : Quiet
      (modifyThe Record fun r => { r with secondAddress := some address } :
      Generate Unit) := fun _ _ =>
    ⟨⟨rfl, rfl, rfl, rfl, rfl, fun _ => rfl, (List.append_nil _).symm,
      Reported.refl _ _⟩, rfl, fun _ => rfl⟩
  have hcheck : Quiet (if op.format.checksAlignment ∧ 1 < op.alignment ∧
      op.use ≠ .branches ∧
      address % Int64.ofNat op.alignment ≠ 0 then
        report cursor (.misaligned op.alignment address)
      else pure () : Generate Unit) := by
    split
    · exact quiet_report _ _
    · exact quiet_pure _
  unfold noteAddress
  simp only
  split
  · exact quiet_bind hfirst fun _ => hcheck
  · exact quiet_bind hsecond fun _ => hcheck

theorem quiet_operandText (i : Nat) : Quiet (operandText i) :=
  quiet_bind quiet_statement fun _ => quiet_pure _

/-- The base and the displacement of an operand, with what is noted of it. -/
theorem quiet_address (op : Instruction) (kind : Inner) (i : Nat) :
    Quiet (address op kind i) := by
  refine quiet_bind (quiet_operandText i) fun x => ?_
  obtain ⟨text, cursor⟩ := x
  refine quiet_bind (quiet_storageOperand op kind i text) fun y => ?_
  obtain ⟨operand, problem⟩ := y
  simp only
  split
  case' h_1 => refine quiet_bind (quiet_report _ _) fun _ => ?_
  all_goals
    split
    · exact quiet_bind (quiet_noteAddress _ _ _ _) fun _ => quiet_pure _
    · exact quiet_pure _

/-- The field of a register operand. -/
theorem quiet_registerField (i : Nat) : Quiet (registerField i) := by
  refine quiet_bind (quiet_operandText i) fun x =>
    quiet_bind (quiet_register _ _) fun outcome => ?_
  split
  · exact quiet_pure _
  · exact quiet_bind (quiet_report _ _) fun _ => quiet_pure _

/-- The field of an immediate operand, which is bounded. -/
theorem quiet_immediateField (i limit : Nat) :
    Quiet (immediateField i limit) := by
  refine quiet_bind (quiet_operandText i) fun x =>
    quiet_bind (quiet_absolute _ _) fun outcome => ?_
  split
  · exact quiet_bind (quiet_report _ _) fun _ => quiet_pure _
  · split
    · exact quiet_pure _
    · split
      · exact quiet_bind (quiet_report _ _) fun _ => quiet_pure _
      · exact quiet_pure _

/-- The field of a length, written or implied. -/
theorem quiet_lengthField (operand : StorageOperand) (i limit : Nat) :
    Quiet (lengthField operand i limit) := by
  unfold lengthField
  simp only
  split
  · exact quiet_pure _
  · split
    · exact quiet_bind quiet_statement fun _ =>
        quiet_bind (quiet_report _ _) fun _ => quiet_pure _
    · exact quiet_pure _

/-- The fields of an instruction: one case for each of the formats. -/
theorem quiet_fields (op : Instruction) : Quiet (fields op) := by
  unfold fields
  simp only
  cases op.format with
  | rr =>
      exact quiet_bind (quiet_registerField 0) fun _ =>
        quiet_bind (quiet_registerField 1) fun _ =>
        quiet_pure _
  | rrSingle => exact quiet_bind (quiet_registerField 0) fun _ => quiet_pure _
  | rrImmediate =>
      exact quiet_bind (quiet_immediateField _ _) fun _ => quiet_pure _
  | rrMask => exact quiet_bind (quiet_registerField 0) fun _ => quiet_pure _
  | rx =>
      exact quiet_bind (quiet_registerField 0) fun _ =>
        quiet_bind (quiet_address _ _ _) fun _ =>
        quiet_pure _
  | rxMask => exact quiet_bind (quiet_address _ _ _) fun _ => quiet_pure _
  | rs =>
      exact quiet_bind (quiet_registerField 0) fun _ =>
        quiet_bind (quiet_registerField 1) fun _ =>
        quiet_bind (quiet_address _ _ _) fun _ => quiet_pure _
  | rsShift =>
      exact quiet_bind (quiet_registerField 0) fun _ =>
        quiet_bind (quiet_address _ _ _) fun _ =>
        quiet_pure _
  | si =>
      exact quiet_bind (quiet_address _ _ _) fun _ =>
        quiet_bind (quiet_immediateField _ _) fun _ =>
        quiet_pure _
  | s => exact quiet_bind (quiet_address _ _ _) fun _ => quiet_pure _
  | sNone => exact quiet_pure _
  | ssLength =>
      exact quiet_bind (quiet_address _ _ _) fun _ =>
        quiet_bind (quiet_address _ _ _) fun _ =>
        quiet_bind (quiet_lengthField _ _ _) fun _ => quiet_pure _
  | ssLengths =>
      exact quiet_bind (quiet_address _ _ _) fun _ =>
        quiet_bind (quiet_address _ _ _) fun _ =>
        quiet_bind (quiet_lengthField _ _ _) fun _ =>
          quiet_bind (quiet_lengthField _ _ _) fun _ =>
          quiet_pure _
  | ssShift =>
      exact quiet_bind (quiet_address _ _ _) fun _ =>
        quiet_bind (quiet_address _ _ _) fun _ =>
        quiet_bind (quiet_lengthField _ _ _) fun _ =>
          quiet_bind (quiet_immediateField _ _) fun _ =>
          quiet_pure _

/-- The octets of an instruction are gathered before anything is emitted. -/
theorem quiet_instructionOctets (op : Instruction) :
    Quiet (instructionOctets op) := by
  refine quiet_bind quiet_statement fun s => ?_
  split
  · exact quiet_pure _
  · exact quiet_bind (quiet_fields op) fun _ => quiet_pure _

/-- The fields of an instruction fill its octets from the third one on. -/
theorem length_fields (op : Instruction) (r : Record) (g : Generation) :
    2 + (exec (fields op) r g).1.2.length = op.length := by
  have hbase : ∀ c, (baseDisplacement c).length = 2 :=
    fun c => Field.length_put 2 _
  unfold fields Instruction.length
  simp only
  cases op.format <;>
    simp only [exec_bind, exec_pure, addressOctets, List.flatMap_cons,
      List.flatMap_nil, List.length_append, List.length_cons, List.length_nil,
      hbase, Format.length]

/-- **An instruction has the octets of its format.** -/
theorem length_instructionOctets (op : Instruction) (r : Record)
    (g : Generation) :
    (exec (instructionOctets op) r g).1.length = op.length := by
  unfold instructionOctets
  rw [exec_bind]
  split
  · have := length_fields op r g
    simp [Instruction.skeleton]
    omega
  · rw [exec_bind]
    have hrest :=
      length_fields op (exec statement r g).2.1 (exec statement r g).2.2
    generalize exec (fields op) (exec statement r g).2.1
      (exec statement r g).2.2 = out at hrest
    obtain ⟨⟨second, rest⟩, r', g'⟩ := out
    simp only at hrest
    simp [Instruction.skeleton]
    omega

/-! ### Directives -/

/-- The operands behind the first one of `USING` and `DROP`, read as
registers. -/
theorem quiet_baseOperands (seen : List Register)
    (operands : List (Nat × Bytes)) :
    Quiet (baseOperands seen operands) := by
  induction operands generalizing seen with
  | nil => exact quiet_pure _
  | cons operand rest ih =>
      refine quiet_bind quiet_statement fun s =>
        quiet_bind (quiet_register _ _) fun outcome => ?_
      split
      · exact quiet_bind (quiet_report _ _) fun _ => quiet_pure _
      · split
        · exact quiet_bind (quiet_report _ _) fun _ => quiet_pure _
        · exact ih _

/-! ### Statements on base registers and the end -/

/-- A step that adds nothing, but may change promises and the end of the
module. -/
def Mild (x : Generate α) : Prop :=
  ∀ r g, Held [] r g (exec x r g).2.1 (exec x r g).2.2

/-- Quiet steps are mild. -/
theorem Quiet.mild {x : Generate α} (hx : Quiet x) :
    Mild x := fun r g => (hx r g).toHeld

theorem mild_bind {x : Generate α} {f : α → Generate β} (hx : Mild x)
    (hf : ∀ a, Mild (f a)) :
    Mild (x >>= f) := fun r g => (hx r g).trans (hf _ _ _)

theorem mild_forM {items : List α} {f : α → Generate Unit}
    (hf : ∀ a, Mild (f a)) :
    Mild (items.forM f) := by
  induction items with
  | nil => exact (quiet_pure ()).mild
  | cons a rest ih => exact mild_bind (hf a) fun _ => ih

/-- The domains of the base registers may change. -/
theorem mild_setBases (f : Generation → BaseRegisters) :
    Mild
      (modifyThe Generation fun g => { g with bases := f g } : Generate Unit) :=
  fun _ _ => ⟨rfl, rfl, rfl, rfl, rfl, fun _ => rfl, (List.append_nil _).symm,
    Reported.refl _ _⟩

/-- A domain for each register of `USING`, 4096 octets apart. -/
theorem mild_useRegisters (v : Value) (remaining : Option Int64)
    (k : Nat) (registers : List Register) :
    Mild (useRegisters v remaining k registers) := by
  induction registers generalizing k with
  | nil => exact (quiet_pure _).mild
  | cons r rest ih =>
      refine mild_bind quiet_statement.mild fun s =>
        mild_bind quiet_generation.mild fun g => ?_
      simp only
      split
      · exact mild_bind (quiet_report _ _).mild fun _ =>
          mild_bind (mild_setBases _) fun _ => ih _
      · exact mild_bind (mild_setBases _) fun _ => ih _

/-- `USING` moves the domains and no storage. -/
theorem mild_useBases : Mild useBases := by
  refine mild_bind quiet_statement.mild fun s => ?_
  split
  · exact (quiet_pure _).mild
  · refine mild_bind (quiet_baseOperands _ _).mild fun registers => ?_
    split
    · exact (quiet_pure _).mild
    · refine mild_bind (quiet_evaluate _ _).mild fun outcome => ?_
      split
      · exact (quiet_report _ _).mild
      · simp only
        split
        · exact (quiet_report _ _).mild
        · exact mild_bind quiet_generation.mild fun _ =>
            mild_useRegisters _ _ _ _

theorem mild_dropAll : Mild dropAll := mild_setBases fun _ => {}

theorem mild_dropOperand (operand : Nat × Bytes) :
    Mild (dropOperand operand) := by
  refine mild_bind quiet_statement.mild fun s =>
    mild_bind (quiet_register _ _).mild fun outcome => ?_
  split
  · exact (quiet_report _ _).mild
  · refine mild_bind quiet_generation.mild fun g => ?_
    simp only
    split
    · exact mild_bind (quiet_report _ _).mild fun _ => mild_setBases _
    · exact mild_setBases _

/-- `DROP` moves the domains and no storage. -/
theorem mild_dropBases : Mild dropBases := by
  refine mild_bind quiet_statement.mild fun s => ?_
  split
  · exact mild_dropAll
  · exact mild_forM mild_dropOperand

/-- `END` notes where the program begins and moves no storage. -/
theorem mild_endProgram : Mild endProgram := by
  have hset : ∀ ending,
      Mild (modifyThe Generation fun g => { g with ending } : Generate Unit) :=
    fun _ _ _ =>
      ⟨rfl, rfl, rfl, rfl, rfl, fun _ => rfl, (List.append_nil _).symm,
        Reported.refl _ _⟩
  refine mild_bind mild_dropAll fun _ =>
    mild_bind quiet_statement.mild fun s => ?_
  simp only
  split
  · refine mild_bind quiet_generation.mild fun g => ?_
    split
    · exact hset _
    · exact (quiet_pure _).mild
  · refine mild_bind (quiet_evaluate _ _).mild fun outcome => ?_
    split
    · exact (quiet_report _ _).mild
    · refine mild_bind quiet_generation.mild fun g => ?_
      split
      · exact hset _
      · exact (quiet_report _ _).mild

/-! ### Constants -/

/-- A step that adds relocations at most. -/
def Steady (x : Generate α) : Prop :=
  ∀ r g, ∃ more, Kept more r g (exec x r g).2.1 (exec x r g).2.2

/-- Quiet steps are steady: they add no relocation. -/
theorem Quiet.steady {x : Generate α} (hx : Quiet x) : Steady x :=
  fun r g => ⟨[], hx r g⟩

/-- Relocations of two steps are added one behind the other. -/
theorem steady_bind {x : Generate α} {f : α → Generate β} (hx : Steady x)
    (hf : ∀ a, Steady (f a)) : Steady (x >>= f) := by
  intro r g
  obtain ⟨more, hmore⟩ := hx r g
  obtain ⟨others, hothers⟩ :=
    hf (exec x r g).1 (exec x r g).2.1 (exec x r g).2.2
  exact ⟨more ++ others, hmore.trans hothers⟩

theorem steady_mapM {items : List α} {f : α → Generate β}
    (hf : ∀ a, Steady (f a)) :
    Steady (items.mapM f) := by
  induction items with
  | nil => exact (quiet_pure _).steady
  | cons a rest ih =>
      rw [List.mapM_cons]
      exact steady_bind (hf a) fun _ => steady_bind ih fun _ =>
        (quiet_pure _).steady

/-- A relocation is added and nothing else moves. -/
theorem kept_relocate (x : Deck.Relocation) (r : Record) (g : Generation) :
    Kept [x] r g (exec (relocate x) r g).2.1 (exec (relocate x) r g).2.2 :=
  ⟨⟨rfl, rfl, rfl, rfl, rfl, fun _ => rfl, rfl, Reported.refl _ _⟩, rfl,
    fun _ => rfl⟩

/-- Relocations are added in their order. -/
theorem kept_relocates (items : List Deck.Relocation) (r : Record)
    (g : Generation) :
    Kept items r g (exec (items.forM relocate) r g).2.1
      (exec (items.forM relocate) r g).2.2 := by
  induction items generalizing r g with
  | nil => exact Kept.refl r g
  | cons x rest ih => exact (kept_relocate x r g).trans (ih _ _)

/-- An `A` or `Y` item adds a relocation for each address that its value
counts. -/
theorem steady_addressItem (place : Expression.Place) (cursor : Cursor)
    (v : Value) (length : Nat) :
    Steady (addressItem place cursor v length) := by
  unfold addressItem
  simp only
  split
  · exact (quiet_bind (quiet_report _ _) fun _ => quiet_pure _).steady
  · split
    · exact steady_bind quiet_generation.steady fun _ =>
        steady_bind (fun r g => ⟨_, kept_relocates _ r g⟩) fun _ =>
          (quiet_pure _).steady
    · exact (quiet_pure _).steady

/-- A `V` item adds the relocation of the name that it names. -/
theorem steady_externalItem (place : Expression.Place) (line : Int)
    (name : Bytes) (length : Nat) :
    Steady (externalItem place line name length) := by
  refine steady_bind (quiet_reference _ _ _).steady fun _ =>
    steady_bind quiet_generation.steady fun g => ?_
  simp only
  split
  · exact (quiet_pure _).steady
  · split
    · exact (quiet_pure _).steady
    · exact steady_bind (fun r g => ⟨_, kept_relocate _ r g⟩) fun _ =>
        (quiet_pure _).steady

/-- An `S` item holds a base and a displacement, which no linker moves. -/
theorem quiet_baseItem (cursor : Cursor) (v : Value) (length : Nat) :
    Quiet (baseItem cursor v length) := by
  refine quiet_bind (quiet_resolve v) fun outcome => ?_
  split
  · exact quiet_pure _
  · exact quiet_bind (quiet_report _ _) fun _ => quiet_pure _

/-- An item of an address constant. -/
theorem steady_item (kind : Constant.Kind) (place : Expression.Place)
    (line : Int) (cursor : Cursor) (nominal : Bytes) (length : Nat) :
    Steady (item kind place line cursor nominal length) := by
  unfold item
  split
  · exact steady_externalItem _ _ _ _
  · refine steady_bind (quiet_evaluateAt _ _ _ _).steady fun outcome => ?_
    split
    · exact (quiet_bind (quiet_report _ _) fun _ => quiet_pure _).steady
    · split
      · exact (quiet_baseItem _ _ _).steady
      · exact steady_addressItem _ _ _ _

theorem steady_items (kind : Constant.Kind) (sectionId line : Int)
    (cursor : Cursor) (loc : Int64) (values : List (Bytes × Nat)) :
    Steady (items kind sectionId line cursor loc values) := by
  induction values generalizing loc with
  | nil => exact (quiet_pure _).steady
  | cons value rest ih =>
      exact steady_bind (steady_item _ _ _ _ _ _) fun _ =>
        steady_bind (ih _) fun _ =>
        (quiet_pure _).steady

/-- The octets of a constant are gathered before anything is emitted. -/
theorem steady_constantOctets (d : Constant.Descriptor) (loc : Int64)
    (line : Int) (cursor : Cursor) :
    Steady (constantOctets d loc line cursor) := by
  unfold constantOctets
  split
  · exact steady_bind quiet_record.steady fun _ => steady_items _ _ _ _ _ _
  · split
    · exact (quiet_pure _).steady
    · exact (quiet_bind (quiet_report _ _) fun _ => quiet_pure _).steady

/-- The constants of a storage statement, one behind the other. -/
theorem steady_storageParts (parts : List (Constant.Descriptor × Int64)) :
    Steady (storageParts parts) := by
  refine steady_bind quiet_record.steady fun r => steady_mapM fun x => ?_
  exact steady_bind (steady_constantOctets _ _ _ _) fun _ =>
    (quiet_pure _).steady

/-- The constants of a pool, one behind the other. -/
theorem steady_poolParts (ids : List Nat) : Steady (poolParts ids) := by
  refine steady_bind quiet_record.steady fun r =>
    steady_bind quiet_generation.steady fun g =>
    steady_mapM fun literal => ?_
  simp only
  split
  · exact (quiet_pure _).steady
  · exact steady_bind (steady_constantOctets _ _ _ _) fun _ =>
      (quiet_pure _).steady

/-! ### Records -/

end Generate

/-- The code that a record has for the text of a module. -/
def Record.write? (r : Record) : Option Run :=
  match r.object with
  | some data => if 0 < r.sectionId ∧ data ≠ [] then
    some ⟨r.sectionId, r.loc, data⟩ else none
  | none => none

/-- What a record becomes when its code is generated: its place stays, and its
code has its length. -/
structure Record.Generated (r r' : Record) : Prop where
  place : r' = { r with
    object := r'.object
    errored := r'.errored
    firstAddress := r'.firstAddress
    secondAddress := r'.secondAddress }
  length : ∀ data, r'.object = some data → (data.length : Int) = r.length.toInt

/-- What a step of the generation leaves alone. -/
structure Generation.Adds (writes : List Run) (g g' : Generation) : Prop where
  runs : g'.runs = g.runs ++ writes
  literals : g'.literals = g.literals
  symbols : g'.symbols = { g.symbols with symbols := g'.symbols.symbols }
  definitions : ∀ name, g'.symbols.definition? name = g.symbols.definition? name
  relocations : g.relocations <+: g'.relocations
  diagnostics : g.diagnostics <+: g'.diagnostics

namespace Generation

theorem Adds.refl (g : Generation) : Adds [] g g :=
  ⟨(List.append_nil _).symm, rfl, rfl, fun _ => rfl, List.prefix_refl _,
    List.prefix_refl _⟩

theorem Adds.trans {writes others : List Run} {g g' g'' : Generation}
    (h : Adds writes g g') (h' : Adds others g' g'') :
    Adds (writes ++ others) g g'' := by
  refine ⟨?_, h'.literals.trans h.literals, ?_,
    fun name => (h'.definitions name).trans (h.definitions name),
    h.relocations.trans h'.relocations, h.diagnostics.trans h'.diagnostics⟩
  · rw [h'.runs, h.runs, List.append_assoc]
  · rw [h'.symbols, h.symbols]

end Generation

namespace Generate

/-- Emission is the one step that writes: it joins a run of octets, unless there
is no section or nothing to write. -/
theorem exec_emit (data : Bytes) (r : Record) (g : Generation) :
    exec (emit data) r g = ((), { r with object := some data },
      if 0 < r.sectionId ∧ data ≠ [] then
        { g with runs := g.runs ++ [⟨r.sectionId, r.loc, data⟩] } else g) := by
  have hset : ∀ (r' : Record) (f : Unit → Generate Unit),
      exec (do set r'; f ()) r g = exec (f ()) r' g := fun _ _ => rfl
  unfold emit
  rw [exec_bind, exec_record]
  refine (hset _ fun _ => _).trans ?_
  split <;> rfl

/-- Setting the code of a record, after steps that leave it alone. -/
theorem emit_spec {more : List Deck.Relocation} {r r₁ : Record}
    {g g₁ : Generation} (h : Kept more r g r₁ g₁)
    {data : Bytes} (hlength : (data.length : Int) = r.length.toInt) :
    r.Generated (exec (emit data) r₁ g₁).2.1 ∧
      Generation.Adds (exec (emit data) r₁ g₁).2.1.write?.toList g
        (exec (emit data) r₁ g₁).2.2 := by
  rw [exec_emit]
  refine ⟨⟨?_, fun data' hdata => ?_⟩, ?_⟩
  · rw [h.record]
  · simp only [Option.some.injEq] at hdata
    rw [← hdata]
    exact hlength
  · have hkept : Generation.Adds [] g g₁ :=
      ⟨h.runs.trans (List.append_nil _).symm, h.literals, h.symbols,
        h.definitions, h.relocations ▸ List.prefix_append _ _, h.diagnostics⟩
    simp only [Record.write?]
    split
    · exact hkept.trans ⟨rfl, rfl, rfl, fun _ => rfl, List.prefix_refl _,
        List.prefix_refl _⟩
    · exact hkept

/-- A step that leaves a record without code. -/
theorem Held.generated {more : List Deck.Relocation} {r r' : Record}
    {g g' : Generation} (h : Held more r g r' g') (hobject : r.object = none) :
    r.Generated r' ∧ Generation.Adds r'.write?.toList g g' := by
  have hnone : r'.object = none := by
    rw [h.record]
    exact hobject
  refine ⟨⟨?_, by simp [hnone]⟩, ?_⟩
  · rw [hnone, ← hobject, h.record]
  · have hwrite : r'.write? = none := by simp [Record.write?, hnone]
    rw [hwrite]
    exact ⟨h.runs.trans (List.append_nil _).symm, h.literals, h.symbols,
      h.definitions, h.relocations ▸ List.prefix_append _ _, h.diagnostics⟩

/-- The octets that constants make up are as many as the length says. -/
theorem length_assembleParts {length : Int64} {parts : List (Int64 × Bytes)}
    {data : Bytes} (h : assembleParts length parts = .ok data) :
    (data.length : Int) = length.toInt := by
  unfold assembleParts at h
  split at h
  · simp at h
  · rename_i hok
    obtain rfl := Except.ok.inj h
    have hfold : ∀ (parts : List (Int64 × Bytes)) (octets : Bytes),
        (parts.foldl
          (fun octets part => Arena.overlay part.1.toInt.toNat part.2 octets)
          octets).length = octets.length := by
      intro parts
      induction parts with
      | nil => exact fun _ => rfl
      | cons part rest ih =>
          exact fun octets => (ih _).trans (Arena.length_overlay _ _ _)
    have hnonneg : 0 ≤ length.toInt := by
      have hnot : ¬ length < 0 := fun hlt => hok (Or.inl hlt)
      rw [Int64.lt_iff_toInt_lt, Int64.toInt_zero] at hnot
      omega
    rw [hfold, List.length_replicate]
    omega

/-- Setting the code of a record to constants, after steps that leave it
alone. -/
theorem emitParts_spec {more : List Deck.Relocation} {r r₁ : Record}
    {g g₁ : Generation} (h : Kept more r g r₁ g₁)
    (hobject : r.object = none) (parts : List (Int64 × Bytes)) :
    r.Generated (exec (emitParts parts) r₁ g₁).2.1 ∧
      Generation.Adds (exec (emitParts parts) r₁ g₁).2.1.write?.toList g
        (exec (emitParts parts) r₁ g₁).2.2 := by
  have hlength : r₁.length = r.length := by rw [h.record]
  unfold emitParts
  rw [exec_bind, exec_record]
  simp only
  split
  · rename_i data hdata
    exact emit_spec h (hlength ▸ length_assembleParts hdata)
  · obtain ⟨hgenerated, hadds⟩ := h.generated hobject
    exact ⟨hgenerated, hadds.runs, hadds.literals, hadds.symbols,
      hadds.definitions, hadds.relocations, hadds.diagnostics⟩

/-- The filling of an alignment is as long as its gap. -/
theorem length_filling (loc : Int64) (n : Nat) :
    (filling loc n).length = n := by
  unfold filling
  simp only [List.length_append, List.length_replicate, List.length_flatten,
    List.map_replicate,
    List.length_cons, List.length_nil, List.sum_replicate_nat]
  split <;> omega

/-- **Generating a record** gives it code of its length at its place, or
none. -/
theorem generate_spec {r : Record} (g : Generation) (hobject : r.object = none)
    (hinstruction : ∀ op bound, r.body = .instruction op bound →
      r.length = Int64.ofNat op.length) :
    r.Generated (exec generate r g).2.1 ∧
      Generation.Adds (exec generate r g).2.1.write?.toList g
        (exec generate r g).2.2 := by
  have hmild : ∀ {x : Generate Unit}, Mild x → r.Generated (exec x r g).2.1 ∧
      Generation.Adds (exec x r g).2.1.write?.toList g (exec x r g).2.2 :=
    fun hx => (hx r g).generated hobject
  unfold generate
  rw [exec_bind, exec_record]
  simp only
  split
  · rename_i op bound hbody
    rw [exec_bind]
    have hkept := quiet_instructionOctets op r g
    refine emit_spec hkept ?_
    rw [length_instructionOctets, hinstruction op bound hbody]
    have hsmall : op.length < 2 ^ 63 := by
      unfold Instruction.length
      cases op.format <;> decide
    rw [Int64.toInt_ofNat_of_lt hsmall]
  · rw [exec_bind]
    obtain ⟨more, hkept⟩ := steady_storageParts _ r g
    exact emitParts_spec hkept hobject _
  · rw [exec_bind]
    obtain ⟨more, hkept⟩ := steady_poolParts _ r g
    exact emitParts_spec hkept hobject _
  · exact hmild (quiet_forM fun _ => quiet_discard (quiet_evaluate _ _)).mild
  · exact hmild mild_useBases
  · exact hmild mild_dropBases
  · exact hmild mild_endProgram
  · split
    · obtain ⟨hgenerated, hadds⟩ := (Kept.refl r g).generated hobject
      exact ⟨hgenerated, hadds.runs, hadds.literals, hadds.symbols,
        hadds.definitions, hadds.relocations, hadds.diagnostics⟩
    · rename_i hlength
      refine emit_spec (Kept.refl r g) ?_
      rw [Int64.lt_iff_toInt_lt, Int64.toInt_zero] at hlength
      rw [length_filling]
      omega
  · exact hmild (quiet_pure _).mild

end Generate

namespace Generation

/-- What a record has to be before its code is generated. -/
def Ready (r : Record) : Prop :=
  r.object = none ∧ ∀ op bound, r.body = .instruction op bound →
    r.length = Int64.ofNat op.length

/-- **One record** is generated as its body says, and what it writes joins the
runs. -/
theorem step_spec {r : Record} (g : Generation) (h : Ready r) :
    r.Generated (g.step r).1 ∧
      Adds (g.step r).1.write?.toList g (g.step r).2 := by
  unfold step
  split
  · exact (Generate.Kept.refl r g).generated h.1
  · exact Generate.generate_spec g h.1 h.2

/-- Nothing happens behind a fault. -/
theorem run_of_fault {g : Generation} (h : g.fault.isSome)
    (records : List Record) :
    g.run records = (records, g) := by
  induction records with
  | nil => rfl
  | cons r rest ih =>
      have hstep : g.step r = (r, g) := by simp [step, h]
      simp [run, hstep, ih]

/-- A generation without a fault had none before. -/
theorem fault_of_run {g : Generation} {records : List Record}
    (h : (g.run records).2.fault = none) : g.fault = none := by
  cases hfault : g.fault with
  | none => rfl
  | some e =>
      rw [run_of_fault (by simp [hfault]), hfault] at h
      exact h

/-- Records one after the other, in two parts. -/
theorem run_append (g : Generation) (records others : List Record) :
    (g.run (records ++ others)).1 = (g.run records).1 ++
      ((g.run records).2.run others).1 ∧
      (g.run (records ++ others)).2 = ((g.run records).2.run others).2 := by
  induction records generalizing g with
  | nil => exact ⟨rfl, rfl⟩
  | cons r rest ih =>
      obtain ⟨hrecords, hstate⟩ := ih (g.step r).2
      exact ⟨congrArg ((g.step r).1 :: ·) hrecords, hstate⟩

/-- A generation without a fault has had none after any number of records. -/
theorem fault_run_take {g : Generation}
    {records : List Record} (h : (g.run records).2.fault = none) (n : Nat) :
    (g.run (records.take n)).2.fault = none := by
  have hall := (g.run_append (records.take n) (records.drop n)).2
  rw [List.take_append_drop] at hall
  exact fault_of_run (hall ▸ h)

/-- Every record is generated in the state behind the records before it. -/
theorem getElem?_run (g : Generation) (records : List Record) (n : Nat) :
    (g.run records).1[n]? =
      records[n]?.map fun r => ((g.run (records.take n)).2.step r).1 := by
  induction records generalizing g n with
  | nil => rfl
  | cons first rest ih =>
      cases n with
      | zero => rfl
      | succ n => exact ih (g.step first).2 n

/-- **The runs of a program are the code of its records**, in their order. -/
theorem run_spec {records : List Record} (g : Generation)
    (h : ∀ r ∈ records, Ready r) :
    (∀ r' ∈ (g.run records).1, ∃ r ∈ records, r.Generated r') ∧
      Adds ((g.run records).1.filterMap Record.write?) g (g.run records).2 := by
  induction records generalizing g with
  | nil => exact ⟨by simp [run], Adds.refl g⟩
  | cons r rest ih =>
      obtain ⟨hfirst, hadds⟩ := step_spec g (h r List.mem_cons_self)
      obtain ⟨hrest, hmore⟩ :=
        ih (g.step r).2 fun r hr => h r (List.mem_cons_of_mem _ hr)
      refine ⟨fun r' hr' => ?_, ?_⟩
      · rcases List.mem_cons.mp hr' with rfl | hr'
        · exact ⟨r, List.mem_cons_self, hfirst⟩
        · obtain ⟨r₀, hr₀, hgenerated⟩ := hrest r' hr'
          exact ⟨r₀, List.mem_cons_of_mem _ hr₀, hgenerated⟩
      · have hwrites : (g.run (r :: rest)).1.filterMap Record.write? =
            (g.step r).1.write?.toList ++
              ((g.step r).2.run rest).1.filterMap Record.write? := by
          simp only [run, List.filterMap_cons]
          cases (g.step r).1.write? <;> rfl
        rw [hwrites]
        exact hadds.trans hmore

end Generation

end System370
