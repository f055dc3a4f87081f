import Mathlib.Logic.Relation
import System370.Layout.Program

/-!
# What a statement may do to a draft

Laying a statement out is a sequence of small steps on its draft.  There are
only a few kinds of them: something is reported, a constant is refused, the
record at hand gets a place, a body or a label, the symbol table takes a step of
its own, or something else of the layout changes.  `Draft.Step` lists them, and
`Draft.Steps` is a sequence of them.

A section statement does more, as it starts a section with a label.  All other
statements before the end are such a sequence (`Draft.steps_layOutMark`,
`Draft.steps_layOutInstruction`, `Draft.steps_layOutDirective`), so that
whatever holds of the small steps holds of them.
-/

namespace System370

/-- Whether an operand of a statement, or the literal that it is, describes a
constant whose conversion never comes to an end. -/
def Statement.HasEndless (s : Statement) : Prop :=
  ∃ operand ∈ s.operands, ∃ text, (text = operand ∨ text = operand.tail) ∧
    ∃ (t : SymbolTable) (place : Expression.Place) (d : Constant.Descriptor),
      (Constant.parse (Expression.absolute t place) text).result = .ok d ∧
        d.validation = .error .endless

/-- A numbered operand is an operand. -/
theorem Statement.mem_operands_of_numbered {s : Statement}
    {operand : Nat × Bytes} (h : operand ∈ s.numbered) :
    operand.2 ∈ s.operands := (List.of_mem_zip h).2

/-- A small step on the symbol table.  It starts no section but the unnamed
one. -/
inductive SymbolTable.Step (t : SymbolTable) : SymbolTable → Prop
  | reference (names : List Bytes) (r : Reference) :
      Step t (names.foldl (fun t name => t.reference name r) t)
  | define {name : Bytes} {d : Definition} {t' : SymbolTable}
      (h : t.define name d = .ok t') :
      Step t t'
  | referenceExternal (name : Bytes) (line : Int) :
      Step t (t.referenceExternal name line)
  | declareExternal {name : Bytes} {weak : Bool} {line : Int} {t' : SymbolTable}
      (h : t.declareExternal name weak line = .ok t') : Step t t'
  | addEntry (name : Bytes) (line : Int) : Step t (t.addEntry name line)
  | setLoc (loc : Int64) : Step t (t.setLoc loc)
  | openUnnamed {line : Int} {t' : SymbolTable}
      (h : t.openSection [] .unnamed line = .ok t') :
      Step t t'

namespace Draft

/-- A small step on a draft. -/
inductive Step (d : Draft) : Draft → Prop
  | report (cursor : Cursor) (problem : Problem) :
      Step d (d.report cursor problem)
  /-- A constant is refused, and if its conversion never ends, then the
  statement has such a constant. -/
  | refuse {failure : Constant.Failure}
      (cursor : Cursor) (h : failure = .endless → d.statement.HasEndless) :
        Step d (d.refuse failure cursor)
  /-- Something of the record changes, but not what it is the record of. -/
  | record {r : Record} (hstatement : r.statement = d.record.statement)
      (hdirective : r.directive = d.record.directive)
        (herrored : r.errored = d.record.errored) :
      Step d { d with record := r }
  | symbols {t : SymbolTable} (h : d.layout.symbols.Step t) :
      Step d (d.mapSymbols fun _ => t)
  /-- Something of the layout changes beside the symbols and the reports. -/
  | layout {l : Layout} (hsymbols : l.symbols = d.layout.symbols)
      (hdiagnostics : l.diagnostics = d.layout.diagnostics)
        (hended : l.ended = d.layout.ended)
      (hafter : l.afterEnd = d.layout.afterEnd)
        (hendless : l.endless = d.layout.endless) :
      Step d { d with layout := l }

/-- Small steps one after the other. -/
def Steps : Draft → Draft → Prop := Relation.ReflTransGen Step

variable {d d' d'' : Draft}

theorem Steps.refl (d : Draft) : d.Steps d := Relation.ReflTransGen.refl

theorem Steps.trans (h : d.Steps d') (h' : d'.Steps d'') : d.Steps d'' :=
  Relation.ReflTransGen.trans h h'

theorem Steps.step (h : d.Steps d') (hstep : d'.Step d'') : d.Steps d'' :=
  Relation.ReflTransGen.tail h hstep

theorem Step.steps (h : d.Step d') : d.Steps d' := (Steps.refl d).step h

/-- **Sequences by their steps**: a relation that every step has, and that
sequences inherit. -/
theorem Steps.lift {R : Draft → Draft → Prop}
    (hrefl : ∀ d, R d d) (htrans : ∀ {d d' d''}, R d d' → R d' d'' → R d d'')
    (hstep : ∀ {d d'}, d.Step d' → R d d') (h : d.Steps d') : R d d' := by
  induction h with
  | refl => exact hrefl d
  | tail _ hlast ih => exact htrans ih (hstep hlast)

/-- A small step stays at its statement. -/
theorem Step.statement (h : d.Step d') : d'.statement = d.statement := by
  cases h with
  | record hstatement => exact hstatement
  | _ => rfl

/-- No step changes the statement that is laid out. -/
theorem Steps.statement (h : d.Steps d') : d'.statement = d.statement :=
  h.lift (R := fun d d' => d'.statement = d.statement) (fun _ => rfl)
    (fun h h' => h'.trans h)
    Step.statement

/-- A diagnostic is a step. -/
theorem Steps.report (h : d.Steps d') (cursor : Cursor) (problem : Problem) :
    d.Steps (d'.report cursor problem) := h.step (.report cursor problem)

theorem Steps.withBody (h : d.Steps d') (body : Record.Body) :
    d.Steps (d'.withBody body) :=
  h.step (.record rfl rfl rfl)

/-- The record takes its place. -/
theorem Steps.withLoc (h : d.Steps d') (loc : Int64) :
    d.Steps (d'.withLoc loc) :=
  h.step (.record rfl rfl rfl)

/-- The location counter of the section is set. -/
theorem Steps.setLoc (h : d.Steps d') (loc : Int64) : d.Steps (d'.setLoc loc) :=
  h.step (.symbols (.setLoc loc))

/-! ### Steps on the symbol table -/

/-- The record takes the place of the location counter. -/
theorem steps_locate (d : Draft) : d.Steps d.locate := by
  unfold locate
  split
  · exact Step.steps (.record rfl rfl rfl)
  · exact Steps.refl _

/-- Where no section is open, the unnamed one is opened. -/
theorem steps_ensureSection (d : Draft) : d.Steps d.ensureSection := by
  unfold ensureSection
  split
  · exact steps_locate d
  · split
    · rename_i t ht
      exact (Step.steps (.symbols (.openUnnamed ht))).trans (steps_locate _)
    · exact Steps.refl _

/-- A definition joins the table, or a diagnostic says why it cannot. -/
theorem Steps.define (h : d.Steps d') (name : Bytes) (definition : Definition) :
    d.Steps (d'.define name definition) := by
  unfold Draft.define
  split
  · rename_i t ht
    exact h.step (.symbols (.define ht))
  · exact h.report _ _

/-- The label of a statement names a place of its section. -/
theorem Steps.defineLabel (h : d.Steps d') (loc length : Int64) (kind : UInt8) :
    d.Steps (d'.defineLabel loc length kind) := by
  unfold Draft.defineLabel
  split
  · exact h
  · exact h.define _ _

/-- The label of a mark names a place of no length. -/
theorem Steps.defineMark (h : d.Steps d') (loc : Int64) :
    d.Steps (d'.defineMark loc) :=
  h.defineLabel _ _ _

/-- A label that no directive takes is reported. -/
theorem steps_checkLabel (d : Draft) : d.Steps d.checkLabel := by
  unfold checkLabel
  simp only
  split
  · exact (Steps.refl d).report _ _
  · split
    · exact (Steps.refl d).report _ _
    · exact Step.steps (.record rfl rfl rfl)

/-- An expression is read, and its references are noted. -/
theorem steps_evaluate (d : Draft) (text : Bytes) :
    d.Steps (d.evaluate text).2 :=
  Step.steps (.symbols (.reference _ _))

theorem steps_absolute (d : Draft) (text : Bytes) :
    d.Steps (d.absolute text).2 :=
  Step.steps (.symbols (.reference _ _))

theorem steps_parseConstant (d : Draft) (text : Bytes) :
    d.Steps (d.parseConstant text).2 :=
  Step.steps (.symbols (.reference _ _))

/-! ### Instructions and constants -/

/-- The names of a `V` constant join the external names, one after the other, up
to one that is refused. -/
theorem steps_registerExternals (d : Draft) (cursor : Cursor)
    (names : List Bytes) :
    d.Steps (d.registerExternals cursor names).2 := by
  induction names generalizing d with
  | nil => exact Steps.refl _
  | cons nominal rest ih =>
      unfold registerExternals
      simp only
      split
      · exact (Step.steps (.symbols (.referenceExternal _ _))).trans (ih _)
      · exact (Steps.refl d).report _ _

/-- Checking the values of a constant of the statement. -/
theorem steps_checkValues (d : Draft) {descriptor : Constant.Descriptor}
    (cursor : Cursor)
    (h : descriptor.validation = .error .endless → d.statement.HasEndless) :
    d.Steps (d.checkValues descriptor cursor).2 := by
  unfold checkValues
  split
  · exact steps_registerExternals _ _ _
  · split
    · exact Steps.refl _
    · split
      · exact Steps.refl _
      · rename_i failure hfailure
        exact Step.steps
          (.refuse cursor fun hendless => h (hendless ▸ hfailure))

/-- The operand of an instruction is bound to a literal. -/
theorem steps_bindLiteral (d : Draft) (operand id : Nat) :
    d.Steps (d.bindLiteral operand id) := by
  unfold bindLiteral
  split
  · exact (Steps.refl d).withBody _
  · exact Steps.refl _

/-- A literal joins the pool, or its text is there already. -/
theorem steps_internLiteral (d : Draft) (text : Bytes)
    (descriptor : Constant.Descriptor) (operand : Nat) :
    d.Steps (d.internLiteral text descriptor operand) := by
  unfold internLiteral
  simp only
  split
  · rename_i literals literal _
    have hpool : d.Step { d with layout := { d.layout with literals } } :=
      .layout rfl rfl rfl rfl rfl
    exact hpool.steps.trans (steps_bindLiteral _ _ _)
  · exact (Steps.refl d).report _ _
  · exact (Steps.refl d).report _ _

/-- A constant that an operand describes is one that the statement has. -/
theorem hasEndless_of_parseConstant {d : Draft}
    {operand text : Bytes} (hoperand : operand ∈ d.statement.operands)
    (htext : text = operand ∨ text = operand.tail)
    {descriptor : Constant.Descriptor}
    (hparsed : (d.parseConstant text).1 = .ok descriptor)
    (hendless : descriptor.validation = .error .endless) :
    d.statement.HasEndless := by
  unfold parseConstant at hparsed
  simp only at hparsed
  split at hparsed
  · rename_i parsed hresult
    obtain rfl := Except.ok.inj hparsed
    exact ⟨operand, hoperand, text, htext, _, _, _, hresult, hendless⟩
  · cases hparsed
  · cases hparsed

/-- An operand that is a literal: it is read, its external names join, its
constant is checked and it joins the pool. -/
theorem steps_layOutLiteral (d : Draft) (operand : Nat)
    {text : Bytes} (htext : text ∈ d.statement.operands) :
    d.Steps (d.layOutLiteral operand text) := by
  have hparse := steps_parseConstant d text.tail
  unfold layOutLiteral
  simp only
  split
  · exact hparse.report _ _
  · rename_i descriptor hparsed
    split
    · exact hparse.report _ _
    · have hcheck :=
        hparse.trans (steps_checkValues (d.parseConstant text.tail).2
          (d.statement.operandCursor operand)
          (hasEndless_of_parseConstant htext (Or.inr rfl) hparsed))
      split
      · exact hcheck.trans (steps_internLiteral _ _ _ _)
      · exact hcheck

/-- The literals among the operands of an instruction, in their order. -/
theorem steps_layOutLiterals (d : Draft) (op : Instruction) :
    d.Steps (d.layOutLiterals op) := by
  unfold layOutLiterals
  refine List.foldlRecOn (motive :=
    d.Steps) _ _ (Steps.refl d) fun e hbefore operand hmem => ?_
  simp only
  split
  · exact hbefore.trans
      (steps_layOutLiteral _ _
        (hbefore.statement ▸ Statement.mem_operands_of_numbered hmem))
  · exact hbefore

theorem steps_layOutInstruction (d : Draft) (op : Instruction) :
    d.Steps (d.layOutInstruction op) := by
  have hstart : ∀ loc length behind : Int64, ∀ kind : UInt8, d.Steps
      (({ d.ensureSection with record :=
          { d.ensureSection.record with
            body := .instruction op [], loc, length } } :
        Draft).setLoc behind |>.defineLabel loc length kind) := fun _ _ _ _ =>
    (((steps_ensureSection d).step (.record (by rfl) (by rfl) (by rfl))).setLoc
      _).defineLabel _ _ _
  unfold layOutInstruction
  simp only
  split
  · exact hstart _ _ _ _
  · split
    · exact (hstart _ _ _ _).report _ _
    · split
      · exact (hstart _ _ _ _).report _ _
      · exact (hstart _ _ _ _).trans (steps_layOutLiterals _ _)

/-- The values of a constant are checked.  This is the step that may not come
back: only where an operand of the statement is endless. -/
theorem steps_acceptData (d : Draft) {descriptor : Constant.Descriptor}
    (cursor : Cursor)
    (h : descriptor.validation = .error .endless → d.statement.HasEndless) :
    d.Steps (d.acceptData descriptor cursor).2 := by
  unfold acceptData
  split
  · exact (Steps.refl d).report _ _
  · exact steps_checkValues _ _ h

/-- A constant takes its place. -/
theorem steps_placeConstant (d : Draft) (descriptor : Constant.Descriptor)
    (loc : Int64) :
    d.Steps (d.placeConstant descriptor loc) := by
  unfold placeConstant
  simp only
  split
  · exact (((Steps.refl d).withLoc _).defineLabel _ _ _).withBody _
  · exact (Steps.refl d).withBody _

/-- An operand of a storage statement. -/
theorem steps_layOutConstant (isData : Bool) (state : Draft × Int64)
    {operand : Nat × Bytes}
    (hoperand : operand.2 ∈ state.1.statement.operands) :
    state.1.Steps (layOutConstant isData state operand).1 := by
  obtain ⟨d, loc⟩ := state
  have hparse := steps_parseConstant d operand.2
  unfold layOutConstant
  simp only
  split
  · exact hparse.report _ _
  · rename_i descriptor hparsed
    have haccept := steps_acceptData (d.parseConstant operand.2).2
      (d.statement.operandCursor operand.1)
      (hasEndless_of_parseConstant hoperand (Or.inl rfl) hparsed)
    cases isData with
    | false =>
        rw [if_neg Bool.false_ne_true, if_pos rfl]
        exact hparse.trans (steps_placeConstant _ _ _)
    | true =>
        rw [if_pos rfl]
        split
        · exact (hparse.trans haccept).trans (steps_placeConstant _ _ _)
        · exact hparse.trans haccept

/-- A storage statement: its operands follow each other. -/
theorem steps_layOutStorage (d : Draft) (isData : Bool) :
    d.Steps (d.layOutStorage isData) := by
  have hfold : ∀ (operands : List (Nat × Bytes)) (state : Draft × Int64),
      (∀ operand ∈ operands, operand.2 ∈ state.1.statement.operands) →
      state.1.Steps (operands.foldl (layOutConstant isData) state).1 := by
    intro operands
    induction operands with
    | nil => exact fun state _ => Steps.refl state.1
    | cons operand rest ih =>
        intro state hall
        have hfirst :=
          steps_layOutConstant isData state (hall operand List.mem_cons_self)
        exact hfirst.trans (ih _ fun other hother =>
          hfirst.statement ▸ hall other (List.mem_cons_of_mem _ hother))
  have hstart : d.Steps (d.ensureSection.withBody (.storage [])) :=
    (steps_ensureSection d).withBody _
  unfold layOutStorage
  simp only
  split
  · exact (hstart.report _ _).defineMark _
  · have hall := hstart.trans (hfold
      (d.ensureSection.withBody (.storage [])).statement.numbered
      (d.ensureSection.withBody (.storage []),
        (d.ensureSection.withBody (.storage [])).loc)
      fun _ => Statement.mem_operands_of_numbered)
    split
    · exact hall.defineMark _
    · exact (hall.step (.record (by rfl) (by rfl) (by rfl))).setLoc _

/-! ### Directives -/

/-- Equates that wait are settled. -/
theorem Steps.settle (h : d.Steps d') (last : Bool) :
    d.Steps (d'.settle last) := by
  unfold Draft.settle
  split
  · split
    · exact h.withBody _
    · exact (h.withBody _).report _ _
  · exact (h.withBody _).define _ _

/-- The label that a directive needs is there or is missed. -/
theorem Steps.requireLabel (h : d.Steps d') : d.Steps d'.requireLabel := by
  unfold Draft.requireLabel
  split
  · exact h.report _ _
  · exact h

/-- `EQU`, settled at once or left to wait. -/
theorem steps_layOutEquate (d : Draft) : d.Steps d.layOutEquate := by
  have hstart : d.Steps (d.locate.withBody (.equate (.absolute 0) false)) :=
    (steps_locate d).withBody _
  unfold layOutEquate
  simp only
  split
  · exact hstart.requireLabel
  · split
    · exact hstart.report _ _
    · exact hstart.settle _

/-- The location counter moves to a place of its section. -/
theorem Steps.moveTo (h : d.Steps d') (target : Int64) :
    d.Steps (d'.moveTo target) :=
  ((h.setLoc target).withLoc target).defineMark target

/-- `ORG`, with its operand or back to the highest place. -/
theorem steps_layOutOrigin (d : Draft) : d.Steps d.layOutOrigin := by
  have hstart : d.Steps (d.ensureSection.withBody .located) :=
    (steps_ensureSection d).withBody _
  unfold layOutOrigin
  simp only
  split
  · exact hstart.moveTo _
  · rename_i text _
    have hvalue :=
      hstart.trans (steps_evaluate (d.ensureSection.withBody .located) text)
    split
    · exact hvalue.report _ _
    · split
      · exact hvalue.report _ _
      · exact hvalue.moveTo _

/-- Two absolute operands, as those of `CNOP`. -/
theorem steps_absolutePair (d : Draft) (a b : Bytes) :
    d.Steps (d.absolutePair a b).2 := by
  unfold absolutePair
  simp only
  split
  · exact steps_absolute d a
  · split <;> exact (steps_absolute d a).trans (steps_absolute _ b)

/-- `CNOP`, whose operands are checked before the counter moves. -/
theorem steps_layOutAlignment (d : Draft) : d.Steps d.layOutAlignment := by
  have hstart : d.Steps (d.ensureSection.withBody .located) :=
    (steps_ensureSection d).withBody _
  unfold layOutAlignment
  simp only
  split
  · rename_i a b _
    have hpair :=
      hstart.trans (steps_absolutePair (d.ensureSection.withBody .located) a b)
    split
    · exact hpair.report _ _
    · split
      · exact hpair.report _ _
      · split
        · exact hpair.report _ _
        · exact ((hpair.step (.record (by rfl) (by rfl) (by rfl))).setLoc
            _).defineMark _
  · split
    · exact hstart.report _ _
    · exact hstart.report _ _

/-- `LTORG`: the literals that wait take their places. -/
theorem steps_layOutPool (d : Draft) : d.Steps d.layOutPool := by
  unfold layOutPool
  simp only
  have hflushed :=
    (steps_ensureSection d).step (.layout (l := { d.ensureSection.layout with
      literals :=
        (d.ensureSection.layout.literals.flush d.ensureSection.record.sectionId
        d.ensureSection.loc).pool }) rfl rfl rfl rfl rfl)
  split
  · exact (hflushed.withBody _).defineMark _
  · exact ((hflushed.step (.record (by rfl) (by rfl) (by rfl))).setLoc
      _).defineMark _

theorem Steps.forEachName (h : d.Steps d')
    {handle : Draft → Cursor → Bytes → Draft}
    (hhandle : ∀ (d : Draft) cursor name, d.Steps (handle d cursor name)) :
    d.Steps (d'.forEachName handle) := by
  unfold Draft.forEachName
  split
  · exact h.report _ _
  · refine List.foldlRecOn (motive :=
      d.Steps) _ _ h fun e hbefore operand _ => ?_
    simp only
    split
    · exact hbefore.trans (hhandle _ _ _)
    · exact hbefore.report _ _

theorem steps_offer (d : Draft) (cursor : Cursor) (name : Bytes) :
    d.Steps (d.offer cursor name) := by
  have hentry : d.Steps
      ((d.mapSymbols (·.addEntry name d.statement.line)).reference [name]) :=
    (Step.steps (.symbols (.addEntry name d.statement.line))).step
      (.symbols (.reference [name] _))
  unfold offer
  simp only
  split
  · exact hentry
  · exact hentry.step (.layout rfl rfl rfl rfl rfl)

theorem steps_declare (weak : Bool) (d : Draft) (cursor : Cursor)
    (name : Bytes) :
    d.Steps (declare weak d cursor name) := by
  unfold declare
  split
  · rename_i t ht
    exact Step.steps (.symbols (.declareExternal ht))
  · exact (Steps.refl d).report _ _

/-- `AMODE` or `RMODE` of a section. -/
theorem steps_layOutMode (d : Draft) (isAddressing : Bool) :
    d.Steps (d.layOutMode isAddressing) := by
  unfold layOutMode
  split
  · rename_i operand _
    simp only
    generalize (if isAddressing then validAddressingMode (toUpper operand)
      else validResidenceMode (toUpper operand)) = valid
    cases valid with
    | true => exact Step.steps (.layout rfl rfl rfl rfl rfl)
    | false => exact (Steps.refl d).report _ _
  · exact (Steps.refl d).report _ _

/-- `TITLE`, whose operand is a string. -/
theorem steps_layOutTitle (d : Draft) : d.Steps d.layOutTitle := by
  unfold layOutTitle
  split
  · exact Step.steps (.layout rfl rfl rfl rfl rfl)
  · exact Steps.refl _

theorem steps_layOutMark (d : Draft) : d.Steps d.layOutMark :=
  ((steps_ensureSection d).withBody .located).defineMark _

end Draft

namespace Directive

/-- Whether a directive opens a section. -/
def isSection : Directive → Bool
  | start | csect | rsect | dsect => true
  | _ => false

end Directive

namespace Draft

/-- **A directive is a sequence of small steps**, unless it opens a section. -/
theorem steps_layOutDirective (d : Draft)
    {directive : Directive} (h : directive.isSection = false) :
    d.Steps (d.layOutDirective directive) := by
  have hstart : d.Steps (d.locate.withBody .located) :=
    (steps_locate d).withBody _
  cases directive with
  | start | csect | rsect | dsect => simp [Directive.isSection] at h
  | dc | ds => exact steps_layOutStorage d _
  | equ => exact steps_layOutEquate d
  | org => exact steps_layOutOrigin d
  | cnop => exact steps_layOutAlignment d
  | ltorg => exact steps_layOutPool d
  | use =>
      unfold layOutDirective
      simp only
      split
      · exact hstart.report _ _
      · exact hstart
  | drop => exact hstart
  | entry => exact hstart.forEachName steps_offer
  | extrn | wxtrn =>
      exact ((Steps.refl d).withBody _).forEachName (steps_declare _)
  | amode | rmode => exact steps_layOutMode d _
  | title => exact steps_layOutTitle d
  | ending | eject | space | print => exact Steps.refl _

end Draft

end System370
