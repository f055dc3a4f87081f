import Mathlib.Data.List.Forall2
import System370.Layout.Program
import System370.Proofs.LineNumbers

/-!
# Two layouts side by side

Two programs are laid out side by side to see which parts of their statements
matter.  A `Comparison` says when two statements correspond and what is compared
of the rest: lines, cursors and diagnostics.  Labels, mnemonics and operands
have to be the same, and reports of the same problem in corresponding places may
not tell the programs apart.

Then the layouts cannot be told apart either.  Every step on a draft takes
drafts that are `Alike` to drafts that are `Alike`, for any comparison.
-/

namespace System370

/-- A problem with another number of a line. -/
def Problem.mapLine (φ : Int → Int) : Problem → Problem
  | replacedBase register line => replacedBase register (φ line)
  | problem => problem

/-- How severe a problem is does not depend on its lines. -/
theorem Problem.severity_mapLine (φ : Int → Int) (p : Problem) :
    (p.mapLine φ).severity = p.severity := by
  cases p <;> rfl

/-- What is compared of two programs. -/
structure Comparison where
  /-- What of the number of a line. -/
  line : Int → Int
  cursors : Cursor → Cursor → Prop
  statements : Statement → Statement → Prop
  diagnostics : List Diagnostic → List Diagnostic → Prop
  /-- Whether statements behind the end were reported. -/
  marks : Bool → Bool → Prop
  label : ∀ {s s'}, statements s s' → s'.label = s.label
  mnemonic : ∀ {s s'}, statements s s' → s'.mnemonic = s.mnemonic
  operands : ∀ {s s'}, statements s s' → s'.operands = s.operands
  lines : ∀ {s s'}, statements s s' → line s'.line = line s.line
  labelCursor : ∀ {s s'}, statements s s' → cursors s.labelCursor s'.labelCursor
  labelCharCursor : ∀ {s s'}, statements s s' → ∀ i,
    cursors (s.labelCharCursor i) (s'.labelCharCursor i)
  mnemonicCursor : ∀ {s s'}, statements s s' →
    cursors s.mnemonicCursor s'.mnemonicCursor
  operandCursor : ∀ {s s'}, statements s s' → ∀ i,
    cursors (s.operandCursor i) (s'.operandCursor i)
  operandsCursor : ∀ {s s'}, statements s s' →
    cursors s.operandsCursor s'.operandsCursor
  lineCursor : ∀ {n n' : Int}, line n' = line n →
    cursors ⟨n.toNat, 1, 0, 0, 0⟩ ⟨n'.toNat, 1, 0, 0, 0⟩
  report : ∀ {ds ds' x x' p p'}, diagnostics ds ds' → cursors x x' →
    Problem.mapLine line p' = Problem.mapLine line p →
    diagnostics (ds ++ [⟨x, p⟩]) (ds' ++ [⟨x', p'⟩])

variable {c : Comparison}

/-- Two layouts that a comparison does not tell apart. -/
structure Layout.Alike (c : Comparison) (l l' : Layout) : Prop where
  symbols : l.symbols.Alike c.line l'.symbols
  literals : l.literals.Alike c.line l'.literals
  diagnostics : c.diagnostics l.diagnostics l'.diagnostics
  modes : l'.modes = l.modes
  entryCursors :
    List.Forall₂ (fun e e' => e'.1 = e.1 ∧ c.cursors e.2 e'.2) l.entryCursors
    l'.entryCursors
  deckId : l'.deckId = l.deckId
  ended : l'.ended = l.ended
  afterEnd : c.marks l.afterEnd l'.afterEnd
  endless : l'.endless = l.endless

/-- Two records that a comparison does not tell apart. -/
structure Record.Alike (c : Comparison) (r r' : Record) : Prop where
  statement : c.statements r.statement r'.statement
  directive : r'.directive = r.directive
  body : r'.body = r.body
  sectionId : r'.sectionId = r.sectionId
  loc : r'.loc = r.loc
  length : r'.length = r.length
  label : r'.label = r.label
  object : r'.object = r.object
  firstAddress : r'.firstAddress = r.firstAddress
  secondAddress : r'.secondAddress = r.secondAddress
  errored : r'.errored = r.errored

/-- Two drafts that a comparison does not tell apart. -/
structure Draft.Alike (c : Comparison) (d d' : Draft) : Prop where
  layout : d.layout.Alike c d'.layout
  record : d.record.Alike c d'.record

namespace Record.Alike

variable {r r' : Record}

/-- The records stand at one place. -/
theorem place (h : r.Alike c r') : r'.place = r.place := by
  simp only [Record.place, Record.instruction?, h.body, h.sectionId, h.loc]

/-- The statements are listed under one number. -/
theorem numbered (h : r.Alike c r') :
    r'.statement.numbered = r.statement.numbered := by
  simp only [Statement.numbered, c.operands h.statement]

end Record.Alike

namespace Draft

variable {d d' : Draft}

namespace Alike

theorem operands (h : d.Alike c d') :
    d'.statement.operands = d.statement.operands :=
  c.operands h.record.statement

theorem mnemonic (h : d.Alike c d') :
    d'.statement.mnemonic = d.statement.mnemonic :=
  c.mnemonic h.record.statement

/-- The cursors of one operand correspond. -/
theorem cursor (h : d.Alike c d') (i : Nat) :
    c.cursors (d.statement.operandCursor i) (d'.statement.operandCursor i) :=
  c.operandCursor h.record.statement i

theorem line (h : d.Alike c d') :
    c.line d'.statement.line = c.line d.statement.line :=
  c.lines h.record.statement

/-- Both drafts are outside any section, or in sections that cannot be told
apart. -/
theorem currentSection? (h : d.Alike c d') :
    (d.currentSection? = none ∧ d'.currentSection? = none) ∨
      ∃ s s', d.currentSection? = some s ∧ d'.currentSection? = some s' ∧
        s'.mapLine c.line = s.mapLine c.line :=
  map_eq_map_cases h.layout.symbols.currentSection?

/-- What does not depend on the line of a section is the same in both drafts. -/
theorem map_currentSection? {α : Type} (h : d.Alike c d') {f : Section → α}
    (hf : ∀ s, f (s.mapLine c.line) = f s) :
    d'.currentSection?.map f = d.currentSection?.map f := by
  rcases h.currentSection? with ⟨hs, hs'⟩ | ⟨s, s', hs, hs', heq⟩
  · rw [hs, hs']
  · rw [hs, hs', Option.map_some, Option.map_some, ← hf s', heq, hf]

theorem loc (h : d.Alike c d') : d'.loc = d.loc := by
  unfold Draft.loc
  rw [h.map_currentSection? (f := fun s => s.loc) fun _ => rfl]

/-! ### Small steps -/

/-- A diagnostic joins both sides, at cursors that correspond. -/
theorem report (h : d.Alike c d') {x x' : Cursor} (hx : c.cursors x x')
    (p : Problem) :
    (d.report x p).Alike c (d'.report x' p) :=
  ⟨{ h.layout with diagnostics := c.report h.layout.diagnostics hx rfl },
    { h.record with
      errored := congrArg (· || p.severity.isError) h.record.errored }⟩

/-- A change of both tables that keeps them alike. -/
theorem mapSymbols (h : d.Alike c d') {f f' : SymbolTable → SymbolTable}
    (hf : (f d.layout.symbols).Alike c.line (f' d'.layout.symbols)) :
    (d.mapSymbols f).Alike c (d'.mapSymbols f') :=
  ⟨{ h.layout with symbols := hf }, { h.record with }⟩

theorem reference (h : d.Alike c d') (names : List Bytes) :
    (d.reference names).Alike c (d'.reference names) :=
  h.mapSymbols (h.layout.symbols.referenceAll names
    (by simp [Reference.mapLine, h.line]))

theorem withBody (h : d.Alike c d') (body : Record.Body) :
    (d.withBody body).Alike c (d'.withBody body) :=
  ⟨{ h.layout with }, { h.record with body := rfl }⟩

theorem withLoc (h : d.Alike c d') (loc : Int64) :
    (d.withLoc loc).Alike c (d'.withLoc loc) :=
  ⟨{ h.layout with }, { h.record with loc := rfl }⟩

theorem withLength (h : d.Alike c d') {length length' : Int64}
    (hlength : length' = length) :
    Draft.Alike c { d with record := { d.record with length } }
      { d' with record := { d'.record with length := length' } } :=
  ⟨{ h.layout with }, { h.record with length := hlength }⟩

theorem withLiterals (h : d.Alike c d') {q q' : LiteralPool}
    (hq : q.Alike c.line q') :
    Draft.Alike c { d with layout := { d.layout with literals := q } }
      { d' with layout := { d'.layout with literals := q' } } :=
  ⟨{ h.layout with literals := hq }, { h.record with }⟩

theorem setLoc (h : d.Alike c d') (loc : Int64) :
    (d.setLoc loc).Alike c (d'.setLoc loc) :=
  h.mapSymbols (h.layout.symbols.setLoc loc)

theorem locate (h : d.Alike c d') : d.locate.Alike c d'.locate := by
  unfold Draft.locate
  rcases h.currentSection? with ⟨hs, hs'⟩ | ⟨s, s', hs, hs', heq⟩
  · rw [hs, hs']
    exact h
  · rw [hs, hs']
    exact ⟨{ h.layout with }, { h.record with
      sectionId := congrArg (·.id) heq
      loc := congrArg (·.loc) heq }⟩

/-- The unnamed section is opened on both sides or on neither. -/
theorem ensureSection (h : d.Alike c d') :
    d.ensureSection.Alike c d'.ensureSection := by
  unfold Draft.ensureSection
  rcases h.currentSection? with ⟨hs, hs'⟩ | ⟨s, s', hs, hs', heq⟩
  · rw [hs, hs']
    simp only
    rcases SymbolTable.Alike.outcomes
      (h.layout.symbols.openSection [] .unnamed h.line) with
      ⟨e, e', he, he'⟩ | ⟨t, t', ht, ht', halike⟩
    · rw [he, he']
      exact h
    · rw [ht, ht']
      have hopened :
          (d.mapSymbols fun _ => t).Alike c (d'.mapSymbols fun _ => t') :=
        h.mapSymbols halike
      exact hopened.locate
  · rw [hs, hs']
    exact h.locate

/-- A definition joins both tables or is refused by both. -/
theorem define (h : d.Alike c d') (name : Bytes)
    {m m' : Definition} (hm : m'.mapLine c.line = m.mapLine c.line) :
    (d.define name m).Alike c (d'.define name m') := by
  unfold Draft.define
  rcases SymbolTable.Alike.outcomes (h.layout.symbols.define name hm) with
    ⟨e, e', he, he'⟩ | ⟨t, t', ht, ht', halike⟩
  · rw [he, he']
    exact h.report (c.labelCursor h.record.statement) _
  · rw [ht, ht']
    exact h.mapSymbols halike

theorem defineLabel (h : d.Alike c d') (loc length : Int64) (kind : UInt8) :
    (d.defineLabel loc length kind).Alike c
      (d'.defineLabel loc length kind) := by
  unfold Draft.defineLabel
  rw [h.record.label, h.record.sectionId]
  split
  · exact h
  · exact h.define _ (by simp [Definition.mapLine, h.line])

theorem defineMark (h : d.Alike c d') (loc : Int64) :
    (d.defineMark loc).Alike c (d'.defineMark loc) :=
  h.defineLabel _ _ _

/-- A label that no directive takes is reported on both sides. -/
theorem checkLabel (h : d.Alike c d') : d.checkLabel.Alike c d'.checkLabel := by
  unfold Draft.checkLabel
  have hlabel : d'.statement.label = d.statement.label :=
    c.label h.record.statement
  simp only [hlabel]
  split
  · exact h.report (c.labelCharCursor h.record.statement _) _
  · split
    · exact h.report (c.labelCursor h.record.statement) _
    · exact ⟨{ h.layout with }, { h.record with label := rfl }⟩

/-- An expression has the same outcome. -/
theorem evaluate (h : d.Alike c d') (text : Bytes) :
    (d'.evaluate text).1 = (d.evaluate text).1 ∧
    (d.evaluate text).2.Alike c (d'.evaluate text).2 := by
  have hsame := h.layout.symbols.evaluate d.record.place text
  unfold Draft.evaluate
  rw [h.record.place, hsame]
  exact ⟨rfl, h.reference _⟩

theorem absolute (h : d.Alike c d') (text : Bytes) :
    (d'.absolute text).1 = (d.absolute text).1 ∧
    (d.absolute text).2.Alike c (d'.absolute text).2 := by
  have hsame := h.layout.symbols.absolute d.record.place text
  unfold Draft.absolute
  rw [h.record.place, hsame]
  exact ⟨rfl, h.reference _⟩

/-- A constant is read as the same descriptor. -/
theorem parseConstant (h : d.Alike c d') (text : Bytes) :
    (d'.parseConstant text).1 = (d.parseConstant text).1 ∧
      (d.parseConstant text).2.Alike c (d'.parseConstant text).2 := by
  have hsame : Expression.absolute d'.layout.symbols d.record.place =
      Expression.absolute d.layout.symbols d.record.place :=
    funext fun text => h.layout.symbols.absolute d.record.place text
  unfold Draft.parseConstant
  rw [h.record.place, hsame]
  exact ⟨rfl, h.reference _⟩

/-! ### Instructions and constants -/

/-- The names of a `V` constant join both tables alike. -/
theorem registerExternals (h : d.Alike c d') {x x' : Cursor}
    (hx : c.cursors x x') (names : List Bytes) :
    (d'.registerExternals x' names).1 = (d.registerExternals x names).1 ∧
    (d.registerExternals x names).2.Alike c
      (d'.registerExternals x' names).2 := by
  induction names generalizing d d' with
  | nil => exact ⟨rfl, h⟩
  | cons nominal rest ih =>
      unfold Draft.registerExternals
      simp only
      split
      · exact ih (h.mapSymbols (h.layout.symbols.referenceExternal _ h.line))
      · exact ⟨rfl, h.report hx _⟩

/-- A constant is refused with the same complaint. -/
theorem refuse (h : d.Alike c d') (failure : Constant.Failure)
    {x x' : Cursor} (hx : c.cursors x x') :
    (d.refuse failure x).Alike c (d'.refuse failure x') := by
  have hmarked : Draft.Alike c
      { d with layout := { d.layout with
          endless := d.layout.endless || failure = .endless } }
      { d' with layout := { d'.layout with
          endless := d'.layout.endless || failure = .endless } } :=
    ⟨{ h.layout with endless := by rw [h.layout.endless] }, h.record⟩
  exact hmarked.report hx _

/-- The values of a constant are accepted on both sides or on neither. -/
theorem checkValues (h : d.Alike c d') (descriptor : Constant.Descriptor)
    {x x' : Cursor} (hx : c.cursors x x') :
    (d'.checkValues descriptor x').1 = (d.checkValues descriptor x).1 ∧
    (d.checkValues descriptor x).2.Alike c
      (d'.checkValues descriptor x').2 := by
  unfold Draft.checkValues
  split
  · exact h.registerExternals hx _
  · split
    · exact ⟨rfl, h⟩
    · split
      · exact ⟨rfl, h⟩
      · exact ⟨rfl, h.refuse _ hx⟩

theorem bindLiteral (h : d.Alike c d') (operand id : Nat) :
    (d.bindLiteral operand id).Alike c (d'.bindLiteral operand id) := by
  unfold Draft.bindLiteral
  rw [h.record.body]
  split
  · exact h.withBody _
  · exact h

/-- A literal joins both pools or is found in both. -/
theorem internLiteral (h : d.Alike c d') (text : Bytes)
    (descriptor : Constant.Descriptor) (operand : Nat) :
    (d.internLiteral text descriptor operand).Alike c
      (d'.internLiteral text descriptor operand) := by
  unfold Draft.internLiteral
  rw [h.record.sectionId]
  rcases h.layout.literals.intern d.record.sectionId text
    (some descriptor) h.line with
    ⟨e, he, he'⟩ | ⟨q, q', l, l', hok, hok', halike, hid⟩
  · rw [he, he']
    cases e with
    | outsideSection text => exact h.report (h.cursor operand) _
    | tooMany limit => exact h.report (h.cursor operand) _
  · rw [hok, hok']
    simp only [hid]
    exact (h.withLiterals halike).bindLiteral operand l.id

/-- An operand that is a literal. -/
theorem layOutLiteral (h : d.Alike c d') (operand : Nat) (text : Bytes) :
    (d.layOutLiteral operand text).Alike c (d'.layOutLiteral operand text) := by
  have hcursor := h.cursor operand
  obtain ⟨hvalue, hparsed⟩ := h.parseConstant text.tail
  unfold Draft.layOutLiteral
  simp only [hvalue]
  cases (d.parseConstant text.tail).1 with
  | error problem => exact hparsed.report hcursor problem
  | ok descriptor =>
      simp only
      split
      · exact hparsed.report hcursor _
      · obtain ⟨haccepted, hchecked⟩ := hparsed.checkValues descriptor hcursor
        rw [haccepted]
        split
        · exact hchecked.internLiteral _ _ _
        · exact hchecked

/-- Handling operands one after the other. -/
theorem numbered (h : d.Alike c d') {f f' : Draft → Nat × Bytes → Draft}
    (hf : ∀ {e e'}, Draft.Alike c e e' → ∀ operand,
      (f e operand).Alike c (f' e' operand)) :
    (d.statement.numbered.foldl f d).Alike c
      (d'.statement.numbered.foldl f' d') := by
  rw [show d'.statement.numbered = d.statement.numbered from h.record.numbered]
  exact List.foldl_rel h fun operand _ e e' he => hf he operand

/-- The literals among the operands of an instruction. -/
theorem layOutLiterals (h : d.Alike c d') (op : Instruction) :
    (d.layOutLiterals op).Alike c (d'.layOutLiterals op) := by
  refine h.numbered fun he operand => ?_
  simp only
  split
  · exact he.layOutLiteral _ _
  · exact he

theorem layOutInstruction (h : d.Alike c d') (op : Instruction) :
    (d.layOutInstruction op).Alike c (d'.layOutInstruction op) := by
  have hensured := h.ensureSection
  have hloc := hensured.loc
  have hplaced : Draft.Alike c
      { d.ensureSection with record := { d.ensureSection.record with
        body := .instruction op [], loc := alignUp d.ensureSection.loc 2,
        length := Int64.ofNat op.length } }
      { d'.ensureSection with record := { d'.ensureSection.record with
        body := .instruction op [], loc := alignUp d'.ensureSection.loc 2,
        length := Int64.ofNat op.length } } :=
    ⟨{ hensured.layout with },
      { hensured.record with body := rfl, loc := by rw [hloc], length := rfl }⟩
  unfold Draft.layOutInstruction
  simp only
  rw [hloc] at hplaced ⊢
  have hlabelled := (hplaced.setLoc
    (alignUp d.ensureSection.loc 2 + Int64.ofNat op.length)).defineLabel
    (alignUp d.ensureSection.loc 2) (Int64.ofNat op.length) (octet 'I')
  rw [hlabelled.record.errored, hlabelled.operands]
  split
  · exact hlabelled
  · split
    · exact hlabelled.report (c.operandsCursor hlabelled.record.statement) _
    · split
      · exact hlabelled.report (hlabelled.cursor _) _
      · exact hlabelled.layOutLiterals op

/-- The values of a constant are checked alike. -/
theorem acceptData (h : d.Alike c d') (descriptor : Constant.Descriptor)
    {x x' : Cursor} (hx : c.cursors x x') :
    (d'.acceptData descriptor x').1 = (d.acceptData descriptor x).1 ∧
    (d.acceptData descriptor x).2.Alike c
      (d'.acceptData descriptor x').2 := by
  unfold Draft.acceptData
  split
  · exact ⟨rfl, h.report hx _⟩
  · exact h.checkValues descriptor hx

theorem parts (h : d.Alike c d') : d'.parts = d.parts := by
  simp only [Draft.parts, h.record.body]

/-- A constant takes the same place. -/
theorem placeConstant (h : d.Alike c d') (descriptor : Constant.Descriptor)
    (loc : Int64) :
    (d.placeConstant descriptor loc).Alike c
      (d'.placeConstant descriptor loc) := by
  have hfirst :=
    (h.withLoc loc).defineLabel loc (Int64.ofNat descriptor.lengthAttribute)
      descriptor.kind.letter
  unfold Draft.placeConstant
  simp only [h.parts]
  split
  · rw [hfirst.parts, hfirst.record.loc]
    exact hfirst.withBody _
  · rw [h.parts, h.record.loc]
    exact h.withBody _

theorem layOutConstant (h : d.Alike c d') (isData : Bool) (loc : Int64)
    (operand : Nat × Bytes) :
    (Draft.layOutConstant isData (d', loc) operand).2 =
        (Draft.layOutConstant isData (d, loc) operand).2 ∧
      (Draft.layOutConstant isData (d, loc) operand).1.Alike c
        (Draft.layOutConstant isData (d', loc) operand).1 := by
  have hcursor := h.cursor operand.1
  obtain ⟨hvalue, hparsed⟩ := h.parseConstant operand.2
  unfold Draft.layOutConstant
  simp only [hvalue]
  cases (d.parseConstant operand.2).1 with
  | error problem => exact ⟨rfl, hparsed.report hcursor problem⟩
  | ok descriptor =>
      obtain ⟨haccepted, hchecked⟩ := hparsed.acceptData descriptor hcursor
      cases isData with
      | false =>
          simp only [Bool.false_eq_true, if_false, if_true, true_and]
          exact hparsed.placeConstant _ _
      | true =>
          simp only [if_true, haccepted]
          split
          · exact ⟨rfl, hchecked.placeConstant _ _⟩
          · exact ⟨rfl, hchecked⟩

/-- The operands of a storage statement, one after the other. -/
theorem layOutConstants (h : d.Alike c d') (isData : Bool) (loc : Int64)
    (operands : List (Nat × Bytes)) :
    (operands.foldl (Draft.layOutConstant isData) (d', loc)).2 =
        (operands.foldl (Draft.layOutConstant isData) (d, loc)).2 ∧
      (operands.foldl (Draft.layOutConstant isData) (d, loc)).1.Alike c
        (operands.foldl (Draft.layOutConstant isData) (d', loc)).1 := by
  induction operands generalizing d d' loc with
  | nil => exact ⟨rfl, h⟩
  | cons operand rest ih =>
      obtain ⟨hbehind, hnext⟩ := h.layOutConstant isData loc operand
      simp only [List.foldl_cons]
      rw [show Draft.layOutConstant isData (d', loc) operand =
        ((Draft.layOutConstant isData (d', loc) operand).1,
          (Draft.layOutConstant isData (d, loc) operand).2) from
            Prod.ext rfl hbehind]
      exact ih hnext _

theorem layOutStorage (h : d.Alike c d') (isData : Bool) :
    (d.layOutStorage isData).Alike c (d'.layOutStorage isData) := by
  have hstart := h.ensureSection.withBody (.storage [])
  have hnumbered := hstart.record.numbered
  unfold Draft.layOutStorage
  simp only [hstart.operands]
  split
  · have hreported := hstart.report (c.mnemonicCursor hstart.record.statement)
      (.missingOperand 1 0)
    rw [hstart.loc]
    exact hreported.defineMark _
  · rw [show (d'.ensureSection.withBody (.storage [])).statement.numbered =
      (d.ensureSection.withBody (.storage [])).statement.numbered from
        hnumbered, hstart.loc]
    obtain ⟨hbehind, hplaced⟩ := hstart.layOutConstants isData
      (d.ensureSection.withBody (.storage [])).loc
      (d.ensureSection.withBody (.storage [])).statement.numbered
    rw [hplaced.parts, hbehind]
    split
    · rw [hplaced.loc]
      exact hplaced.defineMark _
    · exact (hplaced.withLength (by rw [hplaced.record.loc])).setLoc _

/-! ### Directives -/

/-- An equate has the same value, or cannot be evaluated for the same reason. -/
theorem equateValue (h : d.Alike c d') :
    (∃ result, d.equateValue = .ok result ∧ d'.equateValue = .ok result) ∨
      ∃ e e', d.equateValue = .error e ∧ d'.equateValue = .error e' ∧
        c.cursors e.cursor e'.cursor ∧ e'.problem = e.problem := by
  unfold Draft.equateValue
  simp only [h.operands, h.record.place, h.layout.symbols.evaluate,
    h.layout.symbols.absolute]
  split
  · exact Or.inr ⟨_, _, rfl, rfl, h.cursor 0, rfl⟩
  · split
    · exact Or.inl ⟨_, rfl, rfl⟩
    · split
      · exact Or.inr ⟨_, _, rfl, rfl, h.cursor 1, rfl⟩
      · exact Or.inl ⟨_, rfl, rfl⟩

/-- The equates that wait are settled alike. -/
theorem settle (h : d.Alike c d') (last : Bool) :
    (d.settle last).Alike c (d'.settle last) := by
  unfold Draft.settle
  rcases h.equateValue with
    ⟨result, hok, hok'⟩ | ⟨e, e', herror, herror', hcursor, hproblem⟩
  · rw [hok, hok', h.record.label]
    exact (h.withBody _).define _ (by simp [Definition.mapLine, h.line])
  · rw [herror, herror']
    simp only [hproblem]
    split
    · exact h.withBody _
    · exact (h.withBody _).report hcursor _

/-- The label that a directive needs is missed on both sides or on neither. -/
theorem requireLabel (h : d.Alike c d') :
    d.requireLabel.Alike c d'.requireLabel := by
  unfold Draft.requireLabel
  rw [show d'.statement.label = d.statement.label from
    c.label h.record.statement, h.mnemonic]
  split
  · exact h.report (c.mnemonicCursor h.record.statement) _
  · exact h

theorem layOutEquate (h : d.Alike c d') :
    d.layOutEquate.Alike c d'.layOutEquate := by
  have hstart := h.locate.withBody (.equate (.absolute 0) false)
  unfold Draft.layOutEquate
  simp only [hstart.record.label, hstart.operands]
  split
  · exact hstart.requireLabel
  · split
    · exact hstart.report (c.mnemonicCursor hstart.record.statement) _
    · exact hstart.settle false

theorem moveTo (h : d.Alike c d') (target : Int64) :
    (d.moveTo target).Alike c (d'.moveTo target) :=
  ((h.setLoc target).withLoc target).defineMark target

theorem layOutOrigin (h : d.Alike c d') :
    d.layOutOrigin.Alike c d'.layOutOrigin := by
  have hstart := h.ensureSection.withBody .located
  unfold Draft.layOutOrigin
  simp only [hstart.operands,
    hstart.map_currentSection? (f := fun s => s.length) fun _ => rfl]
  split
  · exact hstart.moveTo _
  · rename_i text _
    have hcursor := hstart.cursor 0
    obtain ⟨hvalue, hread⟩ := hstart.evaluate text
    rw [hvalue]
    split
    · exact hread.report hcursor _
    · rw [hread.record.sectionId]
      split
      · exact hread.report hcursor _
      · exact hread.moveTo _

/-- Two absolute operands have the same values, or the first that has none is
wrong for the same reason. -/
theorem absolutePair (h : d.Alike c d') (a b : Bytes) :
    (d.absolutePair a b).2.Alike c (d'.absolutePair a b).2 ∧
      ((∃ pair, (d.absolutePair a b).1 = .ok pair ∧
        (d'.absolutePair a b).1 = .ok pair) ∨
        ∃ e e', (d.absolutePair a b).1 = .error e ∧
        (d'.absolutePair a b).1 = .error e' ∧
          c.cursors e.cursor e'.cursor ∧ e'.problem = e.problem) := by
  obtain ⟨hfirst, hread⟩ := h.absolute a
  obtain ⟨hsecond, hboth⟩ := hread.absolute b
  unfold Draft.absolutePair
  simp only [hfirst, hsecond]
  split
  · exact ⟨hread, Or.inr ⟨_, _, rfl, rfl, hread.cursor 0, rfl⟩⟩
  · split
    · exact ⟨hboth, Or.inr ⟨_, _, rfl, rfl, hboth.cursor 1, rfl⟩⟩
    · exact ⟨hboth, Or.inl ⟨_, rfl, rfl⟩⟩

theorem layOutAlignment (h : d.Alike c d') :
    d.layOutAlignment.Alike c d'.layOutAlignment := by
  have hstart := h.ensureSection.withBody .located
  unfold Draft.layOutAlignment
  simp only [hstart.operands]
  split
  · rename_i a b _
    obtain ⟨hread, hpair⟩ := hstart.absolutePair a b
    rcases hpair with
      ⟨pair, hok, hok'⟩ | ⟨e, e', herror, herror', hcursor, hproblem⟩
    · rw [hok, hok']
      simp only
      split
      · exact hread.report (hread.cursor 1) _
      · split
        · exact hread.report (hread.cursor 0) _
        · rw [hread.loc]
          exact ((hread.withLength rfl).setLoc _).defineMark _
    · rw [herror, herror']
      simp only [hproblem]
      exact hread.report hcursor _
  · split
    · exact hstart.report (c.operandsCursor hstart.record.statement) _
    · exact hstart.report (hstart.cursor 2) _

/-- `LTORG`: the same literals take the same places. -/
theorem layOutPool (h : d.Alike c d') : d.layOutPool.Alike c d'.layOutPool := by
  have hstart := h.ensureSection
  obtain ⟨hpool, hplaced, hbehind⟩ :=
    hstart.layout.literals.flush d.ensureSection.record.sectionId
      d.ensureSection.loc
  have hflushed := hstart.withLiterals hpool
  unfold Draft.layOutPool
  simp only [hstart.record.sectionId, hstart.loc]
  cases hp :
    (d.ensureSection.layout.literals.flush d.ensureSection.record.sectionId
      d.ensureSection.loc).placed with
  | nil =>
      rw [hp, List.map_nil, List.map_eq_nil_iff] at hplaced
      rw [hplaced]
      exact (hflushed.withBody .located).defineMark _
  | cons first rest =>
      cases hp' :
        (d'.ensureSection.layout.literals.flush d.ensureSection.record.sectionId
          d.ensureSection.loc).placed with
      | nil => simp [hp, hp'] at hplaced
      | cons first' rest' =>
          rw [hp, hp'] at hplaced
          simp only [hplaced, hbehind]
          refine Draft.Alike.defineMark (Draft.Alike.setLoc ?_ _) _
          exact ⟨{ hflushed.layout with },
            { hflushed.record with
              body := rfl, sectionId := rfl, loc := rfl, length := rfl }⟩

theorem startAt (h : d.Alike c d') (text : Bytes) :
    (d.startAt text).Alike c (d'.startAt text) := by
  have hcursor := h.cursor 0
  obtain ⟨hvalue, hread⟩ := h.absolute text
  unfold Draft.startAt
  simp only [hvalue]
  split
  · exact hread.report hcursor _
  · rename_i origin _
    split
    · exact hread.report hcursor _
    · have hmoved :=
        (hread.setLoc (alignUp origin 8)).withLoc (alignUp origin 8)
      rw [hmoved.record.label]
      split
      · exact hmoved
      · rw [hread.record.sectionId]
        exact hmoved.mapSymbols (hmoved.layout.symbols.move _ _)

/-- A section is opened or resumed on both sides. -/
theorem openSection (h : d.Alike c d') (kind : SectionKind) :
    (d.openSection kind).Alike c (d'.openSection kind) := by
  unfold Draft.openSection
  rw [h.record.label]
  rcases SymbolTable.Alike.outcomes
    (h.layout.symbols.openSection d.record.label kind h.line) with
    ⟨e, e', he, he'⟩ | ⟨t, t', ht, ht', halike⟩
  · rw [he, he']
    exact h.report (c.labelCursor h.record.statement) _
  · rw [ht, ht']
    have hopened :
        (d.mapSymbols fun _ => t).Alike c (d'.mapSymbols fun _ => t') :=
      h.mapSymbols halike
    exact (hopened.withBody .located).locate

/-- `START`, `CSECT`, `RSECT` and `DSECT`. -/
theorem layOutSection (h : d.Alike c d') (directive : Directive) :
    (d.layOutSection directive).Alike c (d'.layOutSection directive) := by
  unfold Draft.layOutSection
  simp only [h.record.label]
  split
  · split
    · exact h.requireLabel
    · exact h.openSection .dummy
  · generalize (if d.record.label = [] then SectionKind.unnamed else .named) =
      kind
    have hopened := h.openSection kind
    have hfirst : (d'.openSection kind).currentSection?.all (!·.continued) =
        (d.openSection kind).currentSection?.all (!·.continued) := by
      rcases hopened.currentSection? with ⟨hs, hs'⟩ | ⟨s, s', hs, hs', heq⟩
      · rw [hs, hs']
      · rw [hs, hs']
        have hcontinued : s'.continued = s.continued :=
          congrArg (·.continued) heq
        rw [Option.all_some, Option.all_some, hcontinued]
    rw [hopened.record.body, h.operands, hfirst]
    split
    · split
      · exact hopened.startAt _
      · exact hopened
    · exact hopened

theorem forEachName (h : d.Alike c d')
    {handle handle' : Draft → Cursor → Bytes → Draft}
    (hhandle : ∀ {e e' x x'}, Draft.Alike c e e' → c.cursors x x' → ∀ name,
      (handle e x name).Alike c (handle' e' x' name)) :
    (d.forEachName handle).Alike c (d'.forEachName handle') := by
  unfold Draft.forEachName
  rw [h.operands]
  split
  · exact h.report (c.mnemonicCursor h.record.statement) _
  · refine h.numbered fun he operand => ?_
    simp only
    split
    · exact hhandle he (he.cursor _) _
    · exact he.report (he.cursor _) _

theorem offer (h : d.Alike c d') {x x' : Cursor} (hx : c.cursors x x')
    (name : Bytes) :
    (d.offer x name).Alike c (d'.offer x' name) := by
  have hadded : (d.mapSymbols (·.addEntry name d.statement.line)).Alike c
      (d'.mapSymbols (·.addEntry name d'.statement.line)) :=
    h.mapSymbols (h.layout.symbols.addEntry name h.line)
  have hentered := hadded.reference [name]
  have hknown : ∀ {es es' : List (Bytes × Cursor)},
      List.Forall₂ (fun e e' => e'.1 = e.1 ∧ c.cursors e.2 e'.2) es es' →
      es'.any (·.1 = name) = es.any (·.1 = name) := by
    intro es es' hentries
    induction hentries with
    | nil => rfl
    | cons he _ ih => rw [List.any_cons, List.any_cons, he.1, ih]
  have hsame := hknown hentered.layout.entryCursors
  unfold Draft.offer
  simp only [hsame]
  split
  · exact hentered
  · exact ⟨{ hentered.layout with
      entryCursors :=
        List.rel_append hentered.layout.entryCursors (.cons ⟨rfl, hx⟩ .nil) },
      { hentered.record with }⟩

theorem declare (h : d.Alike c d') (weak : Bool) {x x' : Cursor}
    (hx : c.cursors x x') (name : Bytes) :
    (Draft.declare weak d x name).Alike c (Draft.declare weak d' x' name) := by
  unfold Draft.declare
  rcases SymbolTable.Alike.outcomes
    (h.layout.symbols.declareExternal name weak h.line) with
    ⟨e, e', he, he'⟩ | ⟨t, t', ht, ht', halike⟩
  · rw [he, he']
    exact h.report hx _
  · rw [ht, ht']
    exact h.mapSymbols halike

theorem layOutMode (h : d.Alike c d') (isAddressing : Bool) :
    (d.layOutMode isAddressing).Alike c (d'.layOutMode isAddressing) := by
  unfold Draft.layOutMode
  rw [h.operands]
  split
  · rename_i operand _
    simp only
    generalize (if isAddressing then validAddressingMode (toUpper operand)
      else validResidenceMode (toUpper operand)) = valid
    cases valid with
    | true =>
        rw [if_pos rfl, if_pos rfl, h.layout.modes, h.record.label]
        exact ⟨{ h.layout with modes := rfl }, { h.record with }⟩
    | false => exact h.report (h.cursor 0) _
  · exact h.report (c.operandsCursor h.record.statement) _

theorem layOutTitle (h : d.Alike c d') :
    d.layOutTitle.Alike c d'.layOutTitle := by
  unfold Draft.layOutTitle
  rw [h.layout.deckId]
  split
  · exact ⟨{ h.layout with deckId := h.record.label }, { h.record with }⟩
  · exact h

theorem layOutMark (h : d.Alike c d') : d.layOutMark.Alike c d'.layOutMark := by
  have hstart := h.ensureSection.withBody .located
  unfold Draft.layOutMark
  simp only [hstart.loc]
  exact hstart.defineMark _

/-- **Directives.**  They treat drafts that cannot be told apart alike. -/
theorem layOutDirective (h : d.Alike c d') (directive : Directive) :
    (d.layOutDirective directive).Alike c (d'.layOutDirective directive) := by
  have hlocated := h.locate.withBody .located
  cases directive with
  | start | csect | rsect | dsect => exact h.layOutSection _
  | dc | ds => exact h.layOutStorage _
  | equ => exact h.layOutEquate
  | org => exact h.layOutOrigin
  | cnop => exact h.layOutAlignment
  | ltorg => exact h.layOutPool
  | use =>
      unfold Draft.layOutDirective
      simp only [hlocated.operands]
      split
      · exact hlocated.report (c.operandsCursor hlocated.record.statement) _
      · exact hlocated
  | drop => exact hlocated
  | entry => exact hlocated.forEachName fun he hx name => he.offer hx name
  | extrn | wxtrn =>
      exact (h.withBody .located).forEachName fun he hx name =>
        he.declare _ hx name
  | amode | rmode => exact h.layOutMode _
  | title => exact h.layOutTitle
  | ending | eject | space | print => exact h

end Alike

end Draft

end System370
