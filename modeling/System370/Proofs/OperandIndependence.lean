import System370.Proofs.ComparedPrograms

/-!
# The layout does not depend on the operands of instructions

An instruction takes its place by its mnemonic alone.  Its operands are counted
when it is laid out, and a literal among them joins a pool; apart from that they
are left to the code generation.  So whatever is wrong with them, everything
behind the instruction stays where it is.

Two programs are laid out side by side.  Where a statement is the same in both,
they are compared by `Comparison.byLayout`, which looks at everything but the
reports.  Where a statement is an instruction that was `Reworded`, the drafts
are `Beside` each other: their records occupy the same place, and may be errored
for different reasons.

* `Draft.Beside.layOutInstruction` is the step for a reworded instruction;
* `Program.layout_sameButOperands` compares the programs once their sections are
  placed.
-/

namespace System370

/-! ### What is compared -/

namespace Statement

/-- Two statements that differ in their positions and operand fields at most. -/
structure SameHead (s s' : Statement) : Prop where
  line : s'.line = s.line
  lines : s'.lines.length = s.lines.length
  isComment : s'.isComment = s.isComment
  label : s'.label = s.label
  mnemonic : s'.mnemonic = s.mnemonic

/-- Two statements with the same operands. -/
structure Kept (s s' : Statement) : Prop extends SameHead s s' where
  operands : s'.operands = s.operands
  serious : s'.faults.any (·.severity.isError) =
    s.faults.any (·.severity.isError)

/-- Whether a statement is an instruction without literals. -/
structure IsPlain (s : Statement) : Prop where
  instruction : (Instruction.find? s.mnemonic).isSome
  operands : ∀ operand ∈ s.operands, operand.head? ≠ some (octet '=')

/-- Two statements that are the same instruction with different operand
fields. -/
structure Reworded (s s' : Statement) : Prop extends SameHead s s' where
  plain : s.IsPlain
  plain' : s'.IsPlain

/-- Two statements with the same operands, or that are the same instruction with
different operand fields. -/
def SameButOperands (s s' : Statement) : Prop := s.Kept s' ∨ s.Reworded s'

theorem Kept.refl (s : Statement) : s.Kept s :=
  ⟨⟨rfl, rfl, rfl, rfl, rfl⟩, rfl, rfl⟩

variable (s s' : Statement)

instance : Decidable (s.SameHead s') :=
  decidable_of_iff (s'.line = s.line ∧ s'.lines.length = s.lines.length ∧
      s'.isComment = s.isComment ∧ s'.label = s.label ∧
      s'.mnemonic = s.mnemonic)
    ⟨fun h => ⟨h.1, h.2.1, h.2.2.1, h.2.2.2.1, h.2.2.2.2⟩,
      fun h => ⟨h.line, h.lines, h.isComment, h.label, h.mnemonic⟩⟩

instance : Decidable (s.Kept s') :=
  decidable_of_iff (s.SameHead s' ∧ s'.operands = s.operands ∧
      s'.faults.any (·.severity.isError) = s.faults.any (·.severity.isError))
    ⟨fun h => ⟨h.1, h.2.1, h.2.2⟩,
      fun h => ⟨h.toSameHead, h.operands, h.serious⟩⟩

instance : Decidable s.IsPlain :=
  decidable_of_iff ((Instruction.find? s.mnemonic).isSome ∧
      ∀ operand ∈ s.operands, operand.head? ≠ some (octet '='))
    ⟨fun h => ⟨h.1, h.2⟩, fun h => ⟨h.1, h.2⟩⟩

instance : Decidable (s.Reworded s') :=
  decidable_of_iff (s.SameHead s' ∧ s.IsPlain ∧ s'.IsPlain)
    ⟨fun h => ⟨h.1, h.2.1, h.2.2⟩, fun h => ⟨h.toSameHead, h.plain, h.plain'⟩⟩

instance : Decidable (s.SameButOperands s') :=
  inferInstanceAs (Decidable (s.Kept s' ∨ s.Reworded s'))

end Statement

/-- Everything is compared but positions and reports. -/
def Comparison.byLayout : Comparison where
  line := id
  cursors := fun _ _ => True
  statements := Statement.Kept
  diagnostics := fun _ _ => True
  marks := fun b b' => b' = b
  label := fun h => h.label
  mnemonic := fun h => h.mnemonic
  operands := fun h => h.operands
  lines := fun h => congrArg Int.ofNat h.line
  labelCursor := fun _ => trivial
  labelCharCursor := fun _ _ => trivial
  mnemonicCursor := fun _ => trivial
  operandCursor := fun _ _ => trivial
  operandsCursor := fun _ => trivial
  lineCursor := fun _ => trivial
  report := fun _ _ _ => trivial

theorem Comparison.whole_byLayout : byLayout.Whole where
  isComment := fun h => h.isComment
  position := fun _ => trivial
  faults := fun _ _ => trivial
  serious := fun h => h.serious
  marks := fun h => h
  marked := rfl

/-- Lines that stay the same. -/
theorem LiteralPool.mapLines_id (p : LiteralPool) : p.mapLines id = p := by
  have hliterals : p.literals.map (·.mapLine id) = p.literals :=
    List.map_id'' (fun _ => rfl) p.literals
  exact LiteralPool.ext rfl hliterals rfl rfl rfl

namespace Layout

variable {l l' : Layout}

/-- The tables of the layouts are the same. -/
theorem Alike.symbols_eq (h : l.Alike .byLayout l') :
    l'.symbols = l.symbols := by
  have hmapped : l'.symbols.mapLines id = l.symbols.mapLines id := h.symbols
  rwa [SymbolTable.mapLines_id, SymbolTable.mapLines_id] at hmapped

/-- Layouts that are alike have the same literals. -/
theorem Alike.literals_eq (h : l.Alike .byLayout l') :
    l'.literals = l.literals := by
  have hmapped : l'.literals.mapLines id = l.literals.mapLines id := h.literals
  rwa [LiteralPool.mapLines_id, LiteralPool.mapLines_id] at hmapped

/-- Reports count for nothing. -/
theorem Alike.silent (h : l.Alike .byLayout l') (ds ds' : List Diagnostic) :
    Layout.Alike .byLayout { l with diagnostics := ds }
      { l' with diagnostics := ds' } :=
  { h with diagnostics := trivial }

end Layout

/-- Two records that occupy the same place. -/
structure Record.Beside (r r' : Record) : Prop where
  directive : r'.directive = r.directive
  body : r'.body = r.body
  sectionId : r'.sectionId = r.sectionId
  loc : r'.loc = r.loc
  length : r'.length = r.length
  label : r'.label = r.label

/-- Records that are alike stand beside each other. -/
theorem Record.Alike.beside {r r' : Record} (h : r.Alike .byLayout r') :
    r.Beside r' :=
  ⟨h.directive, h.body, h.sectionId, h.loc, h.length, h.label⟩

/-! ### A reworded instruction -/

/-- Two drafts of a reworded instruction: their records occupy the same place,
and their layouts differ in the reports at most. -/
structure Draft.Beside (d d' : Draft) : Prop where
  layout : d.layout.Alike .byLayout d'.layout
  statement : d.statement.Reworded d'.statement
  record : d.record.Beside d'.record
  settled : Layout.isWaiting d.record = false

namespace Draft

/-- An instruction in its place, before its operands are looked at. -/
def placeInstruction (d : Draft) (op : Instruction) : Draft :=
  let d := d.ensureSection
  let loc := alignUp d.loc 2
  let length := Int64.ofNat op.length
  let d := { d with record :=
    { d.record with body := .instruction op [], loc, length } }
  (d.setLoc (loc + length)).defineLabel loc length (octet 'I')

/-- Without literals an instruction stays in its place; its operands may be
reported. -/
theorem layOutInstruction_plain {d : Draft} (op : Instruction)
    (h : (d.placeInstruction op).statement.IsPlain) :
    d.layOutInstruction op = d.placeInstruction op ∨
      ∃ x p, d.layOutInstruction op = (d.placeInstruction op).report x p := by
  have hliterals : (d.placeInstruction op).layOutLiterals op =
      d.placeInstruction op := by
    have hplain : ∀ x ∈ (d.placeInstruction op).statement.numbered,
        x.2.head? ≠ some (octet '=') :=
      fun x hx => h.operands x.2 (List.of_mem_zip hx).2
    unfold layOutLiterals
    generalize (d.placeInstruction op).statement.numbered = operands at hplain ⊢
    induction operands with
    | nil => rfl
    | cons first rest ih =>
        obtain ⟨i, text⟩ := first
        rw [List.forall_mem_cons] at hplain
        simp only [List.foldl_cons, hplain.1, false_and, if_false]
        exact ih hplain.2
  have hcases : d.layOutInstruction op =
      if (d.placeInstruction op).record.errored ∨ op.operandCount = 0 then
        d.placeInstruction op
      else if (d.placeInstruction op).statement.operands.length <
        op.operandCount then
        (d.placeInstruction op).report
          (d.placeInstruction op).statement.operandsCursor
          (.missingOperand op.operandCount
            (d.placeInstruction op).statement.operands.length)
      else if op.operandCount <
        (d.placeInstruction op).statement.operands.length then
        (d.placeInstruction op).report
          ((d.placeInstruction op).statement.operandCursor op.operandCount)
          (.operandCount op.operandCount
            (d.placeInstruction op).statement.operands.length)
      else (d.placeInstruction op).layOutLiterals op := rfl
  rw [hcases, hliterals]
  split
  · exact Or.inl rfl
  · split
    · exact Or.inr ⟨_, _, rfl⟩
    · split
      · exact Or.inr ⟨_, _, rfl⟩
      · exact Or.inl rfl

namespace Beside

variable {d d' : Draft}

theorem currentSection? (h : d.Beside d') :
    d'.currentSection? = d.currentSection? := by
  unfold Draft.currentSection?
  rw [h.layout.symbols_eq]

theorem loc (h : d.Beside d') : d'.loc = d.loc := by
  unfold Draft.loc
  rw [h.currentSection?]

/-- A report on the one side counts for nothing. -/
theorem report_left (h : d.Beside d') (x : Cursor) (p : Problem) :
    (d.report x p).Beside d' :=
  ⟨h.layout.silent _ _, h.statement, { h.record with }, h.settled⟩

/-- Nor does one on the other side. -/
theorem report_right (h : d.Beside d') (x : Cursor) (p : Problem) :
    d.Beside (d'.report x p) :=
  ⟨h.layout.silent _ _, h.statement, { h.record with }, h.settled⟩

/-- The same change of both tables. -/
theorem mapSymbols (h : d.Beside d') (f : SymbolTable → SymbolTable) :
    (d.mapSymbols f).Beside (d'.mapSymbols f) := by
  have hsame : f d'.layout.symbols = f d.layout.symbols := by
    rw [h.layout.symbols_eq]
  exact ⟨{ h.layout with symbols := congrArg (SymbolTable.mapLines id) hsame },
    h.statement, { h.record with }, h.settled⟩

theorem locate (h : d.Beside d') : d.locate.Beside d'.locate := by
  unfold Draft.locate
  rw [h.currentSection?]
  split
  · exact ⟨h.layout, h.statement,
      { h.record with sectionId := rfl, loc := rfl }, h.settled⟩
  · exact h

theorem ensureSection (h : d.Beside d') :
    d.ensureSection.Beside d'.ensureSection := by
  unfold Draft.ensureSection
  rw [h.currentSection?, h.layout.symbols_eq, h.statement.line]
  split
  · exact h.locate
  · split
    · exact (h.mapSymbols _).locate
    · exact h

/-- The same label is defined on both sides. -/
theorem defineLabel (h : d.Beside d') (loc length : Int64) (kind : UInt8) :
    (d.defineLabel loc length kind).Beside
      (d'.defineLabel loc length kind) := by
  unfold Draft.defineLabel Draft.define
  rw [h.record.label, h.record.sectionId, h.layout.symbols_eq, h.statement.line]
  split
  · exact h
  · simp only
    split
    · exact h.mapSymbols _
    · exact (h.report_left _ _).report_right _ _

/-- The same label is checked on both sides. -/
theorem checkLabel (h : d.Beside d') : d.checkLabel.Beside d'.checkLabel := by
  unfold Draft.checkLabel
  simp only [h.statement.label]
  split
  · exact (h.report_left _ _).report_right _ _
  · split
    · exact (h.report_left _ _).report_right _ _
    · exact ⟨h.layout, h.statement, { h.record with label := rfl }, h.settled⟩

/-- Instructions of the same length take their places. -/
theorem placeInstruction (h : d.Beside d') (op : Instruction) :
    (d.placeInstruction op).Beside (d'.placeInstruction op) := by
  have hensured := h.ensureSection
  unfold Draft.placeInstruction
  simp only [hensured.loc]
  refine Beside.defineLabel (Beside.mapSymbols ?_ _) _ _ _
  exact ⟨hensured.layout, hensured.statement,
    { hensured.record with body := rfl, loc := rfl, length := rfl }, rfl⟩

/-- **An instruction** takes the same place with whatever operands, literals
apart. -/
theorem layOutInstruction (h : d.Beside d') (op : Instruction) :
    (d.layOutInstruction op).Beside (d'.layOutInstruction op) := by
  have hplaced := h.placeInstruction op
  rcases layOutInstruction_plain op hplaced.statement.plain with
    hleft | ⟨x, p, hleft⟩
  · rcases layOutInstruction_plain op hplaced.statement.plain' with
      hright | ⟨x', p', hright⟩
    · rw [hleft, hright]
      exact hplaced
    · rw [hleft, hright]
      exact hplaced.report_right x' p'
  · rcases layOutInstruction_plain op hplaced.statement.plain' with
      hright | ⟨x', p', hright⟩
    · rw [hleft, hright]
      exact hplaced.report_left x p
    · rw [hleft, hright]
      exact (hplaced.report_left x p).report_right x' p'

end Beside

end Draft

/-! ### Whole programs -/

/-- Two records that occupy the same place.  If they are equates that wait, they
are the same record. -/
def Record.Alongside (r r' : Record) : Prop :=
  r.Beside r' ∧ (Layout.isWaiting r = true → r.Alike .byLayout r')

/-- Records that are alike stand alongside. -/
theorem Record.Alike.alongside {r r' : Record} (h : r.Alike .byLayout r') :
    r.Alongside r' :=
  ⟨h.beside, fun _ => h⟩

/-- Records that are no equates are not settled. -/
theorem Record.Beside.alongside {r r' : Record} (h : r.Beside r')
    (hwaiting : Layout.isWaiting r = false) : r.Alongside r' :=
  ⟨h, fun htrue => by simp [hwaiting] at htrue⟩

namespace Layout

variable {l l' : Layout} {s s' : Statement}

/-- Two parts of programs that occupy the same places. -/
structure Alongside (out out' : Layout × List Record) : Prop where
  layout : out.1.Alike .byLayout out'.1
  records : List.Forall₂ Record.Alongside out.2 out'.2

/-- So do the parts of two programs that match. -/
theorem Matched.alongside {out out' : Layout × List Record}
    (h : Matched .byLayout out out') :
    Alongside out out' :=
  ⟨h.layout, h.records.imp fun _ _ hr => hr.alongside⟩

/-- A reworded instruction leaves its record in the same place. -/
theorem alongside_layOutStatement {d d' : Draft} (h : d.Beside d') :
    Alongside (layOutStatement d) (layOutStatement d') := by
  obtain ⟨op, hop⟩ := Option.isSome_iff_exists.mp h.statement.plain.instruction
  have hne : d.statement.mnemonic ≠ [] := by
    intro hnil
    have hnone : Instruction.find? [] = none := by decide
    rw [hnil, hnone] at hop
    simp at hop
  have hlaid := h.layOutInstruction op
  unfold layOutStatement
  simp only [h.statement.mnemonic, if_neg hne, hop]
  exact ⟨hlaid.layout, .cons (hlaid.record.alongside hlaid.settled) .nil⟩

/-- **One statement.** -/
theorem alongside_step (h : l.Alike .byLayout l') (hs : s.SameButOperands s') :
    Alongside (l.step s) (l'.step s') := by
  rcases hs with hs | hs
  · exact (h.step Comparison.whole_byLayout hs).alongside
  · have hmarks : l'.afterEnd = l.afterEnd := h.afterEnd
    have hblank : ∀ e e',
        Record.Beside { statement := s, errored := e }
          { statement := s', errored := e' } :=
      fun _ _ => ⟨rfl, rfl, rfl, rfl, rfl, rfl⟩
    have hreported :=
      h.silent (l.diagnostics ++ s.faults) (l'.diagnostics ++ s'.faults)
    unfold Layout.step
    simp only [hs.isComment, h.ended, hmarks]
    split
    · exact ⟨{ hreported with ended := rfl, afterEnd := rfl },
        .cons ((hblank false false).alongside rfl) .nil⟩
    · split
      · refine ⟨?_, .cons ((hblank false false).alongside rfl) .nil⟩
        split
        · exact { hreported with ended := rfl, afterEnd := rfl }
        · exact { hreported with
            diagnostics := trivial, ended := rfl, afterEnd := rfl }
      · exact alongside_layOutStatement (Draft.Beside.checkLabel
          ⟨{ hreported with ended := rfl, afterEnd := rfl }, hs,
            hblank _ _, rfl⟩)

/-- **Statements one after the other.** -/
theorem alongside_run {statements statements' : List Statement}
    (h : l.Alike .byLayout l')
    (hs : List.Forall₂ Statement.SameButOperands statements statements') :
    Alongside (l.run statements) (l'.run statements') := by
  induction hs generalizing l l' with
  | nil => exact ⟨h, .nil⟩
  | cons hs _ ih =>
      have hfirst := alongside_step h hs
      have hrest := ih hfirst.layout
      exact ⟨hrest.layout, List.rel_append hfirst.records hrest.records⟩

/-- The end statement is supplied in the same place. -/
theorem alongside_supplyEnd {statements statements' : List Statement}
    (h : l.Alike .byLayout l')
    (hs : List.Forall₂ Statement.SameButOperands statements statements') :
    Alongside (l.supplyEnd statements) (l'.supplyEnd statements') := by
  have hlines : endLine statements' = endLine statements := by
    have hmap : (statements'.map fun s => s.line + s.lines.length) =
        statements.map fun s => s.line + s.lines.length := by
      induction hs with
      | nil => rfl
      | cons hs _ ih =>
          rw [List.map_cons, List.map_cons, ih]
          rcases hs with hs | hs
          · rw [hs.line, hs.lines]
          · rw [hs.line, hs.lines]
    rw [endLine, endLine, hmap]
  cases hended : l.ended with
  | true =>
      rw [supplyEnd_ended hended, supplyEnd_ended (h.ended.trans hended)]
      exact ⟨h, .nil⟩
  | false =>
      obtain ⟨cursor, hopen⟩ := supplyEnd_open hended statements
      obtain ⟨cursor', hopen'⟩ :=
        supplyEnd_open (h.ended.trans hended) statements'
      rw [hopen, hopen', hlines]
      exact alongside_step (h.silent _ _) (Or.inl (Statement.Kept.refl _))

/-- **Equates** are settled alike. -/
theorem settling_alongside :
    Settling .byLayout (fun _ => False) Record.Alongside where
  idle := fun h => h.elim
  waiting := fun h => by simp only [isWaiting, h.1.body]
  alike := fun h => h.2
  rel := fun h => h.alongside

end Layout

namespace Program

/-- Two programs before their sections are placed. -/
theorem alongside_unplaced (options : Options)
    {statements statements' : List Statement}
    (h : List.Forall₂ Statement.SameButOperands statements statements') :
    (unplaced options statements).layout.Alike .byLayout
      (unplaced options statements').layout ∧
      List.Forall₂ Record.Beside (unplaced options statements).records
        (unplaced options statements').records := by
  have hnew : (Layout.new options).Alike .byLayout (Layout.new options) :=
    ⟨rfl, rfl, trivial, rfl, .nil, rfl, rfl, rfl, rfl⟩
  have hrun := Layout.alongside_run hnew h
  have hsupplied := Layout.alongside_supplyEnd hrun.layout h
  have hrecords : Aligned (fun _ => False) Record.Alongside _ _ :=
    .of_forall₂ (List.rel_append hrun.records hsupplied.records)
  have hcount := Layout.settling_alongside.countP hrecords
  obtain ⟨hlayout, hsettled⟩ := Layout.settling_alongside.settleAll
    hsupplied.layout hrecords
    (Nat.lt_succ_of_le List.countP_le_length)
    (Nat.lt_succ_of_le (hcount ▸ List.countP_le_length))
  exact ⟨hlayout, (hsettled.forall₂ fun _ => id).imp fun _ _ hr => hr.1⟩

/-- A record moves as the one beside it does. -/
theorem beside_moveRecord (t : SymbolTable) {r r' : Record} (h : r.Beside r') :
    (moveRecord t r).Beside (moveRecord t r') :=
  { h with
    body := by simp only [moveRecord, h.body]
    loc := by simp only [moveRecord, h.sectionId, h.loc] }

/-- **The operands of instructions do not disturb the layout.**  Of two programs
that differ only in operand fields of instructions, none of them with a literal,
all sections, symbols and literals are the same, and so are the place and the
length of every record. -/
theorem layout_sameButOperands (options : Options)
    {statements statements' : List Statement}
    (h : List.Forall₂ Statement.SameButOperands statements statements') :
    (ofStatements options statements').layout.symbols =
        (ofStatements options statements).layout.symbols ∧
      (ofStatements options statements').layout.literals =
        (ofStatements options statements).layout.literals ∧
      List.Forall₂ Record.Beside (ofStatements options statements).records
        (ofStatements options statements').records := by
  obtain ⟨hlayout, hrecords⟩ := alongside_unplaced options h
  unfold ofStatements normalize
  rw [hlayout.symbols_eq, hlayout.literals_eq]
  refine ⟨rfl, rfl, ?_⟩
  rw [List.forall₂_map_left_iff, List.forall₂_map_right_iff]
  exact hrecords.imp fun _ _ hr => beside_moveRecord _ hr

/-- Instructions with a missing operand, a wrong one and an operand field that
cannot be split stand where the right ones do, and so does the constant behind
them. -/
theorem layout_sameButOperands_faulty :
    ∃ source source' statements statements',
    Statement.readAll source = .ok statements ∧
      Statement.readAll source' = .ok statements' ∧
      List.Forall₂ Statement.SameButOperands statements statements' ∧
      (ofStatements {} statements).layout.diagnostics = [] ∧
      (ofStatements {} statements').layout.diagnostics.length = 2 ∧
      (ofStatements {} statements').layout.symbols =
        (ofStatements {} statements).layout.symbols ∧
      ((ofStatements {} statements').layout.symbols.definition? (bytes "X")).map
        (·.value) =
        some (.relocatable 16 2) := by
  have hcheck : (match
      Statement.readAll (bytes (String.append "A CSECT\n LR 1,2\nB CSECT\n"
        " MVC X(4),X\nX DC F'1'\n END\n")),
      Statement.readAll (bytes (String.append "A CSECT\n LR 1\nB CSECT\n"
        " MVC X(4,X\nX DC F'1'\n END\n")) with
      | .ok statements, .ok statements' =>
          decide (List.Forall₂ Statement.SameButOperands statements
            statements' ∧
            (ofStatements {} statements).layout.diagnostics = [] ∧
            (ofStatements {} statements').layout.diagnostics.length = 2 ∧
            ((ofStatements {} statements).layout.symbols.definition?
            (bytes "X")).map (·.value) =
            some (.relocatable 16 2))
      | _, _ => false) = true := by decide +kernel
  split at hcheck
  · rename_i statements statements' hread hread'
    obtain ⟨hsame, hclean, hreports, hvalue⟩ := of_decide_eq_true hcheck
    obtain ⟨hsymbols, -, -⟩ := layout_sameButOperands {} hsame
    exact ⟨_, _, statements, statements', hread, hread', hsame, hclean,
      hreports, hsymbols, hsymbols ▸ hvalue⟩
  · simp at hcheck

end Program

end System370
