import System370.Proofs.ExpressionMeaning
import System370.Proofs.InstructionFields

/-!
# Implied lengths

An instruction on two fields in storage has the lengths of its operands in it.
A length that is not written is that of the operand: the length attribute of the
leftmost term of its expression, or that of the first value of a literal.  With
the base register written out the attribute is lost, and the length code is
zero.

* `Record.Denotes.implied`: the length that an operand implies;
* `Generate.impliedLength_instructionOctets`: it is the one in the octets of an
  instruction without errors.
-/

namespace System370

namespace Record

variable {t : SymbolTable} {literals : LiteralPool}
  {holds : Register → Domain → Prop} {r : Record} {i : Nat}

/-- Whether an operand has no length written: it is a literal, or nothing is
written first in its parentheses. -/
def Unmeasured (literals : LiteralPool) (r : Record) (i : Nat) : Prop :=
  (Generate.boundLiteral? r literals i).isSome = true ∨
    isBlank ((splitAddress (r.operand i)).2.headD []) = true

/-- The length that an operand implies: that of the first value of its literal,
that of the leftmost term of its expression, or none if the base register is
written out. -/
inductive Implies (t : SymbolTable) (literals : LiteralPool) (r : Record)
    (i : Nat) : Int64 → Prop where
  | literal {literal : Literal}
      (hbound : Generate.boundLiteral? r literals i = some literal) :
      Implies t literals r i (Int64.ofNat literal.lengthAttribute)
  | term {p : Expression.Phrase .sum}
      (hbound : Generate.boundLiteral? r literals i = none)
      (hparts : (splitAddress (r.operand i)).2.length < 2)
      (htext : p.yield = (splitAddress (r.operand i)).1)
      (hadmissible : p.Admissible t r.place) :
        Implies t literals r i (p.length t r.place)
  | explicit (hbound : Generate.boundLiteral? r literals i = none)
      (hparts : (splitAddress (r.operand i)).2.length = 2) :
        Implies t literals r i 0

theorem Writes.eq_none {kind : Inner} {parts : List Bytes}
    {inner : Option Int64} (h : r.Writes t kind parts inner)
    (hblank : isBlank (parts.headD []) = true) : inner = none := by
  cases h with
  | nothing => rfl
  | index hwritten | length hwritten =>
      exact absurd hblank (Bool.eq_false_iff.mp hwritten)

/-- **The length of an operand without a written one** is the one that the
operand implies. -/
theorem Denotes.implied {operand : StorageOperand}
    (h : r.Denotes t literals holds i .length operand)
    (hunmeasured : r.Unmeasured literals i) :
    r.Implies t literals i (operand.inner.getD operand.length) := by
  have hblank : ∀ {inner : Option Int64},
      Generate.boundLiteral? r literals i = none →
      r.Writes t .length (splitAddress (r.operand i)).2 inner →
        inner = none := by
    intro inner hbound hinner
    refine hinner.eq_none (hunmeasured.resolve_left ?_)
    simp [hbound]
  cases h with
  | literal hbound => exact .literal hbound
  | implicit hbound _ hparts hresult hinner =>
      obtain ⟨p, htext, -, hdefined, habsolute, -, hlength⟩ :=
        Expression.exists_phrase_of_evaluate hresult
      rw [hblank hbound hinner, Option.getD_none, ← hlength]
      exact .term hbound hparts htext ⟨hdefined, habsolute⟩
  | explicit hbound _ hparts _ hinner =>
      rw [hblank hbound hinner]
      exact .explicit hbound hparts

end Record

namespace Generate

variable {r : Record} {g : Generation}

/-- **Implied lengths.**  In an instruction without errors, the length code of
an operand in storage without a written length is that of the length that the
operand implies. -/
theorem impliedLength_instructionOctets {op : Instruction}
    (hop : op ∈ Instruction.table)
    (hcounted : r.statement.operands.length = op.operandCount)
    (hclean : Clean (instructionOctets op) r g) {i : Nat}
    (hform : op.format.operands[i]? = some (.storage .length))
    (hunmeasured : r.Unmeasured g.literals i) :
    ∃ n choice, r.Implies g.symbols g.literals i n ∧ 0 ≤ n ∧
      op.format.field? (exec (instructionOctets op) r g).1 i =
        some (.storage (some (lengthCode n)) choice) := by
  obtain ⟨second, rest, hcode, hoctets, hfilled⟩ :=
    filled_instructionOctets hop hcounted hclean
  obtain ⟨field, hfield, hdetermines⟩ :=
    (hfilled.encodes hop hoctets).operands i _ hform
  rw [hcode]
  cases hdetermines with
  | length hdenotes hlength hnonneg =>
      exact ⟨_, _, hlength ▸ hdenotes.implied hunmeasured, hnonneg, hfield⟩

/-- A field of eight octets, once by its name and once by a displacement with
its base register: the length codes are seven and zero. -/
theorem impliedLength_instructionOctets_explicit :
    ∃ (r : Record) (g : Generation) (op : Instruction),
    op ∈ Instruction.table ∧ r.statement.operands.length = op.operandCount ∧
      Clean (instructionOctets op) r g ∧ r.Unmeasured g.literals 0 ∧
      r.Unmeasured g.literals 1 ∧
      (∃ n, r.Implies g.symbols g.literals 0 n ∧ lengthCode n = 7) ∧
      ∃ n, r.Implies g.symbols g.literals 1 n ∧ lengthCode n = 0 := by
  have hany : (Statement.readAll (bytes
      "A CSECT\n BALR 12,0\n USING *,12\n ZAP F,F-A(,12)\nF DS CL8\n END\n")
      |>.toOption.any fun statements =>
          let p := Program.ofStatements {} statements
          let g := ((Generation.new p).run (p.records.take 3)).2
          p.records[3]?.any fun r => r.instruction?.any fun op =>
            let out := exec (instructionOctets op) r g
            decide (op ∈ Instruction.table ∧
                r.statement.operands.length = op.operandCount ∧
              (∀ d ∈ out.2.2.diagnostics.drop g.diagnostics.length,
                d.severity.isError = false) ∧
              isBlank ((splitAddress (r.operand 0)).2.headD []) = true ∧
              isBlank ((splitAddress (r.operand 1)).2.headD []) = true ∧
              op.format.operands[0]? = some (.storage .length) ∧
              op.format.operands[1]? = some (.storage .length) ∧
              op.format.field? out.1 0 = some (.storage (some 7) ⟨12, 6⟩) ∧
              op.format.field? out.1 1 = some (.storage (some 0) ⟨12, 8⟩))) =
                true := by
    decide +kernel
  obtain ⟨statements, -, hcheck⟩ := exists_ok_of_any hany
  obtain ⟨r, -, hcheck⟩ := (Option.any_eq_true _ _).mp hcheck
  obtain ⟨op, -, hcheck⟩ := (Option.any_eq_true _ _).mp hcheck
  obtain ⟨hop, hcounted, hclean, hfirst, hsecond, hform0, hform1,
      hfield0, hfield1⟩ :=
    of_decide_eq_true hcheck
  refine ⟨r, _, op, hop, hcounted, hclean, Or.inr hfirst,
    Or.inr hsecond, ?_, ?_⟩
  · obtain ⟨n, _, himplies, -, hfield⟩ :=
      impliedLength_instructionOctets hop hcounted hclean hform0 (Or.inr hfirst)
    rw [hfield] at hfield0
    have hcode := (OperandField.storage.inj (Option.some.inj hfield0)).1
    exact ⟨n, himplies, Option.some.inj hcode⟩
  · obtain ⟨n, _, himplies, -, hfield⟩ :=
      impliedLength_instructionOctets hop hcounted hclean hform1
        (Or.inr hsecond)
    rw [hfield] at hfield1
    have hcode := (OperandField.storage.inj (Option.some.inj hfield1)).1
    exact ⟨n, himplies, Option.some.inj hcode⟩

end Generate

end System370
