import System370.Proofs.EmissionGate

/-!
# The operands of a data statement

Operands that are wrong are reported and left out, and an error marks the
record.  So a data statement without an error has a constant for each of its
operands, in their order (`Program.described_ofStatements`).
-/

namespace System370

/-! ### Operands that are refused -/

namespace Constant

variable {ε : Type} {eval : Bytes → Traced ε Int64} {text : Bytes} {e : ε}

/-- An expression that fails in front of a constant is one that the evaluator
refused. -/
theorem refused_of_evaluate {inner : Bytes}
    {β : Type} {f : Int64 → Traced (ParseError ε) β}
    (hf : ∀ n, (f n).result ≠ .error (.expression e))
    (h : (((eval inner).mapError .expression).andThen f).result =
      .error (.expression e)) :
    (eval inner).result = .error e := by
  rcases Traced.result_andThen_eq_error h with hfirst | ⟨n, -, hlast⟩
  · unfold Traced.mapError at hfirst
    simp only at hfirst
    split at hfirst
    · simp at hfirst
    · rename_i e' he
      rw [he]
      simpa using hfirst
  · exact absurd hlast (hf n)

/-- A duplication factor that is an expression may be refused. -/
theorem refused_of_parseDuplication
    (h : (parseDuplication eval text).result = .error (.expression e)) :
    ∃ inner, (eval inner).result = .error e := by
  unfold parseDuplication at h
  split at h
  · split at h
    · simp [Traced.fail, malformed] at h
    · exact ⟨_, refused_of_evaluate (fun n => by simp) h⟩
  · simp only at h
    split at h
    · simp at h
    · split at h
      · simp at h
      · simp [Traced.fail, malformed] at h

/-- A length modifier that is an expression may be refused. -/
theorem refused_of_parseLength {kind : Kind} {rest : Bytes}
    (h : (parseLength eval text kind rest).result = .error (.expression e)) :
    ∃ inner, (eval inner).result = .error e := by
  unfold parseLength at h
  split at h
  · simp at h
  · split at h
    · rcases Traced.result_andThen_eq_error h with
        hvalue | ⟨⟨n, after⟩, -, hrange⟩
      · unfold parseLengthValue at hvalue
        split at hvalue
        · split at hvalue
          · simp [Traced.fail, malformed] at hvalue
          · exact ⟨_, refused_of_evaluate (fun n => by simp) hvalue⟩
        · simp only at hvalue
          split at hvalue
          · simp [Traced.fail, malformed] at hvalue
          · simp at hvalue
      · simp only at hrange
        split at hrange
        · simp [Traced.fail] at hrange
        · simp at hrange
    · simp at h

/-- **An operand fails with an expression** only if the evaluator refused
one. -/
theorem refused_of_parse
    (h : (parse eval text).result = .error (.expression e)) :
    ∃ inner, (eval inner).result = .error e := by
  rcases Traced.result_andThen_eq_error h with hfactor | ⟨⟨dup, rest⟩, -, h⟩
  · exact refused_of_parseDuplication hfactor
  · simp only at h
    split at h
    · simp [Traced.fail] at h
    · split at h
      · simp [Traced.fail, malformed] at h
      · split at h
        · simp [Traced.fail] at h
        · rcases Traced.result_andThen_eq_error h with
            hlength | ⟨⟨explicit, after⟩, -, h⟩
          · exact refused_of_parseLength hlength
          · simp only [Traced.ofExcept, Traced.mapError] at h
            split at h <;> simp at h

/-- A parsed constant has the text of its operand. -/
theorem Reads.text_eq {d : Descriptor} (h : Reads eval text d) :
    d.text = text := by
  cases h
  rfl

end Constant

namespace Draft

variable {d d' : Draft}

/-- A step that ends without an error began without one. -/
theorem Steps.unmarked (h : d.Steps d') (hclean : d'.record.errored = false) :
    d.record.errored = false := by
  cases herrored : d.record.errored with
  | false => rfl
  | true =>
      exact absurd (h.reports.reported.errored_mono herrored) (by simp [hclean])

/-- An operand that is no constant is an error. -/
theorem isError_parseConstant {text : Bytes}
    {problem : Problem} (h : (d.parseConstant text).1 = .error problem) :
    problem.severity.isError = true := by
  unfold parseConstant at h
  simp only at h
  split at h
  · simp at h
  · rename_i refused hrefused
    obtain rfl := Except.error.inj h
    obtain ⟨inner, hinner⟩ := Constant.refused_of_parse hrefused
    exact Expression.isError_absolute hinner
  · obtain rfl := Except.error.inj h
    rfl

/-- A descriptor keeps the text it was read from. -/
theorem text_parseConstant {text : Bytes} {descriptor : Constant.Descriptor}
    (h : (d.parseConstant text).1 = .ok descriptor) :
    descriptor.text = text := by
  unfold parseConstant at h
  simp only at h
  split at h
  · rename_i parsed hparsed
    obtain rfl := Except.ok.inj h
    exact (Constant.reads_of_parse hparsed).text_eq
  · simp at h
  · simp at h

/-- A name that is refused marks the record. -/
theorem errored_registerExternals {cursor : Cursor} {names : List Bytes}
    (h : (d.registerExternals cursor names).1 = false) :
    (d.registerExternals cursor names).2.record.errored = true := by
  induction names generalizing d with
  | nil => simp [registerExternals] at h
  | cons nominal rest ih =>
      unfold registerExternals at h ⊢
      simp only at h ⊢
      split at h
      · rename_i hsymbol
        rw [if_pos hsymbol]
        exact ih h
      · rename_i hsymbol
        rw [if_neg hsymbol]
        exact errored_report d _ rfl

/-- **Values that are not accepted are an error.** -/
theorem errored_acceptData {descriptor : Constant.Descriptor} {cursor : Cursor}
    (h : (d.acceptData descriptor cursor).1 = false) :
    (d.acceptData descriptor cursor).2.record.errored = true := by
  unfold acceptData at h ⊢
  split at h
  · rename_i hnominal
    rw [if_pos hnominal]
    exact errored_report d _ rfl
  · rename_i hnominal
    rw [if_neg hnominal]
    unfold checkValues at h ⊢
    split at h
    · rename_i hkind
      rw [if_pos hkind]
      exact errored_registerExternals h
    · rename_i hkind
      rw [if_neg hkind]
      split at h
      · simp at h
      · rename_i haddress
        rw [if_neg haddress]
        split at h
        · simp at h
        · exact errored_refuse d _ _

/-! ### Constants and their operands -/

/-- Whether there is a constant for every operand so far, unless one of them was
wrong. -/
def Describes (d : Draft) (operands : List Bytes) : Prop :=
  d.record.errored = false → d.parts.map (·.1.text) = operands

/-- Reporting, defining and recording leave the constants alone. -/
theorem Describes.steps {operands : List Bytes} (h : d.Describes operands)
    (hsteps : d.Steps d') (hbody : d'.record.body = d.record.body) :
    d'.Describes operands := by
  intro hclean
  rw [parts_congr hbody]
  exact h (hsteps.unmarked hclean)

theorem describes_of_errored (h : d.record.errored = true)
    (operands : List Bytes) :
    d.Describes operands :=
  fun hclean => by simp [h] at hclean

/-- A constant that is placed describes its operand. -/
theorem describes_placeConstant {operands : List Bytes}
    (h : d.Describes operands) (descriptor : Constant.Descriptor)
    (loc : Int64) :
    (d.placeConstant descriptor loc).Describes
      (operands ++ [descriptor.text]) := by
  intro hclean
  have hbefore := h ((steps_placeConstant d descriptor loc).unmarked hclean)
  have hplaced : ∀ d' : Draft, d'.record.body = d.record.body → ∀ offset,
      (d'.withBody (.storage (d'.parts ++ [(descriptor, offset)]))).parts.map
        (·.1.text) =
        operands ++ [descriptor.text] := by
    intro d' hbody offset
    rw [parts_congr hbody, ← hbefore]
    exact List.map_append
  unfold placeConstant
  split
  · exact hplaced _ (body_defineLabel (d.withLoc loc) _ _ _) _
  · exact hplaced d rfl _

/-- **One operand of a data statement** gets its constant, or it is wrong. -/
theorem describes_layOutConstant {state : Draft × Int64} {operands : List Bytes}
    (h : state.1.Describes operands) {operand : Nat × Bytes}
    (hoperand : operand.2 ∈ state.1.statement.operands) :
    (layOutConstant true state operand).1.Describes
      (operands ++ [operand.2]) := by
  obtain ⟨d, loc⟩ := state
  unfold layOutConstant
  simp only [reduceIte]
  split
  · rename_i problem hproblem
    exact describes_of_errored
      (errored_report _ _ (isError_parseConstant hproblem)) _
  · rename_i descriptor hdescriptor
    split
    · have haccepted : (((d.parseConstant operand.2).2).acceptData descriptor
          (d.statement.operandCursor operand.1)).2.Describes operands :=
        h.steps ((steps_parseConstant d operand.2).trans
          (steps_acceptData _ _
            (hasEndless_of_parseConstant hoperand (Or.inl rfl) hdescriptor)))
          (body_acceptData _ _ _)
      have hplaced := describes_placeConstant haccepted descriptor
        (alignUp loc (Int64.ofNat descriptor.alignment))
      rwa [text_parseConstant hdescriptor] at hplaced
    · rename_i hrefused
      exact describes_of_errored
        (errored_acceptData (Bool.eq_false_iff.mpr hrefused)) _

/-- **A data statement without an error has a constant for every operand.** -/
theorem describes_layOutStorage (d : Draft) :
    (d.layOutStorage true).Describes d.record.statement.operands := by
  have hfold : ∀ (operands : List (Nat × Bytes)) (state : Draft × Int64)
      (before : List Bytes),
      (∀ operand ∈ operands, operand.2 ∈ state.1.statement.operands) →
      state.1.Describes before →
      (operands.foldl (layOutConstant true) state).1.Describes
        (before ++ operands.map (·.2)) := by
    intro operands
    induction operands with
    | nil => exact fun state before _ h => by simpa using h
    | cons operand rest ih =>
        intro state before hall h
        have hoperand := hall operand List.mem_cons_self
        have hsame := (steps_layOutConstant true state hoperand).statement
        have hrest := ih _ _
          (fun other hother => hsame ▸
            hall other (List.mem_cons_of_mem _ hother))
          (describes_layOutConstant h hoperand)
        rwa [List.append_assoc] at hrest
  have hstatement : (d.ensureSection.withBody (.storage [])).record.statement =
      d.record.statement :=
    ((steps_ensureSection d).withBody (.storage [])).statement
  have hnone : (d.ensureSection.withBody (.storage [])).Describes [] :=
    fun _ => rfl
  unfold layOutStorage
  simp only
  generalize d.ensureSection.withBody (.storage []) = start at *
  split
  · exact describes_of_errored
      (((Steps.refl _).defineMark _).reports.reported.errored_mono
        (errored_report _ _ rfl)) _
  · have hall := hfold start.statement.numbered (start, start.loc) []
      (fun _ => Statement.mem_operands_of_numbered) hnone
    rw [List.nil_append, Statement.map_snd_numbered] at hall
    generalize start.statement.numbered.foldl (layOutConstant true) (start,
      start.loc) = behind at *
    rw [← hstatement]
    split
    · exact hall.steps ((Steps.refl _).defineMark _) (body_defineLabel _ _ _ _)
    · exact hall

end Draft

/-- The record of a data statement without an error has a constant for every
operand. -/
def Record.Described (r : Record) : Prop :=
  r.errored = false → r.directive = some .dc →
    ∃ parts, r.body = .storage parts ∧
      parts.map (·.1.text) = r.statement.operands

/-- **Every storage record** without errors describes its operands. -/
theorem Record.rule_described : Record.Rule fun _ r => r.Described where
  exempt h := by
    rcases h with herrored | hnone | hending
    · exact fun hclean => by simp [herrored] at hclean
    · exact fun _ hdc => by simp [hnone] at hdc
    · exact fun _ hdc => by simp [hending] at hdc
  mono h _ := h
  laid {d directive} _ _ hdirective := by
    intro hclean hdc
    obtain rfl : directive = .dc := by
      rw [(d.reports_layOutDirective directive).directive, hdirective] at hdc
      exact Option.some.inj hdc
    obtain ⟨parts, hbody⟩ := d.isStorage_layOutStorage true
    have hdescribed := d.describes_layOutStorage hclean
    refine ⟨parts, hbody, ?_⟩
    rw [Draft.parts, hbody] at hdescribed
    rw [hdescribed]
    exact (congrArg Statement.operands
      (d.steps_layOutStorage true).statement).symm
  settled {d} last hwaiting h := by
    obtain ⟨hreported, hdirective, -, -⟩ :=
      ((Draft.Steps.refl d).settle last).reports
    intro hclean hdc
    have hbefore : d.record.errored = false := by
      cases herrored : d.record.errored with
      | false => rfl
      | true => exact absurd hclean (by simp [hreported.errored_mono herrored])
    obtain ⟨parts, hbody, -⟩ := h hbefore (hdirective ▸ hdc)
    simp [Layout.isWaiting, hbody] at hwaiting

/-- **Every data statement of a program without an error has a constant for
every operand.** -/
theorem Program.described_ofStatements (options : Options)
    (statements : List Statement) :
    ∀ r ∈ (ofStatements options statements).records, r.Described := by
  intro r hr
  obtain ⟨r₀, hr₀, rfl⟩ := List.mem_map.mp hr
  intro hclean hdc
  obtain ⟨parts, hbody, htexts⟩ :=
    Record.rule_described.unplaced options statements r₀ hr₀ hclean hdc
  exact ⟨parts, body_moveRecord_eq_storage.mpr hbody, htexts⟩

end System370
