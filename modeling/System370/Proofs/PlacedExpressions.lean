import System370.Proofs.LinkedTable

/-!
# Expressions before and after the sections are placed

Statements are laid out while every section begins at zero, and code is
generated when the sections have their bases.  An expression that is read in
both passes means the same: `Expression.evaluate_normalize` says that reading it
late is reading it early and moving the result by the bases of its sections.
The error is the same if there is one, and so are the names that were read.

The argument goes through the steps of an evaluation.  `SymbolTable.relocate` is
linear (`relocate_add`, `relocate_negate`), whatever terms merge or cancel, and
products and quotients are only formed of values without terms, which do not
move.

An equate keeps the value it got while statements were laid out.
`Program.equated` says that this is the value which its operand has at the end.
-/

namespace System370

/-! ### Moving is linear -/

namespace SymbolTable

variable (t : SymbolTable) (v w : Value)

@[simp] theorem terms_relocate : (t.relocate v).terms = v.terms := rfl

@[simp] theorem isAbsolute_relocate :
    (t.relocate v).isAbsolute = v.isAbsolute := rfl

/-- Moving a value gives every section its base and keeps the terms. -/
theorem relocate_eq :
    t.relocate v =
      ⟨v.linked fun target => t.offset target.sectionId, v.terms⟩ := by
  have hnumber := t.number_relocate v
  have hterms := t.terms_relocate v
  generalize t.relocate v = moved at hnumber hterms
  obtain ⟨number, terms⟩ := moved
  simp only at hnumber hterms
  rw [hnumber, hterms, Value.linked]

/-- **A sum moves with its parts.** -/
theorem relocate_add :
    t.relocate (v.add w) = (t.relocate v).add (t.relocate w) := by
  simp only [relocate_eq, Value.linked_add]
  rfl

/-- Moving sections commutes with signs. -/
theorem relocate_negate : t.relocate v.negate = (t.relocate v).negate := by
  simp only [relocate_eq, Value.linked_negate]
  rfl

/-- So it does with differences. -/
theorem relocate_sub :
    t.relocate (v.sub w) = (t.relocate v).sub (t.relocate w) := by
  rw [Value.sub, relocate_add, relocate_negate, Value.sub]

variable {v}

/-- A value without terms does not move. -/
theorem relocate_of_isAbsolute (h : v.isAbsolute = true) :
    t.relocate v = v := by
  rw [relocate_eq, Value.linked_of_isAbsolute _ h]

end SymbolTable

/-! ### Evaluating in both passes -/

namespace Traced

variable {ε α β γ : Type}

/-- The same evaluation with another value. -/
def map (f : α → β) (t : Traced ε α) : Traced ε β := ⟨t.names, t.result.map f⟩

@[simp] theorem map_done (f : α → β) (a : α) :
    (done a : Traced ε α).map f = done (f a) := rfl

/-- What is made of a step that follows. -/
theorem map_andThen (g : β → γ) (t : Traced ε α) (f : α → Traced ε β) :
    (t.andThen f).map g = t.andThen fun a => (f a).map g := by
  unfold andThen
  cases t.result <;> rfl

theorem andThen_map (f : α → β) (t : Traced ε α) (g : β → Traced ε γ) :
    (t.map f).andThen g = t.andThen fun a => g (f a) := by
  obtain ⟨names, result⟩ := t
  cases result <;> rfl

end Traced

namespace Expression

/-- A place moved along with its section. -/
def Place.moved (t : SymbolTable) (p : Place) : Place :=
  { p with loc := if 0 < p.sectionId then
    p.loc + t.offset p.sectionId else p.loc }

/-- A result moved along with the sections of its value. -/
def Result.moved (t : SymbolTable) (r : Result) : Result :=
  { r with value := t.relocate r.value }

variable {t : SymbolTable} {place : Place}

/-- The value of a place moves with it. -/
theorem Place.value_moved (t : SymbolTable) (p : Place) :
    (p.moved t).value = t.relocate p.value := by
  unfold Place.value Place.moved SymbolTable.relocate
  by_cases hzero : p.sectionId = 0
  · simp [hzero, Value.absolute]
  · by_cases hpos : 0 < p.sectionId
    · simp [hzero, hpos, Value.relocatable, Target.sectionId]
    · simp [hzero, hpos, Value.relocatable, Target.sectionId,
        SymbolTable.offset]

/-- Two moved results are combined as the results are. -/
theorem combine_moved (t : SymbolTable) (step : Step) (left right : Result) :
    combine step (left.moved t) (right.moved t) =
      (combine step left right).map (Result.moved t) := by
  have habsolute : ∀ r : Result,
      (r.moved t).value.isAbsolute = r.value.isAbsolute := fun _ => rfl
  unfold combine
  split
  · simp only [Result.moved, Except.map, SymbolTable.relocate_add]
  · simp only [Result.moved, Except.map, SymbolTable.relocate_sub]
  · -- a product has factors without terms, which stay where they are
    rw [habsolute, habsolute]
    split
    · rename_i hboth
      obtain ⟨hleft, hright⟩ := Bool.and_eq_true_iff.mp hboth
      simp only [Result.moved, t.relocate_of_isAbsolute hleft,
        t.relocate_of_isAbsolute hright, Except.map]
      rw [t.relocate_of_isAbsolute rfl]
    · rfl

/-- A name has its definition in both passes, moved in the second. -/
theorem lookup_normalize (h : t.normalized = false) (name : Bytes) :
    lookup t.normalize name =
      (lookup t name).map fun d =>
        { d with value := t.normalize.relocate d.value } := by
  unfold lookup
  rw [SymbolTable.definition?_normalize h]
  cases t.definition? name <;> rfl

/-- **One step in both passes.** -/
theorem run_step_normalize (h : t.normalized = false) (step : Step)
    (stack : List Result) :
    step.run t.normalize (place.moved t.normalize)
      (stack.map (Result.moved t.normalize)) =
      (step.run t place stack).map (List.map (Result.moved t.normalize)) := by
  have hbinary : ∀ right left rest,
      (Traced.ofExcept (combine step (Result.moved t.normalize left)
          (Result.moved t.normalize right))).andThen
        (fun r => Traced.done (r :: rest.map (Result.moved t.normalize))) =
      ((Traced.ofExcept (combine step left right)).andThen
          (fun r => Traced.done (r :: rest))).map
        (List.map (Result.moved t.normalize)) := by
    intro right left rest
    rw [combine_moved]
    cases combine step left right <;> rfl
  cases step with
  | number n => rfl
  | place =>
      simp only [Step.run.eq_def, Traced.map_done, List.map_cons, Result.moved,
        Place.value_moved]
      rfl
  | placeLength => rfl
  | symbol name =>
      simp only [Step.run.eq_def, lookup_normalize h, Traced.andThen_map,
        Traced.map_andThen]
      rfl
  | lengthOf name =>
      simp only [Step.run.eq_def, lookup_normalize h, Traced.andThen_map,
        Traced.map_andThen]
      rfl
  | negate =>
      cases stack with
      | nil => rfl
      | cons top rest =>
          simp only [Step.run.eq_def, List.map_cons, Traced.map_done,
            Result.moved, SymbolTable.relocate_negate]
  | add | subtract | multiply | divide =>
      rcases stack with _ | ⟨right, _ | ⟨left, rest⟩⟩
      · rfl
      · rfl
      · exact hbinary right left rest

/-- All steps in both passes. -/
theorem run_normalize (h : t.normalized = false) (steps : List Step)
    (stack : List Result) :
    run t.normalize (place.moved t.normalize)
      (stack.map (Result.moved t.normalize)) steps =
      (run t place stack steps).map (List.map (Result.moved t.normalize)) := by
  induction steps generalizing stack with
  | nil => rfl
  | cons step rest ih =>
      simp only [run, run_step_normalize h, Traced.andThen_map,
        Traced.map_andThen, ih]

/-- **An expression means the same in both passes**, apart from the bases of its
sections. -/
theorem evaluate_normalize (h : t.normalized = false) (place : Place)
    (text : Bytes) :
    evaluate t.normalize (place.moved t.normalize) text =
      (evaluate t place text).map (Result.moved t.normalize) := by
  have hrun : run t.normalize (place.moved t.normalize) [] (parse text).steps =
      (run t place [] (parse text).steps).map
        (List.map (Result.moved t.normalize)) :=
    run_normalize h (parse text).steps []
  simp only [evaluate, hrun, Traced.andThen_map, Traced.map_andThen]
  congr 1
  funext stack
  cases (parse text).problem with
  | some problem => rfl
  | none => cases stack <;> rfl

/-- **A number is the same in both passes.** -/
theorem absolute_normalize (h : t.normalized = false) (place : Place)
    (text : Bytes) :
    absolute t.normalize (place.moved t.normalize) text =
      absolute t place text := by
  unfold absolute
  rw [evaluate_normalize h, Traced.andThen_map]
  congr 1
  funext r
  have hclass : classOf (t.normalize.relocate r.value) = classOf r.value := rfl
  simp only [Result.moved, SymbolTable.isAbsolute_relocate, hclass]
  split
  · rw [t.normalize.relocate_of_isAbsolute ‹_›]
  · rfl

end Expression

/-! ### Equates -/

namespace Layout

/-- The last attempt settles an equate. -/
theorem isWaiting_settle_true (d : Draft) :
    isWaiting (d.settle true).record = false := by
  unfold Draft.settle
  split
  · rw [Bool.not_true, Bool.and_false]
    rfl
  · unfold Draft.define
    split <;> rfl

/-- After the last round no equate waits. -/
theorem isWaiting_settleRound_true (l : Layout) (records : List Record) :
    ∀ r ∈ (settleRound true l records).2, isWaiting r = false := by
  induction records generalizing l with
  | nil => simp [settleRound]
  | cons r rest ih =>
      intro other hother
      simp only [settleRound] at hother
      rcases List.mem_cons.mp hother with rfl | hother
      · split
        · exact isWaiting_settle_true _
        · exact Bool.eq_false_iff.mpr ‹_›
      · exact ih _ other hother

/-- No round makes an equate wait. -/
theorem countP_settleRound_le (last : Bool) (l : Layout)
    (records : List Record) :
    (settleRound last l records).2.countP isWaiting ≤
      records.countP isWaiting := by
  induction records generalizing l with
  | nil => exact Nat.le_refl _
  | cons r rest ih =>
      simp only [settleRound, List.countP_cons]
      refine Nat.add_le_add (ih _) ?_
      by_cases hwaiting : isWaiting r = true
      · rw [if_pos hwaiting]
        split <;> omega
      · simp [hwaiting]

/-- **In the end no equate waits.**  Every round but the last settles one. -/
theorem isWaiting_settleAll {fuel : Nat} {records : List Record} (l : Layout)
    (h : records.countP isWaiting < fuel) :
    ∀ r ∈ (settleAll fuel l records).2, isWaiting r = false := by
  induction fuel generalizing l records with
  | zero => omega
  | succ fuel ih =>
      have hround := countP_settleRound_le false l records
      intro r hr
      unfold settleAll at hr
      simp only at hr
      split at hr
      · rename_i hzero
        exact Bool.eq_false_iff.mpr (List.countP_eq_zero.mp hzero r hr)
      · split at hr
        · exact isWaiting_settleRound_true _ _ r hr
        · exact ih _ (by omega) r hr

end Layout

namespace Program

/-- Before addresses are known no equate waits any more. -/
theorem isWaiting_unplaced (options : Options) (statements : List Statement) :
    ∀ r ∈ (unplaced options statements).records, Layout.isWaiting r = false :=
  Layout.isWaiting_settleAll _ (Nat.lt_succ_of_le List.countP_le_length)

/-- The expressions of a record move along with it. -/
theorem place_moveRecord (t : SymbolTable) (r : Record) :
    (moveRecord t r).place = r.place.moved t := by
  have hinstruction : (moveRecord t r).instruction? = r.instruction? := by
    unfold moveRecord Record.instruction?
    cases r.body <;> rfl
  unfold Record.place Expression.Place.moved
  rw [hinstruction]
  rfl

/-- **An equate has the value that its operand has in the end.** -/
theorem equated_moveRecord {t : SymbolTable} {r : Record}
    (h : r.Equated t) (hunplaced : t.normalized = false) :
    (moveRecord t.normalize r).Equated t.normalize := by
  intro moved hmoved
  obtain ⟨value, hbody, rfl⟩ :
      ∃ value, r.body = .equate value false ∧
        t.normalize.relocate value = moved := by
    unfold moveRecord at hmoved
    cases hr : r.body with
    | equate value waiting =>
        simp only [hr, Record.Body.equate.injEq] at hmoved
        exact ⟨value, hmoved.2 ▸ rfl, hmoved.1⟩
    | comment => simp [hr] at hmoved
    | located => simp [hr] at hmoved
    | storage parts => simp [hr] at hmoved
    | instruction op bound => simp [hr] at hmoved
    | pool ids => simp [hr] at hmoved
  rcases h value hbody with ⟨result, hresult, hvalue, hlabel⟩ | ⟨herror, rfl⟩
  · refine Or.inl ⟨result.moved t.normalize, ?_, ?_, fun hok => ?_⟩
    · rw [place_moveRecord, Expression.evaluate_normalize hunplaced]
      show (Expression.evaluate t r.place
        (r.statement.operands.headD [])).result.map _ = _
      rw [hresult]
      rfl
    · show t.normalize.relocate result.value = _
      rw [hvalue]
    · obtain ⟨d, hd, heq⟩ := hlabel hok
      refine ⟨{ d with value := t.normalize.relocate d.value }, ?_, ?_⟩
      · show t.normalize.definition? r.label = _
        rw [SymbolTable.definition?_normalize hunplaced, hd]
        rfl
      · show t.normalize.relocate d.value = _
        rw [heq]
  · exact Or.inr ⟨herror, rfl⟩

/-- **Both passes agree on every expression.**  Until the sections are placed
the table is not normalized, whatever statements were laid out and whatever
equates settled.  An expression at any place then fails as it fails later, or
has the value that it has later apart from the bases of its sections.  An equate
that was evaluated has the value of its operand in the second pass, and so has
its label; an equate that was not is an error. -/
theorem expressions_agree (options : Options) (statements : List Statement) :
    (∀ t : SymbolTable, t.normalized = false →
      ∀ (place : Expression.Place) (text : Bytes),
      Expression.evaluate t.normalize (place.moved t.normalize) text =
        (Expression.evaluate t place text).map
          (Expression.Result.moved t.normalize)) ∧
    (∀ before, ((Layout.new options).run before).1.symbols.normalized = false) ∧
    (unplaced options statements).layout.symbols.normalized = false ∧
    ∀ r ∈ (unplaced options statements).records, ∀ value waiting,
    r.body = .equate value waiting →
      let t := (ofStatements options statements).layout.symbols
      waiting = false ∧
      (moveRecord t r).body = .equate (t.relocate value) false ∧
      ((∃ result, (Expression.evaluate t (moveRecord t r).place
          (r.statement.operands.headD [])).result = .ok result ∧
          result.value = t.relocate value ∧
          (r.errored = false → ∃ d,
            t.definition? r.label = some d ∧ d.value = t.relocate value)) ∨
        (r.errored = true ∧ value = .absolute 0)) := by
  obtain ⟨hwf, hplaced⟩ := unplaced_spec options statements
  have hunplaced := hwf.symbols.numbered.unplaced
  refine ⟨fun t ht => Expression.evaluate_normalize ht, fun before => ?_,
    hunplaced, ?_⟩
  · exact (Layout.run_spec (Layout.wellFormed_new options)
      before).layout.symbols.numbered.unplaced
  · intro r hr value waiting hbody
    obtain rfl : waiting = false := by
      have hwaiting := isWaiting_unplaced options statements r hr
      simpa [Layout.isWaiting, hbody] using hwaiting
    have hmoved :
        (moveRecord (ofStatements options statements).layout.symbols r).body =
        .equate ((ofStatements options statements).layout.symbols.relocate
          value) false := by
      simp [moveRecord, hbody]
    have hequated := (hplaced r hr).equated
    refine ⟨rfl, hmoved, ?_⟩
    rcases equated_moveRecord hequated hunplaced _ hmoved with
      hvalue | ⟨herror, hzero⟩
    · exact Or.inl hvalue
    · have habsolute : value.isAbsolute = true := by
        rw [← SymbolTable.isAbsolute_relocate _ value, hzero]
        rfl
      rw [SymbolTable.relocate_of_isAbsolute _ habsolute] at hzero
      exact Or.inr ⟨herror, hzero⟩

/-- An equate in the second section names symbols that are defined behind it.
It waits, becomes the twelfth octet of the section, and is the twentieth of the
module. -/
theorem expressions_agree_forward :
    ∃ source statements r result, Statement.readAll source = .ok statements ∧
      r ∈ (unplaced {} statements).records ∧
      r.statement.operands = [bytes "Y+(Z-Y)*2"] ∧
      r.body = .equate (.relocatable 12 2) false ∧
      (unplaced {} statements).layout.symbols.normalized = false ∧
      Expression.evaluate (unplaced {} statements).layout.symbols.normalize
          (r.place.moved (unplaced {} statements).layout.symbols.normalize)
          (bytes "*-A") =
        (Expression.evaluate (unplaced {} statements).layout.symbols r.place
          (bytes "*-A")).map
          (Expression.Result.moved
            (unplaced {} statements).layout.symbols.normalize) ∧
      (Expression.evaluate (ofStatements {} statements).layout.symbols
          (moveRecord (ofStatements {} statements).layout.symbols r).place
          (bytes "Y+(Z-Y)*2")).result = .ok result ∧
      result.value = .relocatable 20 2 := by
  have hcheck : (match Statement.readAll (bytes (String.append
        "A CSECT\n DC F'1'\nB CSECT\n DC F'2'\nX EQU Y+(Z-Y)*2\n"
        "Y DC F'3'\nZ DC F'4'\n END\n")) with
      | .ok statements => (match (unplaced {} statements).records[4]? with
        | some r =>
            decide (r.body = .equate (.relocatable 12 2) false ∧
              r.errored = false ∧
              r.statement.operands = [bytes "Y+(Z-Y)*2"] ∧
              (unplaced {} statements).layout.symbols.normalized = false ∧
              (ofStatements {} statements).layout.symbols.relocate
              (.relocatable 12 2) =
              .relocatable 20 2)
        | none => false)
      | .error _ => false) = true := by decide +kernel
  split at hcheck
  · rename_i statements hread
    split at hcheck
    · rename_i r hr
      obtain ⟨hbody, hok, hoperands, hunplaced, hmoved⟩ :=
        of_decide_eq_true hcheck
      have hmem := List.mem_of_getElem? hr
      obtain ⟨hagree, -, -, hequates⟩ := expressions_agree {} statements
      obtain ⟨-, -, hvalue⟩ := hequates r hmem _ _ hbody
      rcases hvalue with ⟨result, hresult, heq, -⟩ | ⟨herror, -⟩
      · rw [hoperands] at hresult
        exact ⟨_, statements, r, result, hread, hmem, hoperands, hbody,
          hunplaced, hagree _ hunplaced r.place _, hresult, heq.trans hmoved⟩
      · simp [hok] at herror
    · simp at hcheck
  · simp at hcheck

end Program

end System370
