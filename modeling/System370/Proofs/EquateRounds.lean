import System370.Proofs.PlacedExpressions
import Mathlib.Data.List.Nodup
import Mathlib.Data.List.Perm.Basic

/-!
# Rounds of settling equates

Equates that wait are tried in rounds.  An evaluation reads symbols from left to
right and ends at the first that is not defined (`Traced.ReadsFrom`), so a value
or an error that is not about a symbol stays what it is while names are only
added.

Whatever a round settles is therefore what the final table makes of it:
`Advances` says so of one equate, of a round and of several rounds.  A round
that settles nothing leaves only equates with undefined symbols, and those are
reported (`Settled`).

* `settleAll_least`: the definitions are the least ones in which every equate is
  solved, so they and the diagnostics do not depend on the order of the equates.
-/

namespace System370

/-! ### Evaluations read symbols -/

namespace Traced

variable {ε δ α β : Type} {blames : ε → Prop}

/-- An evaluation depends on the symbols that it reads and on no others.  It
fails and blames a symbol if it reads one that is not defined. -/
structure ReadsFrom (blames : ε → Prop)
    (F : SymbolTable → Traced ε α) : Prop where
  steady : ∀ t t', (∀ name ∈ (F t).names, ∃ d, t.definition? name = some d ∧
    t'.definition? name = some d) → F t' = F t
  undefined : ∀ t, (∃ name ∈ (F t).names, t.definition? name = none) ↔
    ∃ e, (F t).result = .error e ∧ blames e

/-- An outcome that reads nothing. -/
theorem ReadsFrom.constant {t : Traced ε α}
    (hnames : t.names = []) (herror : ∀ e, t.result = .error e → ¬ blames e) :
    ReadsFrom blames fun _ => t := by
  refine ⟨fun _ _ _ => rfl, fun _ => ⟨?_, ?_⟩⟩
  · rintro ⟨name, hname, -⟩
    simp [hnames] at hname
  · rintro ⟨e, he, hblames⟩
    exact absurd hblames (herror e he)

theorem ReadsFrom.done (a : α) :
    ReadsFrom blames fun _ => (done a : Traced ε α) :=
  .constant rfl (by simp)

/-- A failure at once, of a kind that no other table would mend. -/
theorem ReadsFrom.fail {e : ε} (h : ¬ blames e) :
    ReadsFrom blames fun _ => (fail e : Traced ε α) := by
  refine .constant rfl fun other hother => ?_
  rwa [← Except.error.inj hother]

/-- One evaluation after another. -/
theorem ReadsFrom.andThen {F : SymbolTable → Traced ε α}
    {G : α → SymbolTable → Traced ε β} (hF : ReadsFrom blames F)
    (hG : ∀ a, ReadsFrom blames (G a)) :
    ReadsFrom blames fun t => (F t).andThen fun a => G a t := by
  refine ⟨fun t t' hnames => ?_, fun t => ?_⟩
  · have hfirst : F t' = F t := by
      apply hF.steady
      intro name hname
      apply hnames
      unfold Traced.andThen
      split
      · exact List.mem_append_left _ hname
      · exact hname
    unfold Traced.andThen at hnames ⊢
    rw [hfirst]
    split
    · rename_i a ha
      rw [ha] at hnames
      have hsecond : G a t' = G a t := (hG a).steady t t' fun name hname =>
        hnames name (List.mem_append_right _ hname)
      simp only [hsecond]
    · rfl
  · unfold Traced.andThen
    cases hresult : (F t).result with
    | error e =>
        simp only
        rw [hF.undefined t, hresult]
        simp
    | ok a =>
        have hdefined : ∀ name ∈ (F t).names, t.definition? name ≠ none := by
          intro name hname hnone
          obtain ⟨e, he, -⟩ := (hF.undefined t).mp ⟨name, hname, hnone⟩
          simp [hresult] at he
        simp only
        rw [← (hG a).undefined t]
        constructor
        · rintro ⟨name, hname, hnone⟩
          refine ⟨name,
            (List.mem_append.mp hname).resolve_left fun hin => ?_, hnone⟩
          exact hdefined name hin hnone
        · rintro ⟨name, hname, hnone⟩
          exact ⟨name, List.mem_append_right _ hname, hnone⟩

/-- An evaluation that says of a failure where it happened. -/
theorem ReadsFrom.mapError {blames' : δ → Prop} {F : SymbolTable → Traced ε α}
    {f : ε → δ} (hF : ReadsFrom blames F) (hf : ∀ e, blames' (f e) ↔ blames e) :
    ReadsFrom blames' fun t => (F t).mapError f := by
  refine ⟨fun t t' hnames => ?_, fun t => ?_⟩
  · simp only [Traced.mapError]
    rw [hF.steady t t' hnames]
  · refine (hF.undefined t).trans ?_
    simp only [Traced.mapError]
    cases hresult : (F t).result with
    | ok a => simp
    | error e => simp [hf]

end Traced

namespace Expression

/-- Whether a problem is that a symbol is not defined. -/
def Blames (problem : Problem) : Prop := Draft.isUndefined problem = true

/-- A name that is looked up is read, and missing it is what more definitions
would mend. -/
theorem readsFrom_lookup (name : Bytes) :
    Traced.ReadsFrom Blames fun t => lookup t name := by
  refine ⟨fun t t' hnames => ?_, fun t => ?_⟩
  · obtain ⟨d, hd, hd'⟩ := hnames name (List.mem_singleton.mpr rfl)
    simp only [lookup, hd, hd']
  · simp only [lookup, List.mem_singleton, exists_eq_left]
    cases t.definition? name with
    | none => simp [Blames, Draft.isUndefined]
    | some d => simp

/-- A step of an expression reads the names that it looks up. -/
theorem readsFrom_step (place : Place) (stack : List Result) (step : Step) :
    Traced.ReadsFrom Blames fun t => step.run t place stack := by
  have hcombine : ∀ (step : Step) (left right : Result) (rest : List Result),
      Traced.ReadsFrom Blames fun _ =>
        (Traced.ofExcept (combine step left right)).andThen fun r =>
            Traced.done (r :: rest) := by
    intro step left right rest
    refine Traced.ReadsFrom.andThen (.constant rfl fun e he => ?_)
      fun r => .done _
    unfold Traced.ofExcept combine at he
    split at he
    · simp at he
    · simp at he
    · split at he
      · simp at he
      · rw [← Except.error.inj he]
        simp [Blames, Draft.isUndefined]
  have hbinary : ∀ step' : Step,
      (step' = .add ∨ step' = .subtract ∨ step' = .multiply ∨ step' = .divide) →
      Traced.ReadsFrom Blames fun t => step'.run t place stack := by
    intro step' hstep
    match stack with
    | right :: left :: rest =>
        rcases hstep with rfl | rfl | rfl | rfl
        · exact hcombine .add left right rest
        · exact hcombine .subtract left right rest
        · exact hcombine .multiply left right rest
        · exact hcombine .divide left right rest
    | [_] => rcases hstep with rfl | rfl | rfl | rfl <;> exact .done _
    | [] => rcases hstep with rfl | rfl | rfl | rfl <;> exact .done _
  cases step with
  | number n => exact .done _
  | place => exact .done _
  | placeLength => exact .done _
  | symbol name => exact (readsFrom_lookup name).andThen fun d => .done _
  | lengthOf name => exact (readsFrom_lookup name).andThen fun d => .done _
  | negate => cases stack <;> exact .done _
  | add => exact hbinary _ (by simp)
  | subtract => exact hbinary _ (by simp)
  | multiply => exact hbinary _ (by simp)
  | divide => exact hbinary _ (by simp)

theorem readsFrom_run (place : Place) (stack : List Result)
    (steps : List Step) :
    Traced.ReadsFrom Blames fun t => run t place stack steps := by
  induction steps generalizing stack with
  | nil => exact .done stack
  | cons step rest ih => exact (readsFrom_step place stack step).andThen ih

/-- An expression reads the names that it notes. -/
theorem readsFrom_evaluate (place : Place) (text : Bytes) :
    Traced.ReadsFrom Blames fun t => evaluate t place text := by
  refine (readsFrom_run place [] (parse text).steps).andThen fun stack => ?_
  cases hproblem : (parse text).problem with
  | none => exact .done _
  | some problem =>
      refine .fail fun hblames => ?_
      have hsymbol := (serious_parse text problem hproblem).2
      unfold Blames Draft.isUndefined at hblames
      split at hblames
      · exact hsymbol _ rfl
      · simp at hblames

theorem readsFrom_absolute (place : Place) (text : Bytes) :
    Traced.ReadsFrom Blames fun t => absolute t place text := by
  refine (readsFrom_evaluate place text).andThen fun r => ?_
  split
  · exact .done _
  · exact .fail (by simp [Blames, Draft.isUndefined])

end Expression

/-! ### The operands of an equate -/

/-- What the operands of an equate come to, with the names that are read for
it. -/
def Record.equateTrace (r : Record) (table : SymbolTable) :
    Traced Diagnostic Expression.Result :=
  ((Expression.evaluate table r.place (r.statement.operands.headD [])).mapError
      (⟨r.statement.operandCursor 0, ·⟩)).andThen fun result =>
    match r.statement.operands[1]?.filter (· ≠ []) with
    | none => .done result
    | some text =>
      ((Expression.absolute table r.place text).mapError
        (⟨r.statement.operandCursor 1, ·⟩)).andThen
        fun length => .done { result with length }

/-- What an equate gives its label. -/
def Record.equateDefinition (r : Record) (result : Expression.Result) :
    Definition :=
  ⟨result.value, result.length, Draft.plainKind, r.statement.line⟩

/-- An equate that waits once more. -/
def Record.putOff (r : Record) : Record :=
  { r with body := .equate (.absolute 0) true }

namespace Layout

variable {l l' l'' u : Layout} {r : Record}
  {records records' records'' : List Record}

/-- What the operands of an equate come to, or what is wrong and where. -/
def equateValue (l : Layout) (r : Record) :
    Except Diagnostic Expression.Result :=
  (Draft.mk l r).equateValue

/-- The trace of an equate ends in its value. -/
theorem result_equateTrace (l : Layout) (r : Record) :
    (r.equateTrace l.symbols).result = l.equateValue r := by
  simp only [Record.equateTrace, equateValue, Draft.equateValue,
    Draft.statement, Traced.andThen, Traced.mapError]
  cases (Expression.evaluate l.symbols r.place
    (r.statement.operands.headD [])).result with
  | error problem => rfl
  | ok result =>
      simp only
      cases r.statement.operands[1]?.filter (· ≠ []) with
      | none => rfl
      | some text =>
          simp only
          cases (Expression.absolute l.symbols r.place text).result with
          | error problem => rfl
          | ok length => rfl

/-- An equate reads the names of its two expressions. -/
theorem readsFrom_equateTrace (r : Record) :
    Traced.ReadsFrom (fun e : Diagnostic => Draft.isUndefined e.problem = true)
      r.equateTrace := by
  have hlocated :
      ∀ {α : Type} {F : SymbolTable → Traced Problem α} (cursor : Cursor),
      Traced.ReadsFrom Expression.Blames F →
      Traced.ReadsFrom (fun e : Diagnostic => Draft.isUndefined e.problem =
        true) fun t =>
        (F t).mapError (⟨cursor, ·⟩) :=
          fun cursor hF => hF.mapError fun _ => Iff.rfl
  refine (hlocated _ (Expression.readsFrom_evaluate _ _)).andThen
    fun result => ?_
  split
  · exact .done _
  · exact (hlocated _ (Expression.readsFrom_absolute _ _)).andThen
      fun length => .done _

/-- Whatever one layout defines means the same in another. -/
def KnownIn (l l' : Layout) : Prop :=
  ∀ name d, l.symbols.definition? name = some d →
    l'.symbols.definition? name = some d

/-- What is known of a layout is known of one that knows more. -/
theorem KnownIn.trans (h : l.KnownIn l') (h' : l'.KnownIn l'') :
    l.KnownIn l'' :=
  fun name d hd => h' name d (h name d hd)

/-- **An equate fails for want of a symbol** if its operands read one that is
not defined. -/
theorem isUndefined_equateValue (l : Layout) (r : Record) :
    (∃ e, l.equateValue r = .error e ∧ Draft.isUndefined e.problem = true) ↔
      ∃ name ∈ (r.equateTrace l.symbols).names,
      l.symbols.definition? name = none := by
  rw [(readsFrom_equateTrace r).undefined, result_equateTrace]

/-- **What an equate comes to stays the same while names are added**, unless it
wants a symbol. -/
theorem KnownIn.equateValue (h : l.KnownIn l')
    (hr : ∀ e, l.equateValue r = .error e →
      Draft.isUndefined e.problem = false) :
    l'.equateValue r = l.equateValue r := by
  rw [← result_equateTrace, ← result_equateTrace]
  congr 1
  apply (readsFrom_equateTrace r).steady
  intro name hname
  cases hd : l.symbols.definition? name with
  | some d => exact ⟨d, rfl, h name d hd⟩
  | none =>
      obtain ⟨e, he, hblames⟩ :=
        (isUndefined_equateValue l r).mpr ⟨name, hname, hd⟩
      rw [hr e he] at hblames
      simp at hblames

/-- A value that is known stays the same where more is known. -/
theorem KnownIn.equateValue_ok (h : l.KnownIn l') {result : Expression.Result}
    (hr : l.equateValue r = .ok result) : l'.equateValue r = .ok result :=
  (h.equateValue (by simp [hr])).trans hr

/-- So does a failure, unless a symbol was missing. -/
theorem KnownIn.equateValue_error (h : l.KnownIn l')
    {e : Diagnostic} (hr : l.equateValue r = .error e)
    (he : Draft.isUndefined e.problem = false) :
    l'.equateValue r = .error e := by
  refine (h.equateValue fun other hother => ?_).trans hr
  rwa [← Except.error.inj (hr.symm.trans hother)]

/-- Only the definitions count. -/
theorem equateValue_congr
    (h : ∀ name, l'.symbols.definition? name = l.symbols.definition? name)
    (r : Record) : l'.equateValue r = l.equateValue r := by
  simp only [equateValue, Draft.equateValue, Draft.statement,
    Expression.absolute, Expression.evaluate_congr h]

/-- An equate has the same value when it is put off. -/
theorem equateValue_putOff (hr : isWaiting r = true) (l : Layout) :
    l.equateValue r.putOff = l.equateValue r := by
  have hplace : r.putOff.place = r.place := by
    unfold isWaiting at hr
    split at hr
    · simp [Record.place, Record.putOff, Record.instruction?, *]
    · simp at hr
  simp only [equateValue, Draft.equateValue, Draft.statement, hplace]
  rfl

/-! ### What a table makes of an equate -/

/-- What is decided about a record in the light of a layout. -/
def decide (l : Layout) (r : Record) : Record :=
  if isWaiting r then
    match l.equateValue r with
    | .ok result => { r with body := .equate result.value false }
    | .error e => { r with
        body := .equate (.absolute 0) false
        errored := r.errored || e.problem.severity.isError }
  else r

/-- What is wrong with a record in the light of a layout. -/
def fault? (l : Layout) (r : Record) : Option Diagnostic :=
  if isWaiting r then
    match l.equateValue r with
    | .ok _ => none
    | .error e => some e
  else none

/-- Every equate that comes to something is the definition of its label. -/
def Solves (l : Layout) (records : List Record) : Prop :=
  ∀ r ∈ records, isWaiting r = true → ∀ result, l.equateValue r = .ok result →
    l.symbols.definition? r.label = some (r.equateDefinition result)

@[simp] theorem isWaiting_putOff (r : Record) : isWaiting r.putOff = true := rfl

/-- An equate with a value no longer waits. -/
theorem decide_ok {result : Expression.Result}
    (hr : isWaiting r = true) (h : l.equateValue r = .ok result) :
    l.decide r = { r with body := .equate result.value false } := by
  rw [decide, if_pos hr, h]

/-- An equate without a value becomes zero, and its record is marked. -/
theorem decide_error {e : Diagnostic} (hr : isWaiting r = true)
    (h : l.equateValue r = .error e) :
    l.decide r = { r with
      body := .equate (.absolute 0) false
      errored := r.errored || e.problem.severity.isError } := by
  rw [decide, if_pos hr, h]

/-- Nothing is decided about a record that does not wait. -/
theorem decide_of_not (hr : isWaiting r = false) : l.decide r = r := by
  rw [decide, if_neg (by simp [hr])]

theorem fault?_ok {result : Expression.Result}
    (h : l.equateValue r = .ok result) : l.fault? r = none := by
  rw [fault?, h, ite_self]

/-- A failure is the fault. -/
theorem fault?_error {e : Diagnostic} (hr : isWaiting r = true)
    (h : l.equateValue r = .error e) :
    l.fault? r = some e := by
  rw [fault?, if_pos hr, h]

theorem fault?_of_not (hr : isWaiting r = false) : l.fault? r = none := by
  rw [fault?, if_neg (by simp [hr])]

/-- Whatever is decided no longer waits. -/
@[simp] theorem isWaiting_decide (l : Layout) (r : Record) :
    isWaiting (l.decide r) = false := by
  cases hr : isWaiting r with
  | false => rw [decide_of_not hr, hr]
  | true =>
      cases h : l.equateValue r with
      | ok result => rw [decide_ok hr h, isWaiting]
      | error e => rw [decide_error hr h, isWaiting]

/-- Putting an equate off decides nothing. -/
theorem decide_putOff (hr : isWaiting r = true) (l : Layout) :
    l.decide r.putOff = l.decide r := by
  have hvalue := equateValue_putOff hr l
  cases h : l.equateValue r with
  | ok result =>
      rw [decide_ok hr h, decide_ok rfl (hvalue.trans h), Record.putOff]
  | error e =>
      rw [decide_error hr h, decide_error rfl (hvalue.trans h), Record.putOff]

theorem fault?_putOff (hr : isWaiting r = true) (l : Layout) :
    l.fault? r.putOff = l.fault? r := by
  rw [fault?, fault?, if_pos hr, if_pos (isWaiting_putOff r),
    equateValue_putOff hr]

/-! ### Steps of settling -/

/-- Trying an equate defines its label, reports what is wrong, or puts it
off. -/
theorem settle_cases (hr : isWaiting r = true)
    (hnew : l.symbols.definition? r.label = none) (last : Bool) :
    (∃ result t, l.equateValue r = .ok result ∧
      l.symbols.define r.label (r.equateDefinition result) = .ok t ∧
      (Draft.mk l r).settle last = ⟨{ l with symbols := t }, l.decide r⟩) ∨
    (∃ e, l.equateValue r = .error e ∧
      (Draft.isUndefined e.problem = false ∨ last = true) ∧
      (Draft.mk l r).settle last = ⟨l.report e, l.decide r⟩) ∨
    ∃ e, l.equateValue r = .error e ∧ Draft.isUndefined e.problem = true ∧
      last = false ∧
      (Draft.mk l r).settle last = ⟨l, r.putOff⟩ := by
  unfold Draft.settle
  cases h : l.equateValue r with
  | ok result =>
      rw [equateValue] at h
      obtain ⟨t, ht⟩ : ∃ t,
          l.symbols.define r.label (r.equateDefinition result) = .ok t := by
        simp [SymbolTable.define, hnew]
      refine Or.inl ⟨result, t, rfl, ht, ?_⟩
      simp only [h, Draft.withBody, Draft.define, Draft.statement]
      have hdefine : l.symbols.define r.label
          ⟨result.value, result.length, Draft.plainKind, r.statement.line⟩ =
            .ok t := ht
      rw [hdefine, decide_ok hr h]
      rfl
  | error e =>
      rw [equateValue] at h
      simp only [h]
      by_cases hwaits : Draft.isUndefined e.problem = true ∧ last = false
      · refine Or.inr (Or.inr ⟨e, rfl, hwaits.1, hwaits.2, ?_⟩)
        rw [if_pos (by simp [hwaits])]
        rfl
      · have hdone : Draft.isUndefined e.problem = false ∨ last = true := by
          cases hu : Draft.isUndefined e.problem with
          | false => exact Or.inl rfl
          | true => exact Or.inr (by simpa [hu] using hwaits)
        refine Or.inr (Or.inl ⟨e, rfl, hdone, ?_⟩)
        rw [if_neg (by rcases hdone with hu | hl <;> simp [*]),
          decide_error hr h]
        rfl

/-- What settling adds to the definitions: the labels of equates that come to
something, as far as every layout has them in which the equates are solved. -/
structure Reaches (l : Layout) (records : List Record)
    (l' : Layout) : Prop where
  known : l.KnownIn l'
  origin : ∀ name d,
    l'.symbols.definition? name = some d → l.symbols.definition? name = some d ∨
    ∃ r ∈ records, isWaiting r = true ∧ r.label = name ∧ ∃ result,
    l'.equateValue r = .ok result
  least : ∀ u : Layout, l.KnownIn u → u.Solves records → l'.KnownIn u

/-- Nothing is added. -/
theorem Reaches.same (h : l'.symbols = l.symbols) (records : List Record) :
    l.Reaches records l' := by
  refine ⟨fun _ _ hd => h ▸ hd, fun _ _ hd => Or.inl (h ▸ hd), fun _ hu _ => ?_⟩
  intro name d hd
  exact hu name d (h ▸ hd)

/-- What settling makes of some records and their layout: whatever is decided is
decided as in any layout that knows as much. -/
structure Advances (l : Layout) (records : List Record) (l' : Layout)
    (records' : List Record) : Prop
    extends Reaches l records l' where
  waiting : (records'.filter isWaiting).Sublist
    ((records.filter isWaiting).map Record.putOff)
  undefined : ∀ r ∈ records', isWaiting r = true →
    l'.symbols.definition? r.label = none
  decided : ∀ u, l'.KnownIn u → records'.map u.decide = records.map u.decide
  solved : ∀ u, l'.KnownIn u → u.Solves records' → u.Solves records
  faults : ∃ ds, l'.diagnostics = l.diagnostics ++ ds ∧
    ∀ u, l'.KnownIn u →
      (records.filterMap u.fault?).Perm (ds ++ records'.filterMap u.fault?)

/-- An equate that still waits was put off. -/
theorem Advances.exists_putOff (h : Advances l records l' records')
    {r' : Record} (hr' : r' ∈ records') (hwaiting : isWaiting r' = true) :
    ∃ r ∈ records, isWaiting r = true ∧ r' = r.putOff := by
  have hmem := h.waiting.subset (List.mem_filter.mpr ⟨hr', hwaiting⟩)
  obtain ⟨r, hr, rfl⟩ := List.mem_map.mp hmem
  obtain ⟨hr, hwaits⟩ := List.mem_filter.mp hr
  exact ⟨r, hr, hwaits, rfl⟩

/-- What solved the equates before solves those that are left. -/
theorem Advances.solves (h : Advances l records l' records')
    (hu : u.Solves records) :
    u.Solves records' := by
  intro r' hr' hwaiting result hresult
  obtain ⟨r, hr, hwaits, rfl⟩ := h.exists_putOff hr' hwaiting
  exact hu r hr hwaits result ((equateValue_putOff hwaits u).symm.trans hresult)

/-- Names are added in one go after another. -/
theorem Advances.reaches (h : Advances l records l' records')
    (h' : Reaches l' records' l'') :
    Reaches l records l'' := by
  refine ⟨h.known.trans h'.known, fun name d hd => ?_,
    fun u hu hsolves => h'.least u (h.least u hu hsolves) (h.solves hsolves)⟩
  rcases h'.origin name d hd with
    hd | ⟨r', hr', hwaiting, hlabel, result, hresult⟩
  · rcases h.origin name d hd with hd | ⟨r, hr, hwaits, hlabel, result, hresult⟩
    · exact Or.inl hd
    · exact Or.inr ⟨r, hr, hwaits, hlabel, result,
        h'.known.equateValue_ok hresult⟩
  · obtain ⟨r, hr, hwaits, rfl⟩ := h.exists_putOff hr' hwaiting
    rw [equateValue_putOff hwaits] at hresult
    exact Or.inr ⟨r, hr, hwaits, hlabel, result, hresult⟩

/-- Records with different labels are settled one after the other. -/
theorem Advances.append {others others' : List Record}
    (h : Advances l records l' records') (h' : Advances l' others l'' others')
    (hlabels : ∀ r ∈ records, isWaiting r = true → ∀ r' ∈ others,
      isWaiting r' = true → r.label ≠ r'.label) :
    Advances l (records ++ others) l'' (records' ++ others') := by
  refine ⟨⟨h.known.trans h'.known, fun name d hd => ?_, fun u hu hsolves => ?_⟩,
    ?_, fun r hr hwaiting => ?_, fun u hu => ?_, fun u hu hsolves => ?_, ?_⟩
  · rcases h'.origin name d hd with hd | ⟨r, hr, hfound⟩
    · rcases h.origin name d hd with
        hd | ⟨r, hr, hwaits, hlabel, result, hresult⟩
      · exact Or.inl hd
      · exact Or.inr ⟨r, List.mem_append_left _ hr, hwaits, hlabel, result,
          h'.known.equateValue_ok hresult⟩
    · exact Or.inr ⟨r, List.mem_append_right _ hr, hfound⟩
  · have hfirst :=
      h.least u hu fun r hr => hsolves r (List.mem_append_left _ hr)
    exact h'.least u hfirst fun r hr => hsolves r (List.mem_append_right _ hr)
  · rw [List.filter_append, List.filter_append, List.map_append]
    exact h.waiting.append h'.waiting
  · rcases List.mem_append.mp hr with hr | hr
    · rw [Option.eq_none_iff_forall_ne_some]
      intro d hd
      rcases h'.origin r.label d hd with hd | ⟨other, hother, hwaits, hlabel, -⟩
      · simp [h.undefined r hr hwaiting] at hd
      · obtain ⟨first, hfirst, hwaits', rfl⟩ := h.exists_putOff hr hwaiting
        exact hlabels first hfirst hwaits' other hother hwaits hlabel.symm
    · exact h'.undefined r hr hwaiting
  · rw [List.map_append, List.map_append, h.decided u (h'.known.trans hu),
      h'.decided u hu]
  · have hfirst := h.solved u (h'.known.trans hu) fun r hr =>
      hsolves r (List.mem_append_left _ hr)
    have hsecond :=
      h'.solved u hu fun r hr => hsolves r (List.mem_append_right _ hr)
    intro r hr
    exact (List.mem_append.mp hr).elim (hfirst r) (hsecond r)
  · obtain ⟨ds, hds, hperm⟩ := h.faults
    obtain ⟨ds', hds', hperm'⟩ := h'.faults
    refine ⟨ds ++ ds', by rw [hds', hds, List.append_assoc], fun u hu => ?_⟩
    rw [List.filterMap_append, List.filterMap_append]
    refine ((hperm u (h'.known.trans hu)).append (hperm' u hu)).trans ?_
    simp only [List.append_assoc]
    refine List.Perm.append_left ds ?_
    rw [← List.append_assoc, ← List.append_assoc]
    exact List.perm_append_comm.append_right _

/-- A record that does not wait is left alone. -/
theorem advances_of_not (hr : isWaiting r = false) : Advances l [r] l [r] := by
  exact ⟨Reaches.same rfl _, by simp [hr], by simp [hr], fun _ _ => rfl,
    fun _ _ hsolves => hsolves, [], by simp, by simp⟩

/-- **Trying an equate.** -/
theorem advances_settle (hr : isWaiting r = true)
    (hnew : l.symbols.definition? r.label = none) :
    Advances l [r] ((Draft.mk l r).settle false).layout
      [((Draft.mk l r).settle false).record] := by
  rcases settle_cases hr hnew false with
    ⟨result, t, hresult, ht, heq⟩ | ⟨e, he, hfinal, heq⟩ |
    ⟨e, he, hundefined, -, heq⟩
  · have hdefined := fun other => (SymbolTable.definition?_define ht other).2
    rw [heq]
    have hknown : l.KnownIn { l with symbols := t } := by
      intro name d hd
      refine (hdefined name).trans ?_
      rw [if_neg, hd]
      rintro rfl
      simp [hnew] at hd
    refine ⟨⟨hknown, fun name d hd => ?_,
      fun u hu hsolves name d hd => ?_⟩, by simp, by simp,
      fun u hu => ?_, fun u hu _ r' hr' _ result' hresult' => ?_, [], by simp,
      fun u hu => ?_⟩
    · by_cases hname : name = r.label
      · exact Or.inr ⟨r, by simp, hr, hname.symm, result,
          hknown.equateValue_ok hresult⟩
      · rw [hdefined, if_neg hname] at hd
        exact Or.inl hd
    · rw [hdefined] at hd
      by_cases hname : name = r.label
      · rw [if_pos hname] at hd
        rw [hname, ← Option.some.inj hd]
        exact hsolves r (by simp) hr result (hu.equateValue_ok hresult)
      · rw [if_neg hname] at hd
        exact hu name d hd
    · have hu' := (hknown.trans hu).equateValue_ok hresult
      simp only [List.map_cons, List.map_nil]
      rw [decide_of_not (isWaiting_decide l r), decide_ok hr hresult,
        decide_ok hr hu']
    · obtain rfl := List.mem_singleton.mp hr'
      have hu' := (hknown.trans hu).equateValue_ok hresult
      obtain rfl := Except.ok.inj (hu'.symm.trans hresult')
      refine hu r'.label _ ?_
      rw [hdefined, if_pos rfl]
    · have hu' := (hknown.trans hu).equateValue_ok hresult
      simp [fault?_ok hu', fault?_of_not (isWaiting_decide l r)]
  · have hfinal : Draft.isUndefined e.problem = false := by simpa using hfinal
    rw [heq]
    refine ⟨Reaches.same (by rfl) _, by simp, by simp, fun u hu => ?_,
      fun u hu _ r' hr' _ result' hresult' => ?_, [e], rfl, fun u hu => ?_⟩
    · have hu' := KnownIn.equateValue_error hu he hfinal
      simp only [List.map_cons, List.map_nil]
      rw [decide_of_not (isWaiting_decide l r), decide_error hr he,
        decide_error hr hu']
    · obtain rfl := List.mem_singleton.mp hr'
      have hu' := KnownIn.equateValue_error hu he hfinal
      simp [hu'] at hresult'
    · have hu' := KnownIn.equateValue_error hu he hfinal
      simp [fault?_error hr hu', fault?_of_not (isWaiting_decide l r)]
  · rw [heq]
    refine ⟨Reaches.same rfl _, by simp [hr], fun r' hr' _ => ?_,
      fun u _ => by simp [decide_putOff hr],
      fun u _ hsolves r' hr' _ result' hresult' => ?_, [], by simp,
      fun u _ => ?_⟩
    · rw [List.mem_singleton.mp hr']
      exact hnew
    · obtain rfl := List.mem_singleton.mp hr'
      exact hsolves r'.putOff (by simp) rfl result'
        ((equateValue_putOff hr u).trans hresult')
    · simp only [List.filterMap_cons, fault?_putOff hr]
      exact List.Perm.refl _

/-! ### Rounds -/

/-- No two equates that wait have the same label, and none of the labels is
defined. -/
structure Unsettled (l : Layout) (records : List Record) : Prop where
  labels : ((records.filter isWaiting).map (·.label)).Nodup
  undefined : ∀ r ∈ records, isWaiting r = true →
    l.symbols.definition? r.label = none

theorem Unsettled.tail (h : l.Unsettled (r :: records)) :
    l.Unsettled records := by
  refine ⟨?_, fun r' hr' => h.undefined r' (List.mem_cons_of_mem _ hr')⟩
  exact h.labels.sublist (((List.sublist_cons_self r records).filter _).map _)

/-- The label of an equate that waits is on none of the others. -/
theorem Unsettled.label_ne (h : l.Unsettled (r :: records))
    (hr : isWaiting r = true) :
    ∀ r' ∈ records, isWaiting r' = true → r.label ≠ r'.label := by
  have hlabels := h.labels
  rw [List.filter_cons_of_pos hr, List.map_cons, List.nodup_cons] at hlabels
  intro r' hr' hwaiting heq
  exact hlabels.1
    (List.mem_map.mpr ⟨r', List.mem_filter.mpr ⟨hr', hwaiting⟩, heq.symm⟩)

/-- Equates that wait are told apart by their labels. -/
theorem Unsettled.eq_of_label (h : l.Unsettled records) {r r' : Record}
    (hr : r ∈ records) (hwaits : isWaiting r = true) (hr' : r' ∈ records)
    (hwaits' : isWaiting r' = true) (hlabel : r.label = r'.label) : r = r' :=
  List.inj_on_of_nodup_map h.labels (List.mem_filter.mpr ⟨hr, hwaits⟩)
    (List.mem_filter.mpr ⟨hr', hwaits'⟩) hlabel

/-- What is left to settle is unsettled as it was. -/
theorem Advances.unsettled (h : Advances l records l' records')
    (hunsettled : l.Unsettled records) :
    l'.Unsettled records' := by
  refine ⟨?_, h.undefined⟩
  have hlabels := h.waiting.map (·.label)
  rw [List.map_map] at hlabels
  exact hunsettled.labels.sublist hlabels

/-- **A round of settling equates.** -/
theorem advances_settleRound (h : l.Unsettled records) :
    Advances l records (settleRound false l records).1
      (settleRound false l records).2 := by
  induction records generalizing l with
  | nil =>
      exact ⟨Reaches.same rfl _, by simp [settleRound], by simp [settleRound],
        fun _ _ => rfl, fun _ _ hsolves => hsolves,
        [], by simp [settleRound], by simp [settleRound]⟩
  | cons r rest ih =>
      have hne := fun hr => h.label_ne hr
      simp only [settleRound]
      by_cases hr : isWaiting r = true
      · rw [if_pos hr]
        have hfirst := advances_settle hr (h.undefined r List.mem_cons_self hr)
        generalize (Draft.mk l r).settle false = d at *
        have hrest : d.layout.Unsettled rest := by
          refine ⟨h.tail.labels, fun r' hr' hwaits => ?_⟩
          rw [Option.eq_none_iff_forall_ne_some]
          intro x hx
          rcases hfirst.origin r'.label x hx with
            hold | ⟨other, hother, -, hlabel, -⟩
          · simp [h.undefined r' (List.mem_cons_of_mem _ hr') hwaits] at hold
          · rw [List.mem_singleton.mp hother] at hlabel
            exact hne hr r' hr' hwaits hlabel
        refine hfirst.append (ih hrest) fun r' hr' _ => ?_
        rw [List.mem_singleton.mp hr']
        exact hne hr
      · have hnot : isWaiting r = false := by simpa using hr
        rw [if_neg hr]
        refine (advances_of_not hnot).append (ih h.tail) fun r' hr' hwaits => ?_
        rw [List.mem_singleton.mp hr'] at hwaits
        exact absurd hwaits hr

/-- **A round that settles nothing** changes nothing, and what waits wants
symbols. -/
theorem settleRound_idle (h : l.Unsettled records)
    (hidle : (settleRound false l records).2.countP isWaiting =
      records.countP isWaiting) :
    (settleRound false l records).1 = l ∧ ∀ r ∈ (settleRound false l records).2,
    isWaiting r = true →
      ∃ e, l.equateValue r = .error e := by
  induction records with
  | nil => simp [settleRound]
  | cons r rest ih =>
      simp only [settleRound] at hidle ⊢
      by_cases hr : isWaiting r = true
      · rw [if_pos hr] at hidle ⊢
        have hle :=
          countP_settleRound_le false ((Draft.mk l r).settle false).layout rest
        -- an equate that is settled would be missing in the count
        have hcount : ∀ d : Draft, isWaiting d.record = false →
            (d.record :: (settleRound false ((Draft.mk l r).settle false).layout
              rest).2).countP isWaiting ≠
              (r :: rest).countP isWaiting := by
          intro d hd
          rw [List.countP_cons_of_neg (by simp [hd]),
            List.countP_cons_of_pos hr]
          omega
        rcases settle_cases hr (h.undefined r List.mem_cons_self hr) false with
          ⟨_, _, -, -, heq⟩ | ⟨_, -, -, heq⟩ | ⟨e, he, -, -, heq⟩
        · exact absurd hidle
            (hcount _ (by rw [heq]; exact isWaiting_decide l r))
        · exact absurd hidle
            (hcount _ (by rw [heq]; exact isWaiting_decide l r))
        · rw [heq] at hidle ⊢
          rw [List.countP_cons_of_pos (isWaiting_putOff r),
            List.countP_cons_of_pos hr] at hidle
          obtain ⟨hsame, hrest⟩ := ih h.tail (Nat.succ_inj.mp hidle)
          refine ⟨hsame, List.forall_mem_cons.mpr ⟨fun _ => ⟨e, ?_⟩, hrest⟩⟩
          exact (equateValue_putOff hr l).trans he
      · rw [if_neg hr] at hidle ⊢
        simp only at hidle ⊢
        rw [List.countP_cons_of_neg hr, List.countP_cons_of_neg hr] at hidle
        obtain ⟨hsame, hrest⟩ := ih h.tail hidle
        exact ⟨hsame,
          List.forall_mem_cons.mpr ⟨fun hwaits => absurd hwaits hr, hrest⟩⟩

/-- **The last round** reports the equates that come to nothing. -/
theorem settleRound_last
    (h : ∀ r ∈ records, isWaiting r = true → ∃ e, l.equateValue r = .error e) :
    settleRound true l records =
      ({ l with diagnostics := l.diagnostics ++ records.filterMap l.fault? },
        records.map l.decide) := by
  induction records generalizing l with
  | nil => simp [settleRound]
  | cons r rest ih =>
      obtain ⟨hfirst, hrest⟩ := List.forall_mem_cons.mp h
      simp only [settleRound]
      by_cases hr : isWaiting r = true
      · obtain ⟨e, he⟩ := hfirst hr
        have hsettle : (Draft.mk l r).settle true =
            ⟨l.report e, l.decide r⟩ := by
          rw [decide_error hr he]
          rw [equateValue] at he
          simp only [Draft.settle, he, Bool.not_true, Bool.and_false]
          rfl
        have hsame : ∀ r, (l.report e).equateValue r = l.equateValue r :=
          fun _ => rfl
        have hdecide : (l.report e).decide = l.decide := rfl
        have hfault : (l.report e).fault? = l.fault? := rfl
        rw [if_pos hr, hsettle,
          ih (l := l.report e) fun r' hr' hwaits => hrest r' hr' hwaits,
          hdecide, hfault, List.filterMap_cons_some (fault?_error hr he)]
        simp [report]
      · have hnot : isWaiting r = false := by simpa using hr
        rw [if_neg hr, ih hrest, List.filterMap_cons_none (fault?_of_not hnot),
          List.map_cons, decide_of_not hnot]

/-! ### All rounds -/

/-- What settling equates comes to: everything is decided in the light of the
last layout. -/
structure Settled (l : Layout) (records : List Record)
    (out : Layout × List Record) : Prop
    extends Reaches l records out.1 where
  solved : out.1.Solves records
  decided : out.2 = records.map out.1.decide
  faults : ∃ ds, out.1.diagnostics = l.diagnostics ++ ds ∧
    ds.Perm (records.filterMap out.1.fault?)

/-- Settling goes on after a round. -/
theorem Advances.settled {out : Layout × List Record}
    (h : Advances l records l' records') (h' : Settled l' records' out) :
    Settled l records out := by
  have hknown := h'.known
  refine ⟨h.reaches h'.toReaches, h.solved _ hknown h'.solved,
    h'.decided.trans (h.decided _ hknown), ?_⟩
  obtain ⟨ds, hds, hperm⟩ := h.faults
  obtain ⟨ds', hds', hperm'⟩ := h'.faults
  refine ⟨ds ++ ds', by rw [hds', hds, List.append_assoc], ?_⟩
  exact (hperm'.append_left ds).trans (hperm _ hknown).symm

/-- Nothing is left to settle. -/
theorem settled_of_none (h : ∀ r ∈ records, isWaiting r = false) :
    Settled l records (l, records) := by
  refine ⟨Reaches.same rfl _, fun r hr hwaits => ?_, ?_, [], by simp, ?_⟩
  · simp [h r hr] at hwaits
  · exact ((List.map_congr_left fun r hr => decide_of_not (h r hr)).trans
      (List.map_id _)).symm
  · rw [List.filterMap_eq_nil_iff.mpr fun r hr => fault?_of_not (h r hr)]

/-- The round that settles nothing is the last but one. -/
theorem settled_last
    (h : ∀ r ∈ records, isWaiting r = true → ∃ e, l.equateValue r = .error e) :
    Settled l records (settleRound true l records) := by
  rw [settleRound_last h]
  refine ⟨Reaches.same (by rfl) _, fun r hr hwaits result hresult => ?_, rfl, _,
    rfl, List.Perm.refl _⟩
  obtain ⟨e, he⟩ := h r hr hwaits
  have hsame : l.equateValue r = .ok result := hresult
  simp [he] at hsame

/-- With a round for each equate that waits and one more, nothing is left to
settle. -/
theorem settled_settleAll {fuel : Nat}
    (h : l.Unsettled records) (hfuel : records.countP isWaiting < fuel) :
    Settled l records (settleAll fuel l records) := by
  induction fuel generalizing l records with
  | zero => omega
  | succ fuel ih =>
      have hround := advances_settleRound h
      have hle := countP_settleRound_le false l records
      unfold settleAll
      simp only
      split
      · rename_i hzero
        refine settled_of_none fun r hr => ?_
        simpa using List.countP_eq_zero.mp hzero r hr
      · split
        · rename_i hidle
          obtain ⟨hsame, herrors⟩ := settleRound_idle h hidle
          refine hround.settled (settled_last ?_)
          rwa [hsame]
        · exact hround.settled (ih (hround.unsettled h) (by omega))

/-! ### The least solution -/

/-- The least solution of equates that wait. -/
structure LeastSolution (l : Layout) (records : List Record)
    (out : Layout × List Record) : Prop where
  /-- Nothing waits any more. -/
  finished : ∀ r ∈ out.2, isWaiting r = false
  /-- Every equate is decided in the light of the last layout, and no other
  record changes. -/
  decided : out.2 = records.map out.1.decide
  /-- A label has the value and the length that its operands come to in the end,
  or it is not defined. -/
  labels : ∀ r ∈ records, isWaiting r = true →
    out.1.symbols.definition? r.label = match out.1.equateValue r with
    | .ok result => some (r.equateDefinition result)
    | .error _ => none
  others : ∀ name, (∀ r ∈ records, isWaiting r = true → r.label ≠ name) →
    out.1.symbols.definition? name = l.symbols.definition? name
  /-- An equate that comes to nothing is reported once, with what is wrong in
  the end. -/
  reported : ∃ ds, out.1.diagnostics = l.diagnostics ++ ds ∧
    ds.Perm (records.filterMap out.1.fault?)
  /-- It lacks a symbol if its operands read one that is still not defined. -/
  undefined : ∀ r ∈ records, isWaiting r = true →
    ((∃ e, out.1.fault? r = some e ∧ Draft.isUndefined e.problem = true) ↔
      ∃ name ∈ (r.equateTrace out.1.symbols).names,
      out.1.symbols.definition? name = none)
  /-- Whatever solves the equates has all these definitions. -/
  least : ∀ u : Layout, l.KnownIn u → u.Solves records → out.1.KnownIn u

/-- What is settled is the least solution. -/
theorem Settled.leastSolution {out : Layout × List Record}
    (h : Settled l records out) (hunsettled : l.Unsettled records) :
    LeastSolution l records out := by
  refine ⟨fun r hr => ?_, h.decided, fun r hr hwaits => ?_,
    fun name hname => ?_, h.faults, fun r hr hwaits => ?_, h.least⟩
  · rw [h.decided] at hr
    obtain ⟨r', -, rfl⟩ := List.mem_map.mp hr
    exact isWaiting_decide out.1 r'
  · cases hvalue : out.1.equateValue r with
    | ok result => exact h.solved r hr hwaits result hvalue
    | error e =>
        simp only
        rw [Option.eq_none_iff_forall_ne_some]
        intro d hd
        rcases h.origin r.label d hd with
          hold | ⟨r', hr', hwaits', hlabel, result, hresult⟩
        · simp [hunsettled.undefined r hr hwaits] at hold
        · obtain rfl := hunsettled.eq_of_label hr' hwaits' hr hwaits hlabel
          simp [hvalue] at hresult
  · cases hold : l.symbols.definition? name with
    | some d => exact h.known name d hold
    | none =>
        rw [Option.eq_none_iff_forall_ne_some]
        intro d hd
        rcases h.origin name d hd with hbefore | ⟨r, hr, hwaits, hlabel, -⟩
        · simp [hold] at hbefore
        · exact hname r hr hwaits hlabel
  · rw [← isUndefined_equateValue, fault?, if_pos hwaits]
    cases out.1.equateValue r with
    | ok result => simp
    | error e => simp

/-- Solving equates is about those that wait. -/
theorem Solves.of_perm (h : u.Solves records)
    (hperm : (records'.filter isWaiting).Perm (records.filter isWaiting)) :
    u.Solves records' := by
  intro r hr hwaits
  have hmem := hperm.mem_iff.mp (List.mem_filter.mpr ⟨hr, hwaits⟩)
  exact h r (List.mem_of_mem_filter hmem) hwaits

/-- The order of the equates that wait does not matter. -/
theorem Unsettled.of_perm (h : l.Unsettled records)
    (hperm : (records'.filter isWaiting).Perm (records.filter isWaiting)) :
    l.Unsettled records' := by
  refine ⟨((hperm.map _).nodup_iff).mpr h.labels, fun r hr hwaits => ?_⟩
  have hmem := hperm.mem_iff.mp (List.mem_filter.mpr ⟨hr, hwaits⟩)
  exact h.undefined r (List.mem_of_mem_filter hmem) hwaits

/-- Only equates that wait have faults. -/
theorem filterMap_fault? (l : Layout) (records : List Record) :
    records.filterMap l.fault? =
      (records.filter isWaiting).filterMap l.fault? := by
  rw [List.filterMap_filter]
  refine List.filterMap_congr fun r _ => ?_
  by_cases hr : isWaiting r = true
  · rw [if_pos hr]
  · rw [if_neg hr, fault?_of_not (by simpa using hr)]

/-- Layouts with the same definitions find the same faults. -/
theorem fault?_congr
    (h : ∀ name, l'.symbols.definition? name = l.symbols.definition? name) :
    l'.fault? = l.fault? := by
  funext r
  simp only [fault?, equateValue_congr h]

/-- **Settling equates finds the least solution**, in at most as many rounds as
equates wait and one more.  The order of the equates does not matter: the
definitions are the same in any, and so are the diagnostics but for their
order. -/
theorem settleAll_least {fuel : Nat}
    (h : l.Unsettled records) (hfuel : records.countP isWaiting < fuel) :
    LeastSolution l records (settleAll fuel l records) ∧
      ∀ records' fuel',
      (records'.filter isWaiting).Perm (records.filter isWaiting) →
        records'.countP isWaiting < fuel' →
        (∀ name, (settleAll fuel' l records').1.symbols.definition? name =
          (settleAll fuel l records).1.symbols.definition? name) ∧
        (settleAll fuel' l records').1.diagnostics.Perm
          (settleAll fuel l records).1.diagnostics := by
  have hsettled := settled_settleAll h hfuel
  refine ⟨hsettled.leastSolution h, fun records' fuel' hperm hfuel' => ?_⟩
  have hsettled' := settled_settleAll (h.of_perm hperm) hfuel'
  generalize settleAll fuel l records = out at *
  generalize settleAll fuel' l records' = out' at *
  have hsame : ∀ name,
      out'.1.symbols.definition? name = out.1.symbols.definition? name := by
    intro name
    have hle := hsettled.least out'.1 hsettled'.known
      (hsettled'.solved.of_perm hperm.symm)
    have hge :=
      hsettled'.least out.1 hsettled.known (hsettled.solved.of_perm hperm)
    cases hd : out.1.symbols.definition? name with
    | some d => exact hle name d hd
    | none =>
        rw [Option.eq_none_iff_forall_ne_some]
        intro d hd'
        simp [hge name d hd'] at hd
  refine ⟨hsame, ?_⟩
  obtain ⟨ds, hds, hfaults⟩ := hsettled.faults
  obtain ⟨ds', hds', hfaults'⟩ := hsettled'.faults
  rw [hds, hds']
  refine List.Perm.append_left _ ?_
  rw [filterMap_fault?] at hfaults hfaults'
  rw [fault?_congr hsame] at hfaults'
  exact (hfaults'.trans (hperm.filterMap _)).trans hfaults.symm

/-- The record of an equate that waits. -/
def waitingEquate (line : Nat) (label : String) (operands : List String) :
    Record where
  statement :=
    { line
      lines := []
      position := ⟨line, 1, 0, 0, 0⟩
      mnemonic := bytes "EQU"
      operands := operands.map bytes }
  body := .equate (.absolute 0) true
  label := bytes label

/-- A chain from the bottom up, a cycle, an error, and an equate that depends on
the error. -/
def tangle : List Record :=
  [waitingEquate 1 "A" ["B+1"], waitingEquate 2 "B" ["C", "C+2"],
    waitingEquate 3 "C" ["5"], waitingEquate 4 "D" ["E"],
    waitingEquate 5 "E" ["D"], waitingEquate 6 "F" ["(C"],
    waitingEquate 7 "G" ["C+F"]]

/-- **The chain is settled from either end**, and all others are reported. -/
theorem settleAll_least_tangle :
    ((new {}).Unsettled tangle ∧ tangle.countP isWaiting < 8) ∧
      LeastSolution (new {}) tangle (settleAll 8 (new {}) tangle) ∧
      (settleAll 8 (new {}) tangle.reverse).1.diagnostics.Perm
        (settleAll 8 (new {}) tangle).1.diagnostics ∧
      ((settleAll 8 (new {}) tangle).1.symbols.definition? (bytes "A")).map
        (fun d => (d.value, d.length)) = some (.absolute 6, 7) ∧
      (settleAll 8 (new {}) tangle).1.diagnostics.map (·.problem) =
        [.unbalancedParentheses, .undefinedSymbol (bytes "E"),
          .undefinedSymbol (bytes "D"), .undefinedSymbol (bytes "F")] := by
  have hunsettled : (new {}).Unsettled tangle :=
    ⟨by decide +kernel, by decide +kernel⟩
  have hfuel : tangle.countP isWaiting < 8 := by decide +kernel
  obtain ⟨hleast, horder⟩ := settleAll_least hunsettled hfuel
  have hreverse :
      (tangle.reverse.filter isWaiting).Perm (tangle.filter isWaiting) :=
    (List.reverse_perm tangle).filter isWaiting
  have hdiagnostics := (horder tangle.reverse 8 hreverse (by decide +kernel)).2
  exact ⟨⟨hunsettled, hfuel⟩, hleast,
    hdiagnostics, by decide +kernel, by decide +kernel⟩

end Layout

end System370
