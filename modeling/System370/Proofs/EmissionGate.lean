import Mathlib.Data.List.Forall2
import System370.Proofs.Assembling
import System370.Proofs.RecordRules

/-!
# Decks are complete

A deck is made if nothing is worse than a warning.  That is a condition on the
list of diagnostics; this file says what it means for the records.

Passing a record over needs an error mark or a fault.  A mark has its error
among the diagnostics, also one that is set while code is generated
(`Generation.blamed_run`), and behind a fault there is no assembly.  So if there
is a deck, code was generated for every record, and as much of it as the layout
left room for (`Generation.completed_run`).

* `Workspace.emission_gate`: when there is a deck, and what its records are like
  then.
-/

namespace System370

/-! ### What is laid out for constants and fillings -/

namespace Draft

variable {d : Draft}

/-- A definition leaves the body of the record alone. -/
theorem body_define (d : Draft) (name : Bytes) (definition : Definition) :
    (d.define name definition).record.body = d.record.body := by
  unfold define
  split <;> rfl

theorem body_defineLabel (d : Draft) (loc length : Int64) (kind : UInt8) :
    (d.defineLabel loc length kind).record.body = d.record.body := by
  unfold defineLabel
  split
  · rfl
  · exact body_define d _ _

/-- External names leave the body of the record alone. -/
theorem body_registerExternals (d : Draft) (cursor : Cursor)
    (names : List Bytes) :
    (d.registerExternals cursor names).2.record.body = d.record.body := by
  induction names generalizing d with
  | nil => rfl
  | cons nominal rest ih =>
      unfold registerExternals
      simp only
      split
      · exact ih _
      · rfl

theorem body_checkValues (d : Draft) (descriptor : Constant.Descriptor)
    (cursor : Cursor) :
    (d.checkValues descriptor cursor).2.record.body = d.record.body := by
  unfold checkValues
  split
  · exact body_registerExternals d _ _
  · split
    · rfl
    · split <;> rfl

/-- The check of a constant leaves the body of the record alone. -/
theorem body_acceptData (d : Draft) (descriptor : Constant.Descriptor)
    (cursor : Cursor) :
    (d.acceptData descriptor cursor).2.record.body = d.record.body := by
  unfold acceptData
  split
  · rfl
  · exact body_checkValues d _ _

/-- Whether the record stands for constants. -/
def IsStorage (d : Draft) : Prop := ∃ parts, d.record.body = .storage parts

/-- An operand of a storage statement keeps its record one of storage. -/
theorem isStorage_layOutConstant (isData : Bool) {state : Draft × Int64}
    (h : state.1.IsStorage) (operand : Nat × Bytes) :
    (layOutConstant isData state operand).1.IsStorage := by
  obtain ⟨d, loc⟩ := state
  unfold layOutConstant
  simp only
  split
  · exact h
  · rename_i descriptor _
    cases isData with
    | false =>
        rw [if_neg Bool.false_ne_true, if_pos rfl]
        exact ⟨_, rfl⟩
    | true =>
        rw [if_pos rfl]
        split
        · exact ⟨_, rfl⟩
        · obtain ⟨parts, hparts⟩ := h
          exact ⟨parts, (body_acceptData _ _ _).trans hparts⟩

/-- A storage statement stands for constants. -/
theorem isStorage_layOutStorage (d : Draft) (isData : Bool) :
    (d.layOutStorage isData).IsStorage := by
  have hfold : ∀ (operands : List (Nat × Bytes)) (state : Draft × Int64),
      state.1.IsStorage →
      (operands.foldl (layOutConstant isData) state).1.IsStorage := by
    intro operands
    induction operands with
    | nil => exact fun _ h => h
    | cons operand rest ih =>
        exact fun state h => ih _ (isStorage_layOutConstant isData h operand)
  unfold layOutStorage
  simp only
  split
  · exact ⟨[], body_defineLabel _ _ _ _⟩
  · obtain ⟨parts, hparts⟩ :=
      hfold (d.ensureSection.withBody (.storage [])).statement.numbered
        (d.ensureSection.withBody (.storage []),
          (d.ensureSection.withBody (.storage [])).loc) ⟨[], rfl⟩
    split
    · exact ⟨parts, (body_defineLabel _ _ _ _).trans hparts⟩
    · exact ⟨parts, hparts⟩

theorem body_absolutePair (d : Draft) (a b : Bytes) :
    (d.absolutePair a b).2.record.body = d.record.body := by
  unfold absolutePair
  simp only
  split
  · rfl
  · split <;> rfl

/-- A conditional no-operation stands for a location. -/
theorem body_layOutAlignment (d : Draft) :
    d.layOutAlignment.record.body = .located := by
  unfold layOutAlignment
  simp only
  split
  · have hpair :=
      fun a b => body_absolutePair (d.ensureSection.withBody .located) a b
    split
    · exact hpair _ _
    · split
      · exact hpair _ _
      · split
        · exact hpair _ _
        · exact (body_defineLabel _ _ _ _).trans (hpair _ _)
  · split <;> rfl

end Draft

/-- The record of a constant or of a conditional no-operation stands for what
code is generated from, unless it has an error. -/
def Record.Formed (r : Record) : Prop :=
  r.errored = false →
    (r.directive = some .dc → ∃ parts, r.body = .storage parts) ∧
    (r.directive = some .cnop → r.body = .located)

/-- Only `DC` and `CNOP` have bodies of their own form. -/
theorem Record.formed_of_directive {r : Record} (hdc : r.directive ≠ some .dc)
    (hcnop : r.directive ≠ some .cnop) : r.Formed :=
  fun _ => ⟨fun h => absurd h hdc, fun h => absurd h hcnop⟩

namespace Draft

/-- A directive leaves its record with a body of its form. -/
theorem formed_layOutDirective {d : Draft}
    {directive : Directive} (h : d.record.directive = some directive) :
    (d.layOutDirective directive).record.Formed := by
  have hdirective := (d.reports_layOutDirective directive).directive.trans h
  by_cases hdc : directive = .dc
  · subst hdc
    exact fun _ => ⟨fun _ => d.isStorage_layOutStorage true,
      fun hcnop => by simp [hdirective] at hcnop⟩
  · by_cases hcnop : directive = .cnop
    · subst hcnop
      exact fun _ => ⟨fun hdc => by simp [hdirective] at hdc,
        fun _ => d.body_layOutAlignment⟩
    · exact Record.formed_of_directive (by simp [hdirective, hdc])
        (by simp [hdirective, hcnop])

/-- Settling an equate makes no constant of it. -/
theorem formed_settle {d : Draft} (h : d.record.Formed)
    (hwaiting : Layout.isWaiting d.record = true) (last : Bool) :
    (d.settle last).record.Formed := by
  obtain ⟨hreported, hdirective, -, -⟩ :=
    ((Draft.Steps.refl d).settle last).reports
  intro hclean
  have hbefore : d.record.errored = false := by
    cases herrored : d.record.errored with
    | false => rfl
    | true => exact absurd hclean (by simp [hreported.errored_mono herrored])
  obtain ⟨hdc, hcnop⟩ := h hbefore
  rw [hdirective]
  constructor
  · intro hd
    obtain ⟨parts, hbody⟩ := hdc hd
    simp [Layout.isWaiting, hbody] at hwaiting
  · intro hd
    simp [Layout.isWaiting, hcnop hd] at hwaiting

end Draft

/-- **Every record** of a program has a body of the form of its directive. -/
theorem Record.rule_formed : Record.Rule fun _ r => r.Formed where
  exempt h := by
    rcases h with herrored | hnone | hending
    · exact fun hclean => by simp [herrored] at hclean
    · exact Record.formed_of_directive (by simp [hnone]) (by simp [hnone])
    · exact Record.formed_of_directive (by simp [hending]) (by simp [hending])
  mono h _ := h
  laid _ _ hdirective := Draft.formed_layOutDirective hdirective
  settled last hwaiting h := Draft.formed_settle h hwaiting last

/-- **The records of constants and fillings stand for them.** -/
theorem Program.formed_ofStatements (options : Options)
    (statements : List Statement) :
    ∀ r ∈ (ofStatements options statements).records, r.Formed := by
  intro r hr
  obtain ⟨r₀, hr₀, rfl⟩ := List.mem_map.mp hr
  intro hclean
  obtain ⟨hdc, hcnop⟩ :=
    Record.rule_formed.unplaced options statements r₀ hr₀ hclean
  constructor
  · intro hd
    obtain ⟨parts, hbody⟩ := hdc hd
    exact ⟨parts, body_moveRecord_eq_storage.mpr hbody⟩
  · intro hd
    exact body_moveRecord_eq_located.mpr (hcnop hd)

/-! ### Marks and code -/

namespace Generate

variable {α β : Type}

/-- A step that marks the record just if it reports an error. -/
def Reporting (x : Generate α) : Prop := ∀ r g,
  Reported r.errored g.diagnostics (exec x r g).2.1.errored
    (exec x r g).2.2.diagnostics

/-- What keeps the storage marks the record just if it reports an error. -/
theorem Mild.reporting {x : Generate α} (hx : Mild x) : Reporting x :=
  fun r g => (hx r g).reports

theorem Steady.reporting {x : Generate α} (hx : Steady x) : Reporting x := by
  intro r g
  obtain ⟨more, hkept⟩ := hx r g
  exact hkept.reports

theorem reporting_bind {x : Generate α} {f : α → Generate β}
    (hx : Reporting x) (hf : ∀ a, Reporting (f a)) : Reporting (x >>= f) :=
  fun r g => (hx r g).trans (hf _ _ _)

/-- Emission reports nothing. -/
theorem reporting_emit (data : Bytes) : Reporting (emit data) := by
  intro r g
  rw [exec_emit]
  split <;> exact Reported.refl _ _

/-- A fault reports nothing: it ends the run. -/
theorem reporting_fail (e : StorageFault) : Reporting (fail e) :=
  fun _ _ => Reported.refl _ _

theorem reporting_emitParts (parts : List (Int64 × Bytes)) :
    Reporting (emitParts parts) := by
  refine reporting_bind quiet_record.mild.reporting fun r => ?_
  split
  · exact reporting_emit _
  · exact reporting_fail _

/-- Generation marks a record just if it reports an error. -/
theorem reporting_generate : Reporting generate := by
  refine reporting_bind quiet_record.mild.reporting fun r => ?_
  split
  · exact reporting_bind (quiet_instructionOctets _).mild.reporting
      reporting_emit
  · exact reporting_bind (steady_storageParts _).reporting reporting_emitParts
  · exact reporting_bind (steady_poolParts _).reporting reporting_emitParts
  · exact (quiet_forM fun _ =>
      quiet_discard (quiet_evaluate _ _)).mild.reporting
  · exact mild_useBases.reporting
  · exact mild_dropBases.reporting
  · exact mild_endProgram.reporting
  · split
    · exact reporting_fail _
    · exact reporting_emit _
  · exact (quiet_pure _).mild.reporting

/-- Emitted octets are the object of their record. -/
theorem object_emit (data : Bytes) (r : Record) (g : Generation) :
    (exec (emit data) r g).2.1.object = some data := by
  rw [exec_emit]

/-- Emitted parts leave an object, unless the storage faults. -/
theorem object_emitParts {parts : List (Int64 × Bytes)} {r : Record}
    {g : Generation} (h : (exec (emitParts parts) r g).2.2.fault = none) :
    (exec (emitParts parts) r g).2.1.object.isSome := by
  unfold emitParts at h ⊢
  rw [exec_bind, exec_record] at h ⊢
  simp only at h ⊢
  split
  · rw [object_emit]
    rfl
  · rename_i e he
    simp [he] at h

end Generate

/-- Whether the layout leaves room for the code of a record: an instruction, a
data constant, a pool of literals or a conditional no-operation. -/
def Record.reservesCode (r : Record) : Bool :=
  match r.body, r.directive with
  | .instruction _ _, _ => true
  | .pool _, _ => true
  | _, some .dc => true
  | _, some .cnop => true
  | _, _ => false

/-- A record for which all the code was generated that the layout left room
for. -/
structure Record.Completed (planned r : Record) : Prop where
  generated : planned.Generated r
  unmarked : r.errored = false
  code : planned.reservesCode = true → ∃ data, r.object = some data ∧
    (data.length : Int) = planned.length.toInt

/-- What a record without an error that has room for code stands for. -/
theorem Record.Formed.cases {r : Record} (h : r.Formed)
    (hclean : r.errored = false) (hreserves : r.reservesCode = true) :
    (∃ op bound, r.body = .instruction op bound) ∨
      (∃ parts, r.body = .storage parts ∧ r.directive = some .dc) ∨
      (∃ ids, r.body = .pool ids) ∨
      (r.body = .located ∧ r.directive = some .cnop) := by
  obtain ⟨hdc, hcnop⟩ := h hclean
  unfold reservesCode at hreserves
  split at hreserves
  · exact Or.inl ⟨_, _, ‹_›⟩
  · exact Or.inr (Or.inr (Or.inl ⟨_, ‹_›⟩))
  · rename_i hdirective _ _
    obtain ⟨parts, hbody⟩ := hdc hdirective
    exact Or.inr (Or.inl ⟨parts, hbody, hdirective⟩)
  · rename_i hdirective _ _
    exact Or.inr (Or.inr (Or.inr ⟨hcnop hdirective, hdirective⟩))
  · simp at hreserves

namespace Generate

/-- Code is generated for a record that has room for it, or there is a fault. -/
theorem object_generate {r : Record} {g : Generation} (hformed : r.Formed)
    (hclean : r.errored = false) (hreserves : r.reservesCode = true)
    (h : (exec generate r g).2.2.fault = none) :
    (exec generate r g).2.1.object.isSome := by
  unfold generate at h ⊢
  rw [exec_bind, exec_record] at h ⊢
  rcases hformed.cases hclean hreserves with
    ⟨op, bound, hbody⟩ | ⟨parts, hbody, hdirective⟩ |
      ⟨ids, hbody⟩ | ⟨hbody, hdirective⟩
  · simp only [hbody]
    rw [exec_bind, object_emit]
    rfl
  · simp only [hbody, hdirective] at h ⊢
    rw [exec_bind] at h ⊢
    exact object_emitParts h
  · simp only [hbody] at h ⊢
    rw [exec_bind] at h ⊢
    exact object_emitParts h
  · simp only [hbody, hdirective] at h ⊢
    split
    · simp_all
    · rw [object_emit]
      rfl

end Generate

namespace Generation

/-- A record that no code is generated for. -/
def Skips (g : Generation) (r : Record) : Prop :=
  r.errored = true ∨ g.fault.isSome

/-- The generation of a record marks it just if it reports an error. -/
theorem reported_step (g : Generation) (r : Record) :
    Reported r.errored g.diagnostics (g.step r).1.errored
      (g.step r).2.diagnostics := by
  unfold step
  split
  · exact Reported.refl _ _
  · exact Generate.reporting_generate r g

/-- **Every error mark has its error** among the diagnostics, also behind a
generation. -/
theorem blamed_run {g : Generation} {records : List Record}
    (h : ∀ r ∈ records, r.errored = true → g.Failed) :
    g.diagnostics <+: (g.run records).2.diagnostics ∧
      ∀ r ∈ (g.run records).1, r.errored = true → (g.run records).2.Failed := by
  induction records generalizing g with
  | nil => exact ⟨List.prefix_refl _, by simp [run]⟩
  | cons r rest ih =>
      have hstep := reported_step g r
      have hrest : ∀ r' ∈ rest, r'.errored = true → (g.step r).2.Failed :=
        fun r' hr' he =>
          (h r' (List.mem_cons_of_mem _ hr') he).mono hstep.isPrefix
      obtain ⟨hmore, hrecords⟩ := ih hrest
      refine ⟨hstep.isPrefix.trans hmore, fun r' hr' he => ?_⟩
      rcases List.mem_cons.mp hr' with rfl | hr'
      · have hfailed : (g.step r).2.Failed :=
          hstep.exists_error (h r List.mem_cons_self) he
        exact hfailed.mono hmore
      · exact hrecords r' hr' he

/-- A record that is left without errors has all its octets. -/
theorem completed_step {g : Generation} {r : Record} (hready : Ready r)
    (hformed : r.Formed) (hfault : (g.step r).2.fault = none)
    (hclean : (g.step r).1.errored = false) :
    ¬ g.Skips r ∧ r.Completed (g.step r).1 := by
  obtain ⟨hgenerated, -⟩ := step_spec g hready
  have hmark : r.errored = false := by
    cases herrored : r.errored with
    | false => rfl
    | true =>
        exact absurd hclean
          (by simp [(reported_step g r).errored_mono herrored])
  have hbefore : g.fault = none := by
    cases hfault' : g.fault with
    | none => rfl
    | some e =>
        have hsame : g.step r = (r, g) := by simp [step, hfault']
        rw [hsame, hfault'] at hfault
        exact hfault
  have hstep : g.step r =
      ((Generate.exec Generate.generate r g).2.1,
        (Generate.exec Generate.generate r g).2.2) := by
    unfold step
    rw [if_neg (by simp [hmark, hbefore])]
    rfl
  refine ⟨by simp [Skips, hmark, hbefore], hgenerated, hclean,
    fun hreserves => ?_⟩
  have hobject : (g.step r).1.object.isSome := by
    rw [hstep] at hfault ⊢
    exact Generate.object_generate hformed hmark hreserves hfault
  obtain ⟨data, hdata⟩ := Option.isSome_iff_exists.mp hobject
  exact ⟨data, hdata, hgenerated.length data hdata⟩

/-- **A run without errors is complete**: no record was passed over, and there
is as much code as was reserved. -/
theorem completed_run {g : Generation} {records : List Record}
    (hready : ∀ r ∈ records, Ready r) (hformed : ∀ r ∈ records, r.Formed)
    (hfault : (g.run records).2.fault = none)
    (hclean : ∀ r ∈ (g.run records).1, r.errored = false) :
    (∀ before r rest,
      records = before ++ r :: rest → ¬ (g.run before).2.Skips r) ∧
      List.Forall₂ Record.Completed records (g.run records).1 := by
  induction records generalizing g with
  | nil => exact ⟨by simp, List.Forall₂.nil⟩
  | cons first others ih =>
      obtain ⟨hunskipped, hcompleted⟩ :=
        completed_step (hready first List.mem_cons_self)
          (hformed first List.mem_cons_self) (fault_of_run hfault)
          (hclean _ List.mem_cons_self)
      obtain ⟨hrest, hall⟩ := ih (g := (g.step first).2)
        (fun r hr => hready r (List.mem_cons_of_mem _ hr))
        (fun r hr => hformed r (List.mem_cons_of_mem _ hr)) hfault
        (fun r hr => hclean r (List.mem_cons_of_mem _ hr))
      refine ⟨fun before r rest heq => ?_, List.Forall₂.cons hcompleted hall⟩
      cases before with
      | nil =>
          obtain ⟨rfl, -⟩ := List.cons.inj heq
          exact hunskipped
      | cons head before =>
          obtain ⟨rfl, hothers⟩ := List.cons.inj heq
          exact hrest before r rest hothers

end Generation

/-! ### The gate -/

/-- The worst diagnostic is an error just if there is an error. -/
theorem Diagnostic.isError_worst_iff (diagnostics : List Diagnostic) :
    (Diagnostic.worst diagnostics).isError = true ↔
      ∃ d ∈ diagnostics, d.severity.isError = true := by
  refine ⟨fun h => ?_,
    fun ⟨d, hd, herror⟩ => Diagnostic.isError_worst hd herror⟩
  suffices hfold : ∀ (diagnostics : List Diagnostic) (s : Severity),
      (diagnostics.foldl (fun s d => s.max d.severity) s).isError = true →
      s.isError = true ∨ ∃ d ∈ diagnostics, d.severity.isError = true from
    (hfold diagnostics .none h).resolve_left (by decide)
  intro diagnostics
  induction diagnostics with
  | nil => exact fun s hs => Or.inl hs
  | cons first rest ih =>
      intro s hs
      rcases ih _ hs with hmax | ⟨d, hd, herror⟩
      · simp only [Severity.max] at hmax
        split at hmax
        · exact Or.inr ⟨first, List.mem_cons_self, hmax⟩
        · exact Or.inl hmax
      · exact Or.inr ⟨d, List.mem_cons_of_mem _ hd, herror⟩

namespace Workspace

/-- A generation that ended in a fault is not collected. -/
theorem fault_of_collect {region : Region} {g : Generation} {isClean : Bool}
    {arena arena' : Arena} {texts : List Deck.Text}
    (h : StorageStep.exec (collect region g isClean) arena =
      (.ok texts, arena')) :
    g.fault = none := by
  cases hfault : g.fault with
  | none => rfl
  | some e =>
      rw [collect_eq, hfault] at h
      rcases hstore : StorageStep.exec (storeRuns region g.runs) arena
        with ⟨_ | _, b⟩
      · rw [StorageStep.exec_bind_error hstore] at h
        simp at h
      · rw [StorageStep.exec_bind_ok hstore, StorageStep.exec_throw] at h
        simp at h

theorem options_reset (w : Workspace) : w.reset.options = w.options := by
  unfold reset
  split <;> rfl

/-- What an assembly in any workspace was made of. -/
theorem run_made {w : Workspace} {today source : Bytes}
    {a : Assembly} (h : (w.run today source).1 = .ok a) :
    ∃ statements, Statement.readAll source = .ok statements ∧
      let p := Program.ofStatements w.options statements
      p.layout.endless = false ∧ p.generated.2.fault = none ∧
      a.records = p.generated.1 ∧ a.literals = p.layout.literals ∧
        a.diagnostics = sortByKey (fun d : Diagnostic => (d.cursor.line : Int))
          (p.generated.2.checkEntries p.layout.entryCursors).diagnostics ∧
        a.module?.isSome = !(Diagnostic.worst a.diagnostics).isError ∧
        a.deck? = a.module?.map (·.emit) := by
  unfold run at h
  simp only at h
  cases hread : Statement.readAll source with
  | error e => simp [hread] at h
  | ok statements =>
      refine ⟨statements, rfl, ?_⟩
      simp only [hread, options_reset] at h
      split at h
      · simp at h
      rename_i hends
      split at h
      · simp at h
      · rw [finish_eq] at h
        generalize hp : Program.ofStatements w.options statements = p at h
        have hrun : (Generation.new p).run p.records =
            (p.generated.1, p.generated.2) := rfl
        rw [hrun] at h
        simp only at h
        split at h
        · simp at h
        · split at h
          · simp at h
          rename_i texts arena hcollect
          obtain rfl := Except.ok.inj h
          refine ⟨Bool.eq_false_iff.mpr (hp ▸ hends), fault_of_collect hcollect,
            rfl, rfl, rfl, ?_, rfl⟩
          simp only
          split <;> simp_all

/-- **The emission gate.**  There is a module, and a deck of it, just if nothing
is worse than a warning.  Every error mark has its error among the diagnostics;
so with a deck no record was passed over, and every instruction, data constant,
pool and conditional no-operation has as many octets as the layout left room
for. -/
theorem emission_gate (w : Workspace) {today source : Bytes}
    {a : Assembly} (h : (w.run today source).1 = .ok a) :
    (a.module?.isSome ↔ ∀ d ∈ a.diagnostics,
      d.severity.rank ≤ Severity.warning.rank) ∧
      (a.deck?.isSome ↔ ∀ d ∈ a.diagnostics,
        d.severity.rank ≤ Severity.warning.rank) ∧
      ((∃ r ∈ a.records, r.errored = true) →
        ∃ d ∈ a.diagnostics, d.severity = .error ∨ d.severity = .severe) ∧
      (a.deck?.isSome → ∃ statements,
        Statement.readAll source = .ok statements ∧
        let p := Program.ofStatements w.options statements
        (∀ before r rest, p.records = before ++ r :: rest →
          ¬ ((Generation.new p).run before).2.Skips r) ∧
        List.Forall₂ Record.Completed p.records a.records) := by
  obtain ⟨statements, hread, -, hfault, hrecords, -, hdiagnostics, hmodule,
      hdeck⟩ := run_made h
  generalize hp : Program.ofStatements w.options statements = p at *
  have hrank : ∀ d : Diagnostic, d.severity.rank ≤ Severity.warning.rank ↔
      ¬ d.severity.isError = true := by
    intro d
    cases d.severity <;> decide
  have hworst := Diagnostic.isError_worst_iff a.diagnostics
  have hgate : a.module?.isSome ↔ ∀ d ∈ a.diagnostics,
      d.severity.rank ≤ Severity.warning.rank := by
    rw [hmodule, Bool.not_eq_true', ← Bool.not_eq_true, hworst]
    simp only [hrank, not_exists, not_and]
  have hdeckgate : a.deck?.isSome = a.module?.isSome := by
    rw [hdeck, Option.isSome_map]
  -- a mark of a record has its error, at the latest in the list of the assembly
  have hmarks : (∃ r ∈ a.records, r.errored = true) →
      ∃ d ∈ a.diagnostics, d.severity.isError = true := by
    rintro ⟨r, hr, he⟩
    have hblamed : ∀ r ∈ p.records, r.errored = true →
        (Generation.new p).Failed :=
      hp ▸ Program.blamed_ofStatements w.options statements
    obtain ⟨-, hall⟩ := Generation.blamed_run hblamed
    obtain ⟨d, hd, herror⟩ := hall r (hrecords ▸ hr) he
    refine ⟨d, ?_, herror⟩
    rw [hdiagnostics, (sortByKey_perm _ _).mem_iff]
    exact List.mem_append_left _ hd
  refine ⟨hgate, hdeckgate ▸ hgate, fun hmarked => ?_,
    fun hsome => ⟨statements, hread, ?_⟩⟩
  · obtain ⟨d, hd, herror⟩ := hmarks hmarked
    refine ⟨d, hd, ?_⟩
    cases hseverity : d.severity <;> simp_all [Severity.isError, Severity.rank]
  · have hready : ∀ r ∈ p.records, Generation.Ready r := fun r hr =>
      (Program.settled_ofStatements w.options statements r (hp ▸ hr)).ready
    have hformed : ∀ r ∈ p.records, r.Formed := fun r hr =>
      Program.formed_ofStatements w.options statements r (hp ▸ hr)
    subst hp
    rw [hrecords]
    refine Generation.completed_run hready hformed hfault fun r hr => ?_
    cases herrored : r.errored with
    | false => rfl
    | true =>
        obtain ⟨d, hd, herror⟩ := hmarks ⟨r, hrecords ▸ hr, herrored⟩
        exact absurd herror ((hrank d).mp (hgate.mp (hdeckgate ▸ hsome) d hd))

/-- A program with code of all four kinds, whose deck is complete. -/
theorem emission_gate_small :
    ∃ a statements,
    ((Workspace.mk {} (Arena.ofPageSize 4096) none).run []
        (bytes
          "A CSECT\n USING *,15\n CNOP 2,4\n L 1,=F'1'\n DC C'AB'\n END\n")).1 =
          .ok a ∧
      a.deck?.isSome ∧
      (∀ d ∈ a.diagnostics, d.severity.rank ≤ Severity.warning.rank) ∧
      List.Forall₂ Record.Completed (Program.ofStatements {} statements).records
        a.records := by
  have hcheck : (((Workspace.mk {} (Arena.ofPageSize 4096) none).run []
      (bytes
        "A CSECT\n USING *,15\n CNOP 2,4\n L 1,=F'1'\n DC C'AB'\n END\n")).1
      |>.toOption.any (·.deck?.isSome)) = true := by
    decide +kernel
  obtain ⟨a, ha, hok⟩ := exists_ok_of_any hcheck
  obtain ⟨-, hdeck, -, hcomplete⟩ := emission_gate _ ha
  obtain ⟨statements, -, -, hrecords⟩ := hcomplete hok
  exact ⟨a, statements, ha, hok, hdeck.mp hok, hrecords⟩

end Workspace

end System370
