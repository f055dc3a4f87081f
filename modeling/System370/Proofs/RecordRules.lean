import System370.Proofs.ErrorMarks
import System370.Proofs.ProgramLayout

/-!
# Rules for the records of directives

Some facts about a record come from its directive alone: they hold when the
directive is laid out, in the symbol table of that moment, and stay while names
are added.  Such a fact is a `Record.Rule`.  It says nothing of records with an
error, of instructions, of pools and of the end statement.

`Record.Rule.unplaced` is the induction over a program: the fact holds of every
record when all statements are laid out and all equates are settled.
-/

namespace System370

open Layout

/-- A fact about the records of directives, in a symbol table. -/
structure Record.Rule (P : SymbolTable → Record → Prop) : Prop where
  exempt : ∀ {t : SymbolTable} {r : Record},
    r.errored = true ∨ r.directive = none ∨ r.directive = some .ending → P t r
  mono : ∀ {t t' : SymbolTable} {r : Record}, P t r → t.Extends t' → P t' r
  laid : ∀ {d : Draft} {directive : Directive}, d.layout.WellFormed → d.Fresh →
    d.record.directive = some directive →
    P (d.layOutDirective directive).layout.symbols
      (d.layOutDirective directive).record
  settled : ∀ {d : Draft} (last : Bool), isWaiting d.record = true →
    P d.layout.symbols d.record →
      P (d.settle last).layout.symbols (d.settle last).record

namespace Record.Rule

variable {P : SymbolTable → Record → Prop}

/-- Pools at the end follow the rule. -/
theorem flushSections (h : Rule P) (l : Layout) (statement : Statement)
    (ids : List Int) (t : SymbolTable) :
    ∀ r ∈ (l.flushSections statement ids).2, P t r := by
  induction ids generalizing l with
  | nil => simp [Layout.flushSections]
  | cons id rest ih =>
      intro r hr
      rcases List.mem_append.mp hr with hr | hr
      · have hsome : (l.flushSection statement id).2 = some r :=
          Option.mem_toList.mp hr
        unfold flushSection at hsome
        split at hsome
        · simp at hsome
        · simp only at hsome
          split at hsome
          · simp at hsome
          · obtain rfl := Option.some.inj hsome
            exact h.exempt (Or.inr (Or.inl rfl))
      · exact ih _ r hr

/-- The records of one statement. -/
theorem layOutStatement (h : Rule P) {d : Draft} (hwf : d.layout.WellFormed)
    (hfresh : d.Fresh) (hnone : d.record.directive = none) :
    ∀ r ∈ (layOutStatement d).2, P (layOutStatement d).1.symbols r := by
  have hsingle : ∀ {t : SymbolTable} {r : Record}, P t r → ∀ r' ∈ [r],
      P t r' := by
    intro t r hr r' hr'
    rw [List.mem_singleton.mp hr']
    exact hr
  unfold Layout.layOutStatement
  simp only
  split
  · exact hsingle (h.exempt
      (Or.inr (Or.inl (d.steps_layOutMark.reports.directive.trans hnone))))
  · split
    · exact hsingle (h.exempt (Or.inr
        (Or.inl ((d.steps_layOutInstruction _).reports.directive.trans hnone))))
    · split
      · rename_i directive _
        let named : Draft :=
          { d with record := { d.record with directive := some directive } }
        split
        · rename_i hending
          intro r hr
          rcases List.mem_append.mp hr with hr | hr
          · exact h.flushSections _ _ _ _ r hr
          · rw [List.mem_singleton.mp hr]
            have hlocate : named.locate.record.directive = some directive :=
              named.steps_locate.reports.directive
            exact h.exempt
              (Or.inr (Or.inr (hlocate.trans (congrArg some hending))))
        · split
          · rename_i herrored
            exact hsingle (h.exempt (Or.inl
              (named.steps_locate.reports.reported.errored_mono herrored)))
          · exact hsingle (h.laid (d := named) hwf
              ⟨hfresh.object, hfresh.body, hfresh.sectionId, hfresh.length,
                hfresh.label, hfresh.loc⟩ rfl)
      · split
        · exact hsingle (h.exempt (Or.inr (Or.inl hnone)))
        · exact hsingle (h.exempt (Or.inr (Or.inl
            (((d.reports_report _ _).trans
              (Draft.steps_layOutMark _).reports).directive.trans hnone))))

/-- **One statement.** -/
theorem step (h : Rule P) {l : Layout} (hwf : l.WellFormed)
    (statement : Statement) :
    ∀ r ∈ (l.step statement).2, P (l.step statement).1.symbols r := by
  have hblank : ∀ t, ∀ r ∈ [({ statement } : Record)], P t r := by
    intro t r hr
    rw [List.mem_singleton.mp hr]
    exact h.exempt (Or.inr (Or.inl rfl))
  unfold Layout.step
  simp only
  split
  · exact hblank _
  · split
    · exact hblank _
    · generalize statement.faults.any (·.severity.isError) = errored
      obtain ⟨hfresh, hlayout, -⟩ := checkLabel_spec
        { l with diagnostics := l.diagnostics ++ statement.faults }
          statement errored
      have hnone := (Draft.steps_checkLabel (Draft.mk
        { l with diagnostics := l.diagnostics ++ statement.faults }
          { statement, errored })).reports.directive
      generalize (Draft.mk
        { l with diagnostics := l.diagnostics ++ statement.faults }
        { statement, errored }).checkLabel = d at hfresh hlayout hnone
      refine h.layOutStatement ?_ hfresh hnone
      rw [hlayout]
      exact hwf.of_same rfl rfl rfl

/-- **All statements one after the other.** -/
theorem run (h : Rule P) {l : Layout} (hwf : l.WellFormed)
    (statements : List Statement) :
    ∀ r ∈ (l.run statements).2, P (l.run statements).1.symbols r := by
  induction statements generalizing l with
  | nil => simp [Layout.run]
  | cons statement rest ih =>
      have hstep := step_spec hwf statement
      intro r hr
      rcases List.mem_append.mp hr with hr | hr
      · exact h.mono (h.step hwf statement r hr)
          (run_spec hstep.layout rest).grown.symbols
      · exact ih hstep.layout r hr

/-- The end statement, if it is supplied. -/
theorem supplyEnd (h : Rule P) {l : Layout} (hwf : l.WellFormed)
    (statements : List Statement) :
    ∀ r ∈ (l.supplyEnd statements).2,
    P (l.supplyEnd statements).1.symbols r := by
  cases hended : l.ended with
  | true => simp [supplyEnd_ended hended]
  | false =>
      obtain ⟨cursor, hopen⟩ := supplyEnd_open hended statements
      have hreported : (l.report ⟨cursor, .missingEnd⟩).WellFormed :=
        hwf.of_same rfl rfl rfl
      rw [hopen]
      exact h.step hreported _

/-- A round of settling equates. -/
theorem settleRound (h : Rule P) (last : Bool) {l : Layout} (hwf : l.WellFormed)
    {records : List Record} (hplaced : ∀ r ∈ records, r.Placed l)
    (hrecords : ∀ r ∈ records, P l.symbols r) :
    ∀ r ∈ (settleRound last l records).2,
    P (settleRound last l records).1.symbols r := by
  induction records generalizing l with
  | nil => simp [Layout.settleRound]
  | cons first rest ih =>
      -- the first record alone, and the round over the rest
      have hfirst : P (if isWaiting first then (Draft.mk l first).settle last
          else ⟨l, first⟩).layout.symbols (if isWaiting first then
            (Draft.mk l first).settle last
          else ⟨l, first⟩).record := by
        have hbefore := hrecords first List.mem_cons_self
        split
        · exact h.settled (d := ⟨l, first⟩) last ‹_› hbefore
        · exact hbefore
      have halone := @outcome_settleRound last l hwf [first]
        fun r hr => hplaced r (List.mem_singleton.mp hr ▸ List.mem_cons_self)
      simp only [Layout.settleRound] at halone ⊢
      generalize (if isWaiting first then (Draft.mk l first).settle last else
        ⟨l, first⟩) = d at *
      have hplaced' : ∀ r ∈ rest, r.Placed d.layout := fun r hr =>
        (hplaced r (List.mem_cons_of_mem _ hr)).mono halone.grown
      have hrest := outcome_settleRound last halone.layout hplaced'
      intro r hr
      rcases List.mem_cons.mp hr with rfl | hr
      · exact h.mono hfirst hrest.grown.symbols
      · exact ih halone.layout hplaced' (fun other hother =>
          h.mono (hrecords other (List.mem_cons_of_mem _ hother))
            halone.grown.symbols) r hr

/-- Equates that are settled follow the rule. -/
theorem settleAll (h : Rule P) (fuel : Nat) {l : Layout} (hwf : l.WellFormed)
    {records : List Record} (hplaced : ∀ r ∈ records, r.Placed l)
    (hrecords : ∀ r ∈ records, P l.symbols r) :
    ∀ r ∈ (settleAll fuel l records).2,
    P (settleAll fuel l records).1.symbols r := by
  induction fuel generalizing l records with
  | zero => exact hrecords
  | succ fuel ih =>
      unfold Layout.settleAll
      simp only
      have hround := outcome_settleRound false hwf hplaced
      have hsettled := h.settleRound false hwf hplaced hrecords
      split
      · exact hrecords
      · split
        · exact h.settleRound true hround.layout hround.records hsettled
        · exact ih hround.layout hround.records hsettled

/-- **A rule holds of every record** of a program, before the sections are
placed. -/
theorem unplaced (h : Rule P) (options : Options)
    (statements : List Statement) :
    ∀ r ∈ (Program.unplaced options statements).records,
      P (Program.unplaced options statements).layout.symbols r := by
  have hrun := run_spec (wellFormed_new options) statements
  obtain ⟨hend, -⟩ := outcome_supplyEnd hrun.layout statements
  have hall := hrun.append hend
  unfold Program.unplaced
  refine h.settleAll _ hend.layout hall.records fun r hr => ?_
  rcases List.mem_append.mp hr with hr | hr
  · exact h.mono (h.run (wellFormed_new options) statements r hr)
      hend.grown.symbols
  · exact h.supplyEnd hrun.layout statements r hr

end Record.Rule

end System370
