import System370.Proofs.LayoutSteps

/-!
# Errors mark their records

A record whose statement has an error generates nothing.  The mark is set by
reporting and by nothing else: a step that was `Reported` adds its diagnostics
behind the others, and marks the record just if one of them is an error.  Every
step of the layout is of this kind, so whatever record has the mark, there is an
error that tells of it (`Layout.blames_run`, `Layout.blames_settleAll`).
-/

namespace System370

/-- What became of an error mark and of a list of diagnostics: there are more of
them, and an error among those sets the mark. -/
def Reported (errored : Bool) (before : List Diagnostic) (errored' : Bool)
    (after : List Diagnostic) : Prop :=
  ∃ more : List Diagnostic, after = before ++ more ∧
    errored' = (errored || more.any (·.severity.isError))

namespace Reported

variable {errored errored' errored'' : Bool}
  {before middle after : List Diagnostic}

theorem refl (errored : Bool) (before : List Diagnostic) :
    Reported errored before errored before := ⟨[], by simp, by simp⟩

theorem trans (h : Reported errored before errored' middle)
    (h' : Reported errored' middle errored'' after) :
    Reported errored before errored'' after := by
  obtain ⟨more, rfl, rfl⟩ := h
  obtain ⟨others, rfl, rfl⟩ := h'
  exact ⟨more ++ others, by simp, by rw [List.any_append, Bool.or_assoc]⟩

theorem isPrefix (h : Reported errored before errored' after) :
    before <+: after := by
  obtain ⟨more, rfl, -⟩ := h
  exact List.prefix_append _ _

/-- A mark stays. -/
theorem errored_mono (h : Reported errored before errored' after)
    (he : errored = true) :
    errored' = true := by
  obtain ⟨more, -, rfl⟩ := h
  rw [he, Bool.true_or]

/-- **A mark has its error.** -/
theorem exists_error (h : Reported errored before errored' after)
    (hbefore : errored = true → ∃ d ∈ before, d.severity.isError = true)
    (he : errored' = true) : ∃ d ∈ after, d.severity.isError = true := by
  obtain ⟨more, rfl, rfl⟩ := h
  rcases Bool.or_eq_true_iff.mp he with he | he
  · obtain ⟨d, hd, herror⟩ := hbefore he
    exact ⟨d, List.mem_append_left _ hd, herror⟩
  · obtain ⟨d, hd, herror⟩ := List.any_eq_true.mp he
    exact ⟨d, List.mem_append_right _ hd, herror⟩

end Reported

namespace Draft

/-- A step on a draft that marks the record just if it reports an error, does
not make the record of another directive of it, and does not end the program. -/
def Reports (d d' : Draft) : Prop :=
  Reported d.record.errored d.layout.diagnostics d'.record.errored
    d'.layout.diagnostics ∧
    d'.record.directive = d.record.directive ∧
      d'.layout.ended = d.layout.ended ∧
    d'.layout.afterEnd = d.layout.afterEnd

variable {d d' d'' : Draft}

theorem Reports.reported (h : Reports d d') :
    Reported d.record.errored d.layout.diagnostics d'.record.errored
      d'.layout.diagnostics := h.1

/-- The record stays that of its directive. -/
theorem Reports.directive (h : Reports d d') :
    d'.record.directive = d.record.directive := h.2.1

/-- No such step ends the program. -/
theorem Reports.ended (h : Reports d d') :
    d'.layout.ended = d.layout.ended := h.2.2.1

theorem Reports.afterEnd (h : Reports d d') :
    d'.layout.afterEnd = d.layout.afterEnd := h.2.2.2

theorem Reports.refl (d : Draft) : Reports d d :=
  ⟨Reported.refl _ _, rfl, rfl, rfl⟩

theorem Reports.trans (h : Reports d d') (h' : Reports d' d'') :
    Reports d d'' :=
  ⟨h.reported.trans h'.reported, h'.directive.trans h.directive,
    h'.ended.trans h.ended, h'.afterEnd.trans h.afterEnd⟩

/-- A diagnostic marks the record if it is an error. -/
theorem reports_report (d : Draft) (cursor : Cursor) (problem : Problem) :
    Reports d (d.report cursor problem) :=
  ⟨⟨[⟨cursor, problem⟩], rfl, by simp [report, Diagnostic.severity]⟩,
    rfl, rfl, rfl⟩

/-- A constant that is refused marks the record. -/
theorem reports_refuse (d : Draft) (failure : Constant.Failure)
    (cursor : Cursor) :
    Reports d (d.refuse failure cursor) :=
  ⟨⟨[⟨cursor, .invalidConstant failure.cause⟩],
    rfl, by simp [refuse, report, Diagnostic.severity]⟩, rfl, rfl, rfl⟩

/-- Small steps report what is wrong, and nothing else sets the mark. -/
theorem Step.reports (h : d.Step d') : Reports d d' := by
  cases h with
  | report cursor problem => exact reports_report d cursor problem
  | refuse cursor _ => exact reports_refuse d _ cursor
  | record _ hdirective herrored =>
      exact ⟨⟨[], by simp, by simp [herrored]⟩, hdirective, rfl, rfl⟩
  | symbols _ => exact Reports.refl d
  | layout _ hdiagnostics hended hafter _ =>
      exact ⟨⟨[], by simp [hdiagnostics], by simp⟩, rfl, hended, hafter⟩

/-- No step of the layout of a statement marks without a report. -/
theorem Steps.reports (h : d.Steps d') : Reports d d' :=
  h.lift Reports.refl Reports.trans Step.reports

/-! ### Section statements -/

theorem reports_startAt (d : Draft) (text : Bytes) :
    Reports d (d.startAt text) := by
  have hvalue := (d.steps_absolute text).reports
  unfold startAt
  simp only
  split
  · exact hvalue.trans (reports_report _ _ _)
  · split
    · exact hvalue.trans (reports_report _ _ _)
    · split <;> exact Reports.refl d

/-- A section that is opened or resumed. -/
theorem reports_openSection (d : Draft) (kind : SectionKind) :
    Reports d (d.openSection kind) := by
  unfold openSection
  split
  · exact reports_report _ _ _
  · exact (Reports.refl d : Reports d
      ((d.mapSymbols _).withBody .located)).trans
      (steps_locate _).reports

/-- A directive that opens a section. -/
theorem reports_layOutSection (d : Draft) (directive : Directive) :
    Reports d (d.layOutSection directive) := by
  unfold layOutSection
  simp only
  split
  · split
    · exact (Steps.refl d).requireLabel.reports
    · exact reports_openSection d _
  · generalize (if d.record.label = [] then SectionKind.unnamed else .named) =
      kind
    split
    · split
      · exact (reports_openSection d _).trans (reports_startAt _ _)
      · exact reports_openSection d _
    · exact reports_openSection d _

/-- **Every directive** marks its record just if it reports an error. -/
theorem reports_layOutDirective (d : Draft) (directive : Directive) :
    Reports d (d.layOutDirective directive) := by
  cases hsection : directive.isSection with
  | false => exact (d.steps_layOutDirective hsection).reports
  | true =>
      cases directive with
      | start | csect | rsect | dsect => exact reports_layOutSection d _
      | _ => simp [Directive.isSection] at hsection

/-- Whether an error of the record is among the diagnostics. -/
def Blamed (d : Draft) : Prop :=
  d.record.errored = true → ∃ x ∈ d.layout.diagnostics,
    x.severity.isError = true

/-- A mark that had its error has it still. -/
theorem Blamed.reports (h : d.Blamed) (hreports : d.Reports d') : d'.Blamed :=
  hreports.reported.exists_error h

end Draft

namespace Layout

/-- Whether every record with an error has its error among the diagnostics. -/
def Blamed (l : Layout) (records : List Record) : Prop :=
  ∀ r ∈ records, r.errored = true → ∃ d ∈ l.diagnostics,
    d.severity.isError = true

/-- Errors stay while more is reported. -/
theorem Blamed.mono {l l' : Layout} {records : List Record}
    (h : l.Blamed records) (hmore : l.diagnostics <+: l'.diagnostics) :
    l'.Blamed records := by
  intro r hr he
  obtain ⟨d, hd, herror⟩ := h r hr he
  exact ⟨d, hmore.subset hd, herror⟩

/-- Records of two parts. -/
theorem Blamed.append {l : Layout} {records others : List Record}
    (h : l.Blamed records) (h' : l.Blamed others) :
    l.Blamed (records ++ others) := by
  intro r hr
  rcases List.mem_append.mp hr with hr | hr
  · exact h r hr
  · exact h' r hr

/-- A part of a program that reports the errors of its records. -/
def Blames (l : Layout) (outcome : Layout × List Record) : Prop :=
  l.diagnostics <+: outcome.1.diagnostics ∧ outcome.1.Blamed outcome.2

/-- A part of a program behind another. -/
theorem Blames.append {l l' l'' : Layout} {records others : List Record}
    (h : l.Blames (l', records)) (h' : l'.Blames (l'', others)) :
    l.Blames (l'', records ++ others) :=
  ⟨h.1.trans h'.1, (h.2.mono h'.1).append h'.2⟩

/-- A record without an error. -/
theorem blames_unmarked {l l' : Layout}
    (hmore : l.diagnostics <+: l'.diagnostics) {r : Record}
    (hr : r.errored = false) : l.Blames (l', [r]) :=
  ⟨hmore, by simp [Blamed, hr]⟩

/-- The record of a statement, whose errors were reported so far. -/
theorem blames_single {d d' : Draft} (h : d.Reports d') (hd : d.Blamed) :
    d.layout.Blames (d'.layout, [d'.record]) := by
  refine ⟨h.reported.isPrefix, fun r hr he => ?_⟩
  obtain rfl := List.mem_singleton.mp hr
  exact hd.reports h he

/-- The pool of a section at the end reports nothing and marks no record. -/
theorem flushSection_unmarked (l : Layout) (statement : Statement) (id : Int) :
    (l.flushSection statement id).1.diagnostics = l.diagnostics ∧
      ∀ r ∈ (l.flushSection statement id).2, r.errored = false := by
  unfold flushSection
  split
  · exact ⟨rfl, by simp⟩
  · simp only
    split
    · exact ⟨rfl, by simp⟩
    · exact ⟨rfl, by simp⟩

/-- Nor do the pools of several sections. -/
theorem flushSections_unmarked (l : Layout) (statement : Statement)
    (ids : List Int) :
    (l.flushSections statement ids).1.diagnostics = l.diagnostics ∧
      ∀ r ∈ (l.flushSections statement ids).2, r.errored = false := by
  induction ids generalizing l with
  | nil => exact ⟨rfl, by simp [flushSections]⟩
  | cons id rest ih =>
      obtain ⟨hfirst, hpool⟩ := flushSection_unmarked l statement id
      obtain ⟨hrest, hpools⟩ := ih (l.flushSection statement id).1
      refine ⟨hrest.trans hfirst, fun r hr => ?_⟩
      rcases List.mem_append.mp hr with hr | hr
      · exact hpool r (Option.mem_toList.mp hr)
      · exact hpools r hr

/-- `END` reports the errors of its record. -/
theorem blames_layOutEnd {d : Draft} (hd : d.Blamed) :
    d.layout.Blames (layOutEnd d) := by
  have hlocate : d.Reports (d.locate.withBody .located) :=
    d.steps_locate.reports
  have hmore := hlocate.reported.isPrefix
  have hown := hd.reports hlocate
  unfold layOutEnd
  generalize d.locate.withBody .located = d₁ at hmore hown
  simp only
  obtain ⟨hsame, hpools⟩ :=
    flushSections_unmarked { d₁.layout with ended := true } d₁.statement
      d₁.layout.literals.waitingSections
  generalize flushSections { d₁.layout with ended := true } d₁.statement
    d₁.layout.literals.waitingSections = out at hsame hpools
  obtain ⟨l, pools⟩ := out
  have hdiagnostics : l.diagnostics = d₁.layout.diagnostics := hsame
  refine ⟨hdiagnostics ▸ hmore, ?_⟩
  intro r hr he
  rcases List.mem_append.mp hr with hr | hr
  · rw [hpools r hr] at he
    exact absurd he Bool.false_ne_true
  · rw [List.mem_singleton.mp hr] at he
    simp only [hdiagnostics]
    exact hown he

/-- **Every statement** reports the errors of its record. -/
theorem blames_layOutStatement {d : Draft} (hd : d.Blamed) :
    d.layout.Blames (layOutStatement d) := by
  unfold layOutStatement
  simp only
  split
  · exact blames_single d.steps_layOutMark.reports hd
  · split
    · exact blames_single (d.steps_layOutInstruction _).reports hd
    · split
      · rename_i directive _
        let named : Draft :=
          { d with record := { d.record with directive := some directive } }
        have hnamed : named.Blamed := hd
        split
        · exact blames_layOutEnd hnamed
        · split
          · exact blames_single (d := named) named.steps_locate.reports hnamed
          · exact blames_single
              (d := named) (named.reports_layOutDirective _) hnamed
      · split
        · exact blames_single (Draft.Reports.refl d) hd
        · exact blames_single
            ((d.reports_report _ _).trans (Draft.steps_layOutMark _).reports) hd

/-- **A statement reports the errors of its records**, those of its operand
field before it is laid out. -/
theorem blames_step (l : Layout) (statement : Statement) :
    l.Blames (l.step statement) := by
  have hfaults : l.diagnostics <+: l.diagnostics ++ statement.faults :=
    List.prefix_append _ _
  unfold step
  simp only
  split
  · exact blames_unmarked hfaults rfl
  · split
    · refine blames_unmarked ?_ rfl
      split
      · exact hfaults
      · exact hfaults.trans (List.prefix_append _ _)
    · let d : Draft :=
        ⟨{ l with diagnostics := l.diagnostics ++ statement.faults },
        { statement, errored := statement.faults.any (·.severity.isError) }⟩
      have hd : d.Blamed := by
        intro he
        obtain ⟨x, hx, herror⟩ := List.any_eq_true.mp he
        exact ⟨x, List.mem_append_right _ hx, herror⟩
      obtain ⟨hlaid, hrecords⟩ :=
        blames_layOutStatement (hd.reports d.steps_checkLabel.reports)
      exact ⟨hfaults.trans
        (d.steps_checkLabel.reports.reported.isPrefix.trans hlaid), hrecords⟩

/-- **Every error mark has its error** among what the statements report. -/
theorem blames_run (l : Layout) (statements : List Statement) :
    l.Blames (l.run statements) := by
  induction statements generalizing l with
  | nil => exact ⟨List.prefix_refl _, by simp [run, Blamed]⟩
  | cons statement rest ih => exact (l.blames_step statement).append (ih _)

/-- So does an `END` that is supplied. -/
theorem blames_supplyEnd (l : Layout) (statements : List Statement) :
    l.Blames (l.supplyEnd statements) := by
  unfold supplyEnd
  split
  · exact ⟨List.prefix_refl _, by simp [Blamed]⟩
  · simp only
    refine ⟨(List.prefix_append _ _).trans
      (blames_step (l.report _) (suppliedEnd _)).1, ?_⟩
    exact (blames_step _ _).2

/-- A round over the equates that wait reports the errors of those it
decides. -/
theorem blames_settleRound (last : Bool) {l : Layout} {records : List Record}
    (h : l.Blamed records) : l.Blames (settleRound last l records) := by
  induction records generalizing l with
  | nil => exact ⟨List.prefix_refl _, h⟩
  | cons r rest ih =>
      have hfirst : l.Blames
          ((if isWaiting r then (Draft.mk l r).settle last else ⟨l, r⟩).layout,
          [(if isWaiting r then (Draft.mk l r).settle last else
            ⟨l, r⟩).record]) := by
        have hr : (Draft.mk l r).Blamed := h r List.mem_cons_self
        refine blames_single ?_ hr
        split
        · exact ((Draft.Steps.refl _).settle _).reports
        · exact Draft.Reports.refl _
      have hrest : l.Blamed rest :=
        fun other hother => h other (List.mem_cons_of_mem _ hother)
      exact hfirst.append (ih (hrest.mono hfirst.1))

/-- So do all the rounds. -/
theorem blames_settleAll (fuel : Nat) {l : Layout} {records : List Record}
    (h : l.Blamed records) : l.Blames (settleAll fuel l records) := by
  induction fuel generalizing l records with
  | zero => exact ⟨List.prefix_refl _, h⟩
  | succ fuel ih =>
      unfold settleAll
      simp only
      split
      · exact ⟨List.prefix_refl _, h⟩
      · obtain ⟨hmore, hround⟩ := blames_settleRound false h
        split
        · obtain ⟨hlast, hrecords⟩ := blames_settleRound true hround
          exact ⟨hmore.trans hlast, hrecords⟩
        · obtain ⟨hlast, hrecords⟩ := ih hround
          exact ⟨hmore.trans hlast, hrecords⟩

end Layout

namespace Program

/-- **A program that is laid out blames its errors.** -/
theorem blamed_ofStatements (options : Options) (statements : List Statement) :
    (ofStatements options statements).layout.Blamed
      (ofStatements options statements).records := by
  have hrun := (Layout.new options).blames_run statements
  have hsupplied :=
    ((Layout.new options).run statements).1.blames_supplyEnd statements
  obtain ⟨-, hboth⟩ := Layout.Blames.append hrun hsupplied
  obtain ⟨-, hsettled⟩ := Layout.blames_settleAll
    ((((Layout.new options).run statements).2 ++
      (((Layout.new options).run statements).1.supplyEnd statements).2).length +
        1) hboth
  intro r hr he
  obtain ⟨r₀, hr₀, rfl⟩ := List.mem_map.mp hr
  exact hsettled r₀ hr₀ he

end Program

end System370
