import System370.Proofs.ComparedAssemblies
import System370.Proofs.EmissionGate
import System370.Proofs.SourceLines

/-!
# Statements behind the end

Behind the end statement nothing is laid out any more.  A statement there is
reported, the first one that is no comment as such and each with the faults of
its operand field; its record is idle.  So a text behind a source that ends
properly only adds diagnostics.

The programs with and without the text are compared by `Comparison.behindEnd`,
which tells apart nothing but the diagnostics added.

* `Layout.run_ended` says what statements behind the end do to the layout;
* `assemble_append` compares the assemblies.  A fault of an operand field is
  severe, also behind the end, and then there is no module.
-/

namespace System370

/-- The mnemonic of the end statement. -/
def Statement.endMnemonic : Bytes := bytes "END"

/-- Whether the only end statement of some statements is the last one, comments
aside. -/
def Statement.EndsOnce (statements : List Statement) : Prop :=
  ∃ before last remarks, statements = before ++ last :: remarks ∧
    (∀ s ∈ before, s.isComment = true ∨ s.mnemonic ≠ endMnemonic) ∧
    last.isComment = false ∧ last.mnemonic = endMnemonic ∧ ∀ s ∈ remarks,
    s.isComment = true

/-- What is reported of statements behind the end. -/
def Statement.ignored (statements : List Statement) : List Diagnostic :=
  statements.flatMap (·.faults) ++
    ((statements.find? (!·.isComment)).map fun s => ⟨s.position,
      .afterEnd⟩).toList

/-- Without faults only warnings are reported of statements behind the end. -/
theorem Statement.severity_ignored {statements : List Statement}
    (h : ∀ s ∈ statements, s.faults = []) {d : Diagnostic}
    (hd : d ∈ ignored statements) : d.severity = .warning := by
  rcases List.mem_append.mp hd with hd | hd
  · obtain ⟨s, hs, hfault⟩ := List.mem_flatMap.mp hd
    simp [h s hs] at hfault
  · obtain ⟨s, -, rfl⟩ := Option.map_eq_some_iff.mp (Option.mem_toList.mp hd)
    rfl

namespace Layout

variable {l : Layout}

/-- Statements behind statements are laid out behind them. -/
theorem run_append (l : Layout) (statements others : List Statement) :
    l.run (statements ++ others) =
      (((l.run statements).1.run others).1,
        (l.run statements).2 ++ ((l.run statements).1.run others).2) := by
  induction statements generalizing l with
  | nil => rfl
  | cons s rest ih => simp only [List.cons_append, run, ih, List.append_assoc]

/-! ### Up to the end -/

/-- A statement other than the end does not end the program. -/
theorem layOutStatement_open {d : Draft}
    (h : Directive.ofMnemonic? d.statement.mnemonic ≠ some .ending) :
    (layOutStatement d).1.ended = d.layout.ended ∧
      (layOutStatement d).1.afterEnd = d.layout.afterEnd := by
  have hsingle : ∀ {d d' : Draft}, d.Reports d' →
      d'.layout.ended = d.layout.ended ∧
        d'.layout.afterEnd = d.layout.afterEnd :=
    fun hreports => ⟨hreports.ended, hreports.afterEnd⟩
  unfold layOutStatement
  simp only
  split
  · exact hsingle d.steps_layOutMark.reports
  · split
    · exact hsingle (d.steps_layOutInstruction _).reports
    · split
      · rename_i directive hdirective
        let named : Draft :=
          { d with record := { d.record with directive := some directive } }
        split
        · rename_i hending
          exact absurd (hdirective.trans (congrArg some hending)) h
        · split
          · exact ⟨named.steps_locate.reports.ended,
              named.steps_locate.reports.afterEnd⟩
          · have hreports := named.reports_layOutDirective directive
            exact ⟨hreports.ended, hreports.afterEnd⟩
      · split
        · exact ⟨rfl, rfl⟩
        · exact hsingle
            ((d.reports_report _ _).trans (Draft.steps_layOutMark _).reports)

/-- Pools at the end neither end the program nor follow its end. -/
theorem flushSections_open (l : Layout) (s : Statement) (ids : List Int) :
    (l.flushSections s ids).1.ended = l.ended ∧
      (l.flushSections s ids).1.afterEnd = l.afterEnd := by
  have hfirst : ∀ (l : Layout) (id : Int),
      (l.flushSection s id).1.ended = l.ended ∧
      (l.flushSection s id).1.afterEnd = l.afterEnd := by
    intro l id
    unfold flushSection
    split
    · exact ⟨rfl, rfl⟩
    · simp only
      split <;> exact ⟨rfl, rfl⟩
  induction ids generalizing l with
  | nil => exact ⟨rfl, rfl⟩
  | cons id rest ih =>
      exact ⟨(ih _).1.trans (hfirst l id).1, (ih _).2.trans (hfirst l id).2⟩

/-- The end statement ends the program. -/
theorem layOutEnd_ended (d : Draft) :
    (layOutEnd d).1.ended = true ∧
      (layOutEnd d).1.afterEnd = d.layout.afterEnd := by
  have hlocate : d.Reports (d.locate.withBody .located) :=
    d.steps_locate.reports
  obtain ⟨hended, hafter⟩ := flushSections_open
    { (d.locate.withBody .located).layout with ended := true }
      (d.locate.withBody .located).statement
    (d.locate.withBody .located).layout.literals.waitingSections
  exact ⟨hended, hafter.trans hlocate.afterEnd⟩

theorem statement_checkLabel (d : Draft) :
    d.checkLabel.statement = d.statement := by
  unfold Draft.checkLabel
  simp only
  split
  · rfl
  · split <;> rfl

/-- `END` is written `END`. -/
theorem ofMnemonic?_ending {mnemonic : Bytes}
    (h : Directive.ofMnemonic? mnemonic = some .ending) :
    mnemonic = Statement.endMnemonic := by
  have hnames : ∀ x ∈ Directive.names,
      x.1 = .ending → x.2 = Statement.endMnemonic := by
    decide +kernel
  unfold Directive.ofMnemonic? at h
  obtain ⟨x, hfind, hx⟩ := Option.map_eq_some_iff.mp h
  have hmnemonic : x.2 = mnemonic := by simpa using List.find?_some hfind
  exact hmnemonic ▸ hnames x (List.mem_of_find?_eq_some hfind) hx

/-- The end statement is laid out as such. -/
theorem layOutStatement_end {d : Draft}
    (h : d.statement.mnemonic = Statement.endMnemonic) :
    layOutStatement d =
      layOutEnd
        { d with record := { d.record with directive := some .ending } } := by
  have hnone : Instruction.find? Statement.endMnemonic = none := by
    decide +kernel
  have hending : Directive.ofMnemonic? Statement.endMnemonic =
      some .ending := by
    decide +kernel
  have hsome : Statement.endMnemonic ≠ [] := by decide +kernel
  unfold layOutStatement
  simp only [h, hnone, hending, hsome, if_true, if_false]

/-- The draft of a statement whose operand field was reported. -/
def draftOf (l : Layout) (s : Statement) : Draft :=
  ⟨{ l with diagnostics := l.diagnostics ++ s.faults },
    { statement := s, errored := s.faults.any (·.severity.isError) }⟩

/-- A comment is a record of nothing, with the faults of its reading. -/
theorem step_comment {s : Statement} (h : s.isComment = true) (l : Layout) :
    l.step s =
      ({ l with diagnostics := l.diagnostics ++ s.faults },
      [{ statement := s }]) := by
  simp [step, h]

/-- A statement in front of `END` is laid out with its label checked. -/
theorem step_eq_layOut (hended : l.ended = false) {s : Statement}
    (hcomment : s.isComment = false) :
    l.step s = layOutStatement (l.draftOf s).checkLabel := by
  simp [step, draftOf, hended, hcomment]

/-- A statement before the end leaves the program open. -/
theorem step_open (hended : l.ended = false) (hafter : l.afterEnd = false)
    {s : Statement}
    (hs : s.isComment = true ∨ s.mnemonic ≠ Statement.endMnemonic) :
    (l.step s).1.ended = false ∧ (l.step s).1.afterEnd = false := by
  cases hcomment : s.isComment with
  | true =>
      rw [step_comment hcomment]
      exact ⟨hended, hafter⟩
  | false =>
      have hreports := (l.draftOf s).steps_checkLabel.reports
      obtain ⟨hsame, hsame'⟩ :=
        layOutStatement_open (d := (l.draftOf s).checkLabel) fun hending => by
        rw [statement_checkLabel] at hending
        exact hs.elim (by simp [hcomment]) fun hmnemonic =>
          hmnemonic (ofMnemonic?_ending hending)
      rw [step_eq_layOut hended hcomment]
      exact ⟨hsame.trans (hreports.ended.trans hended),
        hsame'.trans (hreports.afterEnd.trans hafter)⟩

/-- Without an `END` a program does not end. -/
theorem run_open (hended : l.ended = false) (hafter : l.afterEnd = false)
    {statements : List Statement}
    (h : ∀ s ∈ statements, s.isComment = true ∨
      s.mnemonic ≠ Statement.endMnemonic) :
    (l.run statements).1.ended = false ∧
      (l.run statements).1.afterEnd = false := by
  induction statements generalizing l with
  | nil => exact ⟨hended, hafter⟩
  | cons s rest ih =>
      rw [List.forall_mem_cons] at h
      obtain ⟨hended', hafter'⟩ := step_open hended hafter h.1
      exact ih hended' hafter' h.2

/-- The end statement ends an open program. -/
theorem step_end (hended : l.ended = false) (hafter : l.afterEnd = false)
    {s : Statement}
    (hcomment : s.isComment = false) (hs : s.mnemonic = Statement.endMnemonic) :
    (l.step s).1.ended = true ∧ (l.step s).1.afterEnd = false := by
  rw [step_eq_layOut hended hcomment,
    layOutStatement_end (by rwa [statement_checkLabel])]
  obtain ⟨hended', hafter'⟩ := layOutEnd_ended { (l.draftOf s).checkLabel with
    record :=
      { (l.draftOf s).checkLabel.record with directive := some .ending } }
  exact ⟨hended', hafter'.trans
    ((l.draftOf s).steps_checkLabel.reports.afterEnd.trans hafter)⟩

/-! ### Behind the end -/

/-- A statement behind the end is only reported. -/
theorem step_ended (hended : l.ended = true) (s : Statement) :
    l.step s = ({ l with
      diagnostics := l.diagnostics ++ (s.faults ++
        if s.isComment || l.afterEnd then [] else [⟨s.position, .afterEnd⟩])
      afterEnd := l.afterEnd || !s.isComment }, [{ statement := s }]) := by
  unfold step
  cases hcomment : s.isComment <;> cases l.afterEnd <;> simp [hended, report]

/-- **Statements behind the end** are reported and have idle records. -/
theorem run_ended (hended : l.ended = true) (statements : List Statement) :
    ∃ extra, l.run statements = ({ l with
        diagnostics := l.diagnostics ++ extra
        afterEnd := l.afterEnd || statements.any (!·.isComment) },
      statements.map fun s => { statement := s }) ∧
      extra.Perm (statements.flatMap (·.faults) ++
        if l.afterEnd then [] else
          ((statements.find? (!·.isComment)).map fun s => ⟨s.position,
              .afterEnd⟩).toList) := by
  induction statements generalizing l with
  | nil => exact ⟨[], by simp [run], by simp⟩
  | cons s rest ih =>
      have hfirst := step_ended hended s
      obtain ⟨extra, hrun, hperm⟩ :=
        ih (l := (l.step s).1) (by rw [hfirst]; exact hended)
      refine ⟨s.faults ++
        (if s.isComment || l.afterEnd then [] else [⟨s.position, .afterEnd⟩]) ++
        extra, ?_, ?_⟩
      · simp only [run, hrun, List.map_cons]
        rw [hfirst]
        simp [Bool.or_assoc]
      · rw [hfirst] at hperm
        rw [List.flatMap_cons, List.append_assoc, List.append_assoc]
        refine List.Perm.append_left s.faults ?_
        cases hcomment : s.isComment with
        | true => simpa [hcomment] using hperm
        | false =>
            cases hafter : l.afterEnd with
            | true => simpa [hafter] using hperm
            | false =>
                -- the first statement that is no comment, whose report comes
                -- first
                have hrest : extra.Perm (rest.flatMap (·.faults)) := by
                  simpa [hcomment] using hperm
                simpa [hcomment] using (hrest.cons _).trans
                  (List.perm_append_singleton _ _).symm

/-- **A program that ends once** is ended by its last statement, behind which
nothing is. -/
theorem run_endsOnce {statements : List Statement}
    (h : Statement.EndsOnce statements) (hended : l.ended = false)
    (hafter : l.afterEnd = false) :
    (l.run statements).1.ended = true ∧
      (l.run statements).1.afterEnd = false := by
  obtain ⟨before, last, remarks, rfl, hbefore, hcomment, hlast, hremarks⟩ := h
  obtain ⟨hopen, hunmarked⟩ := run_open hended hafter hbefore
  obtain ⟨hclosed, hmark⟩ := step_end hopen hunmarked hcomment hlast
  rw [run_append]
  show (run (step _ _).1 _).1.ended = true ∧
    (run (step _ _).1 _).1.afterEnd = false
  obtain ⟨extra, hrun, -⟩ := run_ended hclosed remarks
  rw [hrun]
  exact ⟨hclosed, by simpa [hmark] using hremarks⟩

end Layout

/-! ### A text behind a source -/

/-- Two programs of which one has more to report of what is behind its end. -/
def Comparison.behindEnd (base extra : List Diagnostic) : Comparison where
  line := id
  cursors := Eq
  statements := Eq
  diagnostics := fun ds ds' => ∃ more, ds = base ++ more ∧
    ds' = base ++ extra ++ more
  marks := fun _ _ => True
  label := fun h => by rw [h]
  mnemonic := fun h => by rw [h]
  operands := fun h => by rw [h]
  lines := fun h => by rw [h]
  labelCursor := fun h => by rw [h]
  labelCharCursor := fun h _ => by rw [h]
  mnemonicCursor := fun h => by rw [h]
  operandCursor := fun h _ => by rw [h]
  operandsCursor := fun h => by rw [h]
  lineCursor := by
    rintro n n' h
    rw [show n' = n from h]
  report := by
    rintro _ _ x _ p p' ⟨more, rfl, rfl⟩ rfl hp
    have hid : ∀ p : Problem, p.mapLine id = p := fun p => by cases p <;> rfl
    rw [hid, hid] at hp
    exact ⟨more ++ [⟨x, p⟩], by simp, by simp [hp]⟩

theorem Record.alike_behindEnd (base extra : List Diagnostic) (r : Record) :
    r.Alike (.behindEnd base extra) r :=
  ⟨rfl, rfl, rfl, rfl, rfl, rfl, rfl, rfl, rfl, rfl, rfl⟩

/-- **Statements behind the end** add diagnostics to a program, and idle
records. -/
theorem Program.alike_behindEnd (options : Options)
    {statements : List Statement} (h : Statement.EndsOnce statements)
    (behind : List Statement) :
    ∃ base extra, extra.Perm (Statement.ignored behind) ∧
      (ofStatements options statements).Alike (.behindEnd base extra)
        (ofStatements options (statements ++ behind)) := by
  have hended := Layout.run_endsOnce (l := Layout.new options) h rfl rfl
  generalize hl : (Layout.new options).run statements = out at hended
  obtain ⟨l, records⟩ := out
  have hclosed : l.ended = true := hended.1
  have hunmarked : l.afterEnd = false := hended.2
  obtain ⟨extra, hrun, hperm⟩ := Layout.run_ended hclosed behind
  refine ⟨l.diagnostics,
    extra, by simpa [Statement.ignored, hunmarked] using hperm, ?_⟩
  have hlayout : l.Alike (.behindEnd l.diagnostics extra) (l.run behind).1 := by
    rw [hrun]
    refine ⟨rfl, rfl, ⟨[], by simp, by simp⟩, rfl, ?_, rfl, rfl, trivial, rfl⟩
    exact List.forall₂_same.mpr fun _ _ => ⟨rfl, rfl⟩
  have hidle : ∀ r ∈ (l.run behind).2, r.IsIdle := by
    rw [hrun]
    intro r hr
    obtain ⟨s, -, rfl⟩ := List.mem_map.mp hr
    rfl
  have hrecords : Aligned Record.IsIdle
      (Record.Alike (.behindEnd l.diagnostics extra)) records
      (records ++ (l.run behind).2) :=
    (Aligned.of_forall₂ (List.forall₂_same.mpr fun r _ =>
      r.alike_behindEnd _ _)).idle_append hidle
  have hcount := Layout.countP_isWaiting_aligned hrecords
  have hfinal : (l.run behind).1.ended = true := by
    rw [hrun]
    exact hclosed
  unfold ofStatements unplaced
  rw [Layout.run_append, hl]
  simp only [Layout.supplyEnd_ended hclosed, Layout.supplyEnd_ended hfinal,
    List.append_nil]
  exact Program.Alike.normalize (Layout.Agree.settleAll hlayout hrecords
    (Nat.lt_succ_of_le List.countP_le_length)
    (Nat.lt_succ_of_le (hcount ▸ List.countP_le_length)))

/-- Warnings make nothing worse. -/
theorem Diagnostic.isError_worst_warnings {ds ds' extra : List Diagnostic}
    (hperm : ds'.Perm (ds ++ extra))
    (hextra : ∀ d ∈ extra, d.severity = .warning) :
    (Diagnostic.worst ds').isError = (Diagnostic.worst ds).isError := by
  rw [Bool.eq_iff_iff, isError_worst_iff, isError_worst_iff]
  constructor
  · rintro ⟨d, hd, herror⟩
    rcases List.mem_append.mp (hperm.mem_iff.mp hd) with hd | hd
    · exact ⟨d, hd, herror⟩
    · rw [hextra d hd] at herror
      exact absurd herror (by decide)
  · rintro ⟨d, hd, herror⟩
    exact ⟨d, hperm.mem_iff.mpr (List.mem_append_left _ hd), herror⟩

/-- **Statements behind the end are passed over.**  A text behind a source whose
only end statement is its last one leaves the tables as they are, and adds to
the diagnostics one warning if there is a statement in it, and the faults of its
operand fields.  If it has none of these, the module and the deck are those of
the source; otherwise there are none. -/
theorem assemble_append (options : Options) {source text today : Bytes}
    {statements others : List Statement} (hcomplete : Statement.Complete source)
    (hread : Statement.readAll source = .ok statements)
    (hend : Statement.EndsOnce statements)
    (htext : Statement.readAll text = .ok others) :
    (∃ e, assemble options source today = .error e ∧
        assemble options (source ++ text) today = .error e) ∨
      ∃ a b behind, assemble options source today = .ok a ∧
        assemble options (source ++ text) today = .ok b ∧
        Statement.readAll (source ++ text) = .ok (statements ++ behind) ∧
        List.Forall₂ Statement.Twin others behind ∧
        b.symbols = a.symbols ∧ b.size = a.size ∧ b.deckId = a.deckId ∧
        b.diagnostics.Perm (a.diagnostics ++ Statement.ignored behind) ∧
        ((∀ s ∈ others, s.faults = []) → b.module? = a.module? ∧
          b.deck? = a.deck?) ∧
        ((∃ s ∈ others, s.faults ≠ []) → b.module? = none ∧
          b.deck? = none) := by
  obtain ⟨behind, hboth, htwins⟩ :=
    Statement.readAll_append hcomplete hread htext
  obtain ⟨base, extra, hextra, halike⟩ :=
    Program.alike_behindEnd options hend behind
  have houtcome := assemble_alike today hread hboth halike
  generalize assemble options source today = outcome at houtcome
  generalize assemble options (source ++ text) today = outcome' at houtcome
  cases houtcome with
  | error e => exact Or.inl ⟨e, rfl, rfl⟩
  | @ok a b hab =>
      obtain ⟨_, _, ⟨more, rfl, rfl⟩, hperm, hperm'⟩ := hab.diagnostics
      obtain ⟨m, hmodule, hmodule'⟩ := hab.modules
      have hsymbols : b.symbols = a.symbols := by
        rw [← b.symbols.mapLines_id, ← a.symbols.mapLines_id]
        exact hab.symbols
      have hdiagnostics :
          b.diagnostics.Perm (a.diagnostics ++ Statement.ignored behind) := by
        have hmoved : (base ++ extra ++ more).Perm (base ++ more ++ extra) := by
          rw [List.append_assoc, List.append_assoc]
          exact List.perm_append_comm.append_left base
        exact hperm'.trans (hmoved.trans (hperm.symm.append hextra))
      refine Or.inr ⟨a, b, behind, rfl, rfl, hboth, htwins, hsymbols, hab.size,
        hab.deckId, hdiagnostics, fun hnone => ?_, fun hsome => ?_⟩
      · rw [← Statement.twins_faults htwins] at hnone
        have hseverity : b.severity.isError = a.severity.isError :=
          Diagnostic.isError_worst_warnings hdiagnostics fun _ hd =>
            Statement.severity_ignored hnone hd
        have hsame : b.module? = a.module? := by
          rw [hmodule, hmodule', hseverity]
        exact ⟨hsame, by rw [hab.deck, hab.deck', hsame]⟩
      · obtain ⟨s, hs, hfaults⟩ : ∃ s ∈ behind, s.faults ≠ [] := by
          by_contra hnone
          push Not at hnone
          obtain ⟨s, hs, hfaults⟩ := hsome
          exact hfaults ((Statement.twins_faults htwins).mp hnone s hs)
        obtain ⟨d, hd⟩ := List.exists_mem_of_ne_nil _ hfaults
        have hsevere : d.severity = .severe :=
          (Statement.faults_readAll hboth s (List.mem_append_right _ hs)).1 d hd
        have hreported : d ∈ b.diagnostics := hdiagnostics.mem_iff.mpr
          (List.mem_append_right _
            (List.mem_append_left _ (List.mem_flatMap.mpr ⟨s, hs, hd⟩)))
        have hsevered : b.severity.isError = true :=
          (Diagnostic.isError_worst_iff _).mpr ⟨d,
            hreported, by rw [hsevere]; rfl⟩
        have hnone : b.module? = none := by rw [hmodule', hsevered]; rfl
        exact ⟨hnone, by rw [hab.deck', hnone]; rfl⟩

/-- A small source with a statement behind it, and with one whose string is not
ended. -/
theorem assemble_append_small :
    ∃ a b c, assemble {} (bytes "A CSECT\n LR 1,2\n END\n") = .ok a ∧
      a.deck?.isSome ∧
      assemble {} (bytes "A CSECT\n LR 1,2\n END\n" ++ bytes " DC C'X'\n") =
        .ok b ∧
      b.deck? = a.deck? ∧
      assemble {} (bytes "A CSECT\n LR 1,2\n END\n" ++ bytes " DC C'X\n") =
        .ok c ∧
      c.deck? = none ∧ b.symbols = a.symbols ∧ c.symbols = a.symbols := by
  have hcheck : (assemble {} (bytes "A CSECT\n LR 1,2\n END\n")).toOption.any
      (·.deck?.isSome) = true := by decide +kernel
  obtain ⟨_, hrun, hdeck⟩ := exists_ok_of_any hcheck
  have hlines : Line.ofSource (bytes "A CSECT\n LR 1,2\n END\n") = .ok _ :=
    Line.ofSource_of_short (by decide +kernel)
  have hread := Statement.readAll_of_lines hlines
  have hcomplete : Statement.Complete (bytes "A CSECT\n LR 1,2\n END\n") :=
    ⟨Or.inr (by decide +kernel), _, hlines, by decide +kernel⟩
  have hend : Statement.EndsOnce (Statement.ofSourceLines
      (Line.enumerate 1 0 (Line.pieces (bytes "A CSECT\n LR 1,2\n END\n")))) :=
    ⟨List.dropLast _, List.getLast _ (by decide +kernel), [],
      (List.dropLast_append_getLast _).symm,
      by decide +kernel, by decide +kernel, by decide +kernel, by simp⟩
  have htext : Statement.readAll (bytes " DC C'X'\n") = .ok _ :=
    Statement.readAll_of_lines (Line.ofSource_of_short (by decide +kernel))
  have htext' : Statement.readAll (bytes " DC C'X\n") = .ok _ :=
    Statement.readAll_of_lines (Line.ofSource_of_short (by decide +kernel))
  rcases assemble_append {} hcomplete hread hend htext with
    ⟨e, he, -⟩ | ⟨a, b, -, ha, hb, -, -, hsymbols, -, -, -, hclean, -⟩
  · cases hrun.symm.trans he
  rcases assemble_append {} hcomplete hread hend htext' with
    ⟨e, he, -⟩ | ⟨a', c, -, ha', hc, -, -, hsymbols', -, -, -, -, hfaulty⟩
  · cases hrun.symm.trans he
  obtain rfl : a = a' := Except.ok.inj (ha.symm.trans ha')
  obtain rfl := Except.ok.inj (ha.symm.trans hrun)
  exact ⟨a, b, c, ha, hdeck, hb, (hclean (by decide +kernel)).2, hc,
    (hfaulty (by decide +kernel)).2, hsymbols, hsymbols'⟩

end System370
