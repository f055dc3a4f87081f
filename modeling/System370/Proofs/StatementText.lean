import System370.Proofs.ComparedAssemblies
import System370.Proofs.SourceLines

/-!
# The code depends on the text of the statements

Where the statements of a source stand, and what else stands in it, has no
influence on the code.  Two sources with the same labels, mnemonics and
operands, and with as many faults of operand fields, statement by statement,
have the same module and the same tables up to numbers of lines, or fail in the
same way.  Comments count for nothing.

The programs of such sources are compared by `Comparison.byText`, which looks at
no position at all, and at the severities of diagnostics only.

* `Program.alike_byText` compares the programs;
* `assemble_sameText` compares the assemblies, also for comments that are put in
  and for columns that are not looked at.
-/

namespace System370

/-- Statements and diagnostics are compared without their positions. -/
def Comparison.byText : Comparison where
  line := fun _ => 0
  cursors := fun _ _ => True
  statements := fun s s' =>
    s.Twin s' ∧ s'.faults.map (·.severity) = s.faults.map (·.severity)
  diagnostics := fun ds ds' => ds'.map (·.severity) = ds.map (·.severity)
  marks := fun b b' => b' = b
  label := fun h => h.1.label
  mnemonic := fun h => h.1.mnemonic
  operands := fun h => h.1.operands
  lines := fun _ => rfl
  labelCursor := fun _ => trivial
  labelCharCursor := fun _ _ => trivial
  mnemonicCursor := fun _ => trivial
  operandCursor := fun _ _ => trivial
  operandsCursor := fun _ => trivial
  lineCursor := fun _ => trivial
  report := by
    intro ds ds' x x' p p' hds _ hp
    have hseverity : p'.severity = p.severity := by
      rw [← p'.severity_mapLine fun _ => 0, hp, p.severity_mapLine]
    rw [List.map_append, List.map_append, hds]
    exact congrArg (fun severity => _ ++ [severity]) hseverity

theorem Comparison.whole_byText : byText.Whole where
  isComment := fun h => h.1.isComment
  position := fun _ => trivial
  faults := by
    intro s s' ds ds' hs hds
    show List.map _ _ = List.map _ _
    rw [List.map_append, List.map_append, hs.2, show _ = _ from hds]
  serious := by
    intro s s' hs
    have hmap : ∀ ds : List Diagnostic, ds.any (·.severity.isError) =
        (ds.map (·.severity)).any (·.isError) := fun ds => by
      rw [List.any_map]; rfl
    rw [hmap, hs.2, ← hmap]
  marks := fun h => h
  marked := rfl

/-- Whether a statement is a comment without faults. -/
def Statement.IsRemark (s : Statement) : Prop :=
  s.isComment = true ∧ s.faults = []

namespace Layout

variable {l l' : Layout} {s s' : Statement}

/-- A remark is a record of nothing. -/
theorem step_remark (h : s.IsRemark) :
    l.step s = (l, [{ statement := s }]) := by
  simp [Layout.step, h.1, h.2]

/-- **Statements** are laid out by their texts, whatever remarks stand between
them. -/
theorem Alike.run {statements statements' : List Statement}
    (h : l.Alike .byText l')
    (hs : Aligned Statement.IsRemark Comparison.byText.statements
      statements statements') :
    Agree .byText (l.run statements) (l'.run statements') := by
  induction hs generalizing l l' with
  | nil => exact ⟨h, .nil⟩
  | cons hs _ ih =>
      have hfirst := (h.step Comparison.whole_byText hs).agree
      have hrest := ih hfirst.layout
      exact ⟨hrest.layout, hfirst.records.append hrest.records⟩
  | left hremark _ ih =>
      simp only [Layout.run, step_remark hremark]
      exact ⟨(ih h).layout, .left rfl (ih h).records⟩
  | right hremark _ ih =>
      simp only [Layout.run, step_remark hremark]
      exact ⟨(ih h).layout, .right rfl (ih h).records⟩

/-- The end statement that is supplied is the same wherever it is put. -/
theorem Alike.supplyEnd (h : l.Alike .byText l')
    (statements statements' : List Statement) :
    Agree .byText (l.supplyEnd statements) (l'.supplyEnd statements') := by
  unfold Layout.supplyEnd
  rw [h.ended]
  split
  · exact ⟨h, .nil⟩
  · have hsupplied : ∀ (cursor cursor' : Cursor) (line line' : Nat),
        Agree .byText
        ((l.report ⟨cursor, .missingEnd⟩).step (suppliedEnd line))
        ((l'.report ⟨cursor', .missingEnd⟩).step (suppliedEnd line')) := by
      intro cursor cursor' line line'
      have hreported : Layout.Alike .byText (l.report ⟨cursor, .missingEnd⟩)
          (l'.report ⟨cursor', .missingEnd⟩) :=
        { h with diagnostics :=
          Comparison.byText.report h.diagnostics trivial rfl }
      have hends :
          Comparison.byText.statements (suppliedEnd line) (suppliedEnd line') :=
        ⟨⟨⟨rfl, rfl, rfl, rfl⟩, rfl⟩, rfl⟩
      exact (hreported.step Comparison.whole_byText hends).agree
    exact hsupplied _ _ _ _

end Layout

/-- **Programs** depend on the texts of their statements. -/
theorem Program.alike_byText (options : Options)
    {statements statements' : List Statement}
    (h : Aligned Statement.IsRemark Comparison.byText.statements
      statements statements') :
    (ofStatements options statements).Alike .byText
      (ofStatements options statements') := by
  have hnew : (Layout.new options).Alike .byText (Layout.new options) :=
    ⟨rfl, rfl, rfl, rfl, .nil, rfl, rfl, rfl, rfl⟩
  have hrun := hnew.run h
  have hsupplied := hrun.layout.supplyEnd statements statements'
  have hrecords := hrun.records.append hsupplied.records
  have hcount := Layout.countP_isWaiting_aligned hrecords
  exact Program.Alike.normalize
    (Layout.Agree.settleAll hsupplied.layout hrecords
    (Nat.lt_succ_of_le List.countP_le_length)
    (Nat.lt_succ_of_le (hcount ▸ List.countP_le_length)))

/-- The worst of some diagnostics depends on their severities, in any order. -/
theorem Diagnostic.worst_perm {diagnostics diagnostics' : List Diagnostic}
    (h : (diagnostics'.map (·.severity)).Perm (diagnostics.map (·.severity))) :
    worst diagnostics' = worst diagnostics := by
  have hfold : ∀ ds : List Diagnostic,
      worst ds = (ds.map (·.severity)).foldl Severity.max .none :=
    fun ds => by rw [List.foldl_map]; rfl
  have hcomm : ∀ s t u : Severity, (s.max t).max u = (s.max u).max t := by
    intro s t u
    cases s <;> cases t <;> cases u <;> rfl
  rw [hfold, hfold]
  exact h.foldl_eq' (fun t _ u _ s => hcomm s t u) _

/-- Two assemblies with the same code: they have the same module and deck, if
any, the same tables but for numbers of lines, and the same return code. -/
structure Assembly.SameCode (a a' : Assembly) : Prop where
  module : a'.module? = a.module?
  deck : a'.deck? = a.deck?
  symbols : a'.symbols.mapLines (fun _ => 0) = a.symbols.mapLines (fun _ => 0)
  size : a'.size = a.size
  returnCode : a'.returnCode = a.returnCode

/-- Two outcomes with the same code, or with the same failure. -/
inductive Outcome.SameCode :
    Except Fatal Assembly → Except Fatal Assembly → Prop
  | error (e : Fatal) : SameCode (.error e) (.error e)
  | ok {a a' : Assembly} : a.SameCode a' → SameCode (.ok a) (.ok a')

/-- Outcomes that are alike have the same code. -/
theorem Outcome.Alike.sameCode {outcome outcome' : Except Fatal Assembly}
    (h : Outcome.Alike .byText outcome outcome') :
    Outcome.SameCode outcome outcome' := by
  cases h with
  | error e => exact .error e
  | @ok a a' ha =>
      obtain ⟨ds, ds', hds, hperm, hperm'⟩ := ha.diagnostics
      obtain ⟨m, hmodule, hmodule'⟩ := ha.modules
      have hseverity : a'.severity = a.severity := by
        refine Diagnostic.worst_perm ((hperm'.map _).trans ?_)
        rw [show ds'.map (·.severity) = ds.map (·.severity) from hds]
        exact (hperm.map _).symm
      have hsame : a'.module? = a.module? := by
        rw [hmodule, hmodule', hseverity]
      exact .ok ⟨hsame, by rw [ha.deck, ha.deck', hsame], ha.symbols, ha.size,
        congrArg Severity.returnCode hseverity⟩

/-- The faults of statements that were read have the same severities if they are
as many. -/
theorem Statement.severities_eq {s s' : Statement}
    (h : s'.faults.length = s.faults.length)
    (hsevere : ∀ d ∈ s.faults, d.severity = .severe)
    (hsevere' : ∀ d ∈ s'.faults, d.severity = .severe) :
    s'.faults.map (·.severity) = s.faults.map (·.severity) := by
  rw [List.map_eq_replicate_iff.mpr hsevere,
    List.map_eq_replicate_iff.mpr hsevere', h]

/-- Sources whose statements correspond, comments aside, have the same code. -/
theorem sameCode_of_statements (options : Options) (today : Bytes)
    {source source' : Bytes} {statements statements' : List Statement}
    (hread : Statement.readAll source = .ok statements)
    (hread' : Statement.readAll source' = .ok statements')
    (h : List.Forall₂ Statement.SameText (statements.filter (!·.isComment))
      (statements'.filter (!·.isComment))) :
    Outcome.SameCode (assemble options source today)
      (assemble options source' today) := by
  have hfaults := Statement.faults_readAll hread
  have hfaults' := Statement.faults_readAll hread'
  have hsame : ∀ {ss ss' : List Statement},
      (∀ s ∈ ss, s.isComment = false ∧ ∀ d ∈ s.faults, d.severity = .severe) →
      (∀ s ∈ ss', s.isComment = false ∧ ∀ d ∈ s.faults, d.severity = .severe) →
      List.Forall₂ Statement.SameText ss ss' →
        List.Forall₂ Comparison.byText.statements ss ss' := by
    intro ss ss' hs hs' hall
    induction hall with
    | nil => exact .nil
    | cons htext _ ih =>
        rw [List.forall_mem_cons] at hs hs'
        exact .cons ⟨⟨htext, hs'.1.1.trans hs.1.1.symm⟩,
          Statement.severities_eq htext.faults hs.1.2 hs'.1.2⟩ (ih hs.2 hs'.2)
  have hboth := hsame
    (fun s hs => ⟨by simpa using (List.mem_filter.mp hs).2,
      (hfaults s (List.mem_filter.mp hs).1).1⟩)
    (fun s hs => ⟨by simpa using (List.mem_filter.mp hs).2,
      (hfaults' s (List.mem_filter.mp hs).1).1⟩) h
  exact (assemble_alike today hread hread' (Program.alike_byText options
    (Aligned.of_filter
      (fun s hs hcomment => ⟨hcomment, (hfaults s hs).2 hcomment⟩)
      (fun s hs hcomment => ⟨hcomment, (hfaults' s hs).2 hcomment⟩)
        hboth))).sameCode

/-- A source that cannot be read. -/
theorem assemble_unreadable (options : Options) (today : Bytes) {source : Bytes}
    {e : ReadError} (h : Statement.readAll source = .error e) :
    assemble options source today = .error (.unreadable e) := by
  unfold assemble Workspace.run
  simp only [h]

/-- Comments between statements have no influence on the code. -/
theorem sameCode_of_remarks (options : Options) (today : Bytes)
    {before comments : Bytes} (after : Bytes)
    {remarks : List Statement} (hbefore : Statement.Complete before)
    (hcomments : Statement.Complete comments)
    (hread : Statement.readAll comments = .ok remarks)
    (hremarks : ∀ s ∈ remarks, s.isComment = true) :
    Outcome.SameCode (assemble options (before ++ after) today)
      (assemble options (before ++ (comments ++ after)) today) := by
  obtain ⟨lines, hlines, -⟩ := hbefore.closed
  have hstatements := Statement.readAll_of_lines hlines
  cases hafter : Statement.readAll after with
  | error e =>
      rw [assemble_unreadable options today
        (Statement.readAll_append_error hbefore.ended hafter),
        assemble_unreadable options today
          (Statement.readAll_append_error hbefore.ended
          (Statement.readAll_append_error hcomments.ended hafter))]
      exact .error _
  | ok others =>
      obtain ⟨behind, hshort, htwins⟩ :=
        Statement.readAll_append hbefore hstatements hafter
      obtain ⟨behind', hcommented, htwins'⟩ :=
        Statement.readAll_append hcomments hread hafter
      obtain ⟨rest, hlong, hrest⟩ :=
        Statement.readAll_append hbefore hstatements hcommented
      refine sameCode_of_statements options today hshort hlong ?_
      rw [List.filter_append, List.filter_append]
      refine List.rel_append
        (List.forall₂_same.mpr fun _ _ => ⟨rfl, rfl, rfl, rfl⟩) ?_
      have hnone : remarks.filter (!·.isComment) = [] :=
        List.filter_eq_nil_iff.mpr fun s hs => by simp [hremarks s hs]
      have hbusy := Statement.twins_filter hrest
      rw [List.filter_append, hnone, List.nil_append] at hbusy
      exact (Statement.twins_trans
        (Statement.twins_filter (Statement.twins_trans
        (Statement.twins_symm htwins) htwins')) hbusy).imp fun _ _ hs =>
          hs.toSameText

/-- **The code depends on the text of the statements.**  Sources whose
statements have the same labels, mnemonics, operands and numbers of faults,
comments aside, have the same code; so have a source and the source with
comments put in between its statements, and so have sources whose lines agree up
to column 72. -/
theorem assemble_sameText (options : Options) (today : Bytes) :
    (∀ {source source' : Bytes} {statements statements' : List Statement},
      Statement.readAll source = .ok statements →
        Statement.readAll source' = .ok statements' →
      List.Forall₂ Statement.SameText (statements.filter (!·.isComment))
        (statements'.filter (!·.isComment)) →
      Outcome.SameCode (assemble options source today)
        (assemble options source' today)) ∧
    (∀ {before comments after : Bytes} {remarks : List Statement},
      Statement.Complete before → Statement.Complete comments →
      Statement.readAll comments = .ok remarks →
        (∀ s ∈ remarks, s.isComment = true) →
      Outcome.SameCode (assemble options (before ++ after) today)
        (assemble options (before ++ (comments ++ after)) today)) ∧
    (∀ {source source' : Bytes} {lines lines' : List Line},
      Line.ofSource source = .ok lines → Line.ofSource source' = .ok lines' →
      List.Forall₂ Line.SameColumns lines lines' →
      Outcome.SameCode (assemble options source today)
        (assemble options source' today)) := by
  refine ⟨sameCode_of_statements options today,
    sameCode_of_remarks options today _, ?_⟩
  intro source source' lines lines' hlines hlines' hsame
  exact sameCode_of_statements options today (Statement.readAll_of_lines hlines)
    (Statement.readAll_of_lines hlines')
    ((Statement.twins_filter (Statement.twins_of_sameColumns hsame)).imp
      fun _ _ hs => hs.toSameText)

/-- A small source, the same with comments and a note, and the same with its
lines numbered behind column 72. -/
theorem assemble_sameText_small :
    (∃ a, assemble {} (bytes "A CSECT\n LR 1,2\n END\n") = .ok a ∧
      a.deck?.isSome) ∧
      Outcome.SameCode (assemble {} (bytes "A CSECT\n LR 1,2\n END\n"))
        (assemble {} (bytes "* first\nA CSECT\n LR 1,2 copied\n*\n END\n")) ∧
      Outcome.SameCode
        (assemble {} (bytes "A CSECT\n" ++ bytes " LR 1,2\n END\n"))
        (assemble {} (bytes "A CSECT\n" ++
          (bytes "* second\n\n" ++ bytes " LR 1,2\n END\n"))) ∧
      Outcome.SameCode
        (assemble {}
          (bytes "A CSECT" ++ List.replicate 65 blank ++ bytes "00000010\n"))
        (assemble {} (bytes "A CSECT" ++ List.replicate 65 blank ++
          bytes "00000020\n")) := by
  obtain ⟨hstatements, hremarks, hcolumns⟩ := assemble_sameText {} []
  have hcheck : (assemble {} (bytes "A CSECT\n LR 1,2\n END\n")).toOption.any
      (·.deck?.isSome) = true := by decide +kernel
  refine ⟨exists_ok_of_any hcheck, ?_, ?_, ?_⟩
  · exact hstatements
      (Statement.readAll_of_lines (Line.ofSource_of_short (by decide +kernel)))
      (Statement.readAll_of_lines (Line.ofSource_of_short (by decide +kernel)))
        (by decide +kernel)
  · exact hremarks ⟨Or.inr (by decide +kernel), _,
      Line.ofSource_of_short (by decide +kernel), by decide +kernel⟩
      ⟨Or.inr (by decide +kernel), _,
        Line.ofSource_of_short (by decide +kernel), by decide +kernel⟩
      (Statement.readAll_of_lines (Line.ofSource_of_short (by decide +kernel)))
        (by decide +kernel)
  · exact hcolumns (Line.ofSource_of_short (by decide +kernel))
      (Line.ofSource_of_short (by decide +kernel)) (by decide +kernel)

end System370
