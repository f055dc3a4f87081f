import Mathlib.Data.List.Induction
import System370.Proofs.AfterEnd

/-!
# Which statement opened a section

A control section with a label comes from one statement: the first section
statement of that label.  Later ones resume the section.  The invariant of the
layout is that every such section can be traced back to its statement, and that
its label still has the value which it got there: the location that the
statement gives (`Statement.origin`) in the section.

Only section statements have to be looked at.  All others are sequences of small
steps, and a small step starts no section with a label (`Draft.Steps.labelled`).

* `Layout.sectioned_step` is the step: what a statement does to the sections
  with labels;
* `Layout.traced_run` is the run, and `Program.traced_unplaced` the whole
  program.
-/

namespace System370

/-- The location that an operand gives to a section which begins at zero, zero
if the operand is no such location. -/
def SymbolTable.startOf (t : SymbolTable) (id : Int) (text : Bytes) : Int64 :=
  match (Expression.absolute t ⟨id, 0, 1⟩ text).result with
  | .ok n => if n < 0 then 0 else alignUp n 8
  | .error _ => 0

/-- The location that a section statement gives to the section that it opens.
Only a start statement gives one; all others begin at zero.  `t` is the table
that the operand is read in. -/
def Statement.origin (s : Statement) (t : SymbolTable) (id : Int) : Int64 :=
  match Directive.ofMnemonic? s.mnemonic, s.operands with
  | some .start, text :: _ => t.startOf id text
  | _, _ => 0

/-- Only the operand of `START` moves the origin of a section. -/
theorem Statement.origin_eq_zero {s : Statement}
    (h : Directive.ofMnemonic? s.mnemonic ≠ some .start ∨ s.operands = [])
    (t : SymbolTable) (id : Int) : s.origin t id = 0 := by
  unfold origin
  split
  · rename_i hstart hoperands
    rcases h with hother | hnone
    · exact absurd hstart hother
    · simp [hnone] at hoperands
  · rfl

namespace SymbolTable

variable {t t' : SymbolTable}

/-- The control sections with labels, in order, each with its number. -/
def labelled (t : SymbolTable) : List (Int × Bytes) :=
  (t.sections.map fun s => (s.id, s.label)).filter (·.2 ≠ [])

/-- The sections with labels. -/
theorem mem_labelled {id : Int} {label : Bytes} :
    (id, label) ∈ t.labelled ↔ label ≠ [] ∧ ∃ s ∈ t.sections,
    s.id = id ∧ s.label = label := by
  simp [labelled, and_comm]

/-- The statement that opens a section with a label: the section is new, and
`t'` is the table right behind its start. -/
structure Opens (t : SymbolTable) (s : Statement) (id : Int) (name : Bytes)
    (t' : SymbolTable) :
    Prop where
  directive : ∃ directive, Directive.ofMnemonic? s.mnemonic = some directive ∧
    (directive = .start ∨ directive = .csect ∨ directive = .rsect)
  label : toUpper s.label = name
  spelled : Draft.badLabelChar? s.label = none
  number : id = t.sections.length + 1
  opened : t.openSection name .named s.line = .ok t'

/-- What a statement does to the control sections with labels: nothing, or it
opens one, and defines its label. -/
inductive Sectioned (t : SymbolTable) (s : Statement) (t' : SymbolTable) : Prop
  | same (h : t'.labelled = t.labelled)
  | opens {id : Int} {name : Bytes} {u : SymbolTable} {x : Definition}
      (hopens : t.Opens s id name u)
      (hlabelled : t'.labelled = t.labelled ++ [(id, name)])
      (hx : t'.definition? name = some x)
        (hvalue : x.value = .relocatable (s.origin u id) id)

/-! ### Tables with the same labels -/

/-- Tables with the same sections have the same labels. -/
theorem Still.labelled (h : Still t t') : t'.labelled = t.labelled := by
  unfold SymbolTable.labelled
  rw [h.sections]

/-- A section that moves keeps its label. -/
theorem labelled_modifySection (t : SymbolTable) (n : Int)
    {f : Section → Section} (hf : Moves f) :
    (t.modifySection n f).labelled = t.labelled := by
  have hsame : ∀ i, (t.sections.modify i f).map (fun s => (s.id, s.label)) =
      t.sections.map fun s => (s.id, s.label) := by
    intro i
    refine List.ext_getElem? fun k => ?_
    rw [List.getElem?_map, List.getElem?_map, List.getElem?_modify]
    cases t.sections[k]? with
    | none => rfl
    | some s => split <;> simp [hf.id, hf.label]
  unfold modifySection labelled
  split
  · simp only [hsame]
  · split <;> rfl

theorem labelled_modifyCurrent (t : SymbolTable) {f : Section → Section}
    (hf : Moves f) :
    (t.modifyCurrent f).labelled = t.labelled := by
  unfold modifyCurrent
  split
  · exact labelled_modifySection t _ hf
  · rfl

/-- The location counter defines nothing. -/
theorem definition?_setLoc (t : SymbolTable) (loc : Int64) (name : Bytes) :
    (t.setLoc loc).definition? name = t.definition? name := by
  unfold setLoc modifyCurrent
  split
  · rename_i id _
    obtain ⟨-, -, -, hsymbols, -⟩ := modifySection_frame t id (·.setLoc loc)
    simp only [definition?, symbol?, hsymbols]
  · rfl

/-! ### Opening a section -/

/-- Opening a section resumes one, or starts one. -/
theorem openSection_cases {label : Bytes} {kind : SectionKind} {line : Int}
    (h : t.openSection label kind line = .ok t') :
    (∃ s, t.sectionOfLabel? label (kind = .dummy) = some s ∧
      t' = { t.freeze.modifySection s.id Section.resume with
        current := some s.id }) ∨
      t.startSection label kind line = .ok t' := by
  unfold openSection at h
  split at h
  · rename_i s hs
    split at h
    · simp at h
    · exact .inl ⟨s, hs, (Except.ok.inj h).symm⟩
  · split at h
    · simp at h
    · exact .inr h

/-- A section that is resumed keeps its label. -/
theorem labelled_resume (t : SymbolTable) (id : Int) (current : Option Int) :
    ({ t.freeze.modifySection id Section.resume with current } :
      SymbolTable).labelled =
      t.labelled :=
  (labelled_modifySection t.freeze id moves_resume).trans
    (labelled_modifyCurrent t moves_freeze)

/-- A section without a label, or a dummy section, is not among the labelled
ones. -/
theorem labelled_startSection {label : Bytes} {kind : SectionKind}
    {line : Int} (h : t.startSection label kind line = .ok t')
    (hplain : label = [] ∨ kind = .dummy) :
    t'.labelled = t.labelled := by
  have hfreeze : t.freeze.labelled = t.labelled :=
    labelled_modifyCurrent t moves_freeze
  unfold startSection at h
  simp only at h
  split at h
  · rename_i hlabel
    obtain rfl := Except.ok.inj h
    split
    · exact hfreeze
    · rw [← hfreeze]
      simp [labelled, hlabel]
  · rename_i hlabel
    rw [(still_define h).labelled, if_pos (hplain.resolve_left hlabel)]
    exact hfreeze

/-- **A new section with a label** is the last of the labelled ones, it is the
current one, and its label is its beginning. -/
theorem startSection_named {label : Bytes} {line : Int}
    (hne : label ≠ []) (h : t.startSection label .named line = .ok t') :
    t'.labelled = t.labelled ++ [((t.sections.length + 1 : Int), label)] ∧
      t'.currentSection? =
        some { id := t.sections.length + 1, label, kind := .named, line } ∧
      ∃ x, t'.definition? label = some x ∧
      x.value = .relocatable 0 (t.sections.length + 1) := by
  have hfreeze : t.freeze.labelled = t.labelled :=
    labelled_modifyCurrent t moves_freeze
  have hlength : t.freeze.sections.length = t.sections.length :=
    (length_sections_modifyCurrent t Section.freeze).1
  unfold startSection at h
  simp only [reduceCtorEq, if_false, hne] at h
  have hstill := still_define h
  refine ⟨?_, ?_, ⟨_, 1, Definition.sectionKind, line⟩, ?_, rfl⟩
  · rw [hstill.labelled, ← hfreeze]
    simp [labelled, hne]
  · rw [hstill.currentSection?]
    have hpos : (0 : Int) < t.sections.length + 1 := by omega
    have hindex : ((t.sections.length : Int) + 1).toNat - 1 =
        t.freeze.sections.length := by
      omega
    simp only [currentSection?, section?, Option.bind_some, if_pos hpos, hindex]
    exact List.getElem?_concat_length
  · exact (definition?_define h label).2.trans (if_pos rfl)

end SymbolTable

/-! ### Statements that open no section -/

namespace Draft

variable {d d' : Draft}

/-- A small step starts no section with a label. -/
theorem Step.labelled (h : d.Step d') :
    d'.layout.symbols.labelled = d.layout.symbols.labelled := by
  cases h with
  | report _ _ => rfl
  | refuse _ _ => rfl
  | record _ _ _ => rfl
  | layout hsymbols _ _ _ _ => exact congrArg SymbolTable.labelled hsymbols
  | symbols h =>
      cases h with
      | reference names r =>
          exact (SymbolTable.still_references names r _).labelled
      | define h => exact (SymbolTable.still_define h).labelled
      | referenceExternal _ _ =>
          exact (SymbolTable.still_referenceExternal _ _ _).labelled
      | declareExternal h =>
          exact (SymbolTable.still_declareExternal h).labelled
      | addEntry _ _ => exact (SymbolTable.still_addEntry _ _ _).labelled
      | setLoc loc =>
          exact SymbolTable.labelled_modifyCurrent _
            (SymbolTable.moves_setLoc loc)
      | openUnnamed h =>
          rcases SymbolTable.openSection_cases h with ⟨s, -, rfl⟩ | hstart
          · exact SymbolTable.labelled_resume _ _ _
          · exact SymbolTable.labelled_startSection hstart (.inl rfl)

/-- No step of the layout of a statement opens a section with a label. -/
theorem Steps.labelled (h : d.Steps d') :
    d'.layout.symbols.labelled = d.layout.symbols.labelled :=
  h.lift (R := fun d d' => d'.layout.symbols.labelled =
    d.layout.symbols.labelled) (fun _ => rfl)
    (fun h h' => h'.trans h) Step.labelled

/-! ### Section statements -/

/-- Nor does the operand of `START`. -/
theorem labelled_startAt (d : Draft) (text : Bytes) :
    (d.startAt text).layout.symbols.labelled = d.layout.symbols.labelled := by
  have hvalue := d.steps_absolute text
  unfold startAt
  simp only
  split
  · exact (hvalue.report _ _).labelled
  · split
    · exact (hvalue.report _ _).labelled
    · have hmoved := fun loc => ((hvalue.setLoc loc).withLoc loc).labelled
      split
      · exact hmoved _
      · exact hmoved _

/-- **The start of a section** is the value of its label from then on. -/
theorem definition?_startAt (d : Draft)
    {x : Definition} (hplace : d.record.place = ⟨d.record.sectionId, 0, 1⟩)
    (hlabel : d.record.label ≠ [])
    (hx : d.layout.symbols.definition? d.record.label = some x)
    (hvalue : x.value = .relocatable 0 d.record.sectionId) (text : Bytes) :
    ∃ y, (d.startAt text).layout.symbols.definition? d.record.label = some y ∧
      y.value = .relocatable (d.layout.symbols.startOf d.record.sectionId text)
        d.record.sectionId := by
  have hresult : (d.absolute text).1 =
      (Expression.absolute d.layout.symbols ⟨d.record.sectionId, 0,
        1⟩ text).result := by
    rw [← hplace]
    rfl
  have hread : (d.absolute text).2.layout.symbols.definition? d.record.label =
      some x :=
    ((Generate.references_spec _ _ _).2 _).trans hx
  unfold startAt SymbolTable.startOf
  simp only [hresult]
  cases (Expression.absolute d.layout.symbols ⟨d.record.sectionId, 0,
    1⟩ text).result with
  | error problem => exact ⟨x, hread, hvalue⟩
  | ok n =>
      simp only
      split
      · exact ⟨x, hread, hvalue⟩
      · have hset :=
          (SymbolTable.definition?_setLoc _ (alignUp n 8) _).trans hread
        rw [if_neg (show (((d.absolute text).2.setLoc (alignUp n 8)).withLoc
          (alignUp n 8)).record.label ≠ [] from hlabel)]
        refine
          ⟨{ x with value := .relocatable (alignUp n 8) d.record.sectionId },
          ?_, rfl⟩
        refine (SymbolTable.definition?_move _ _ _ _).trans
          ((if_pos rfl).trans ?_)
        exact congrArg (Option.map fun y : Definition =>
          { y with value := .relocatable (alignUp n 8) d.record.sectionId })
            hset

/-- Nor does a section without a label, or a dummy one. -/
theorem labelled_openSection (d : Draft) (kind : SectionKind)
    (hplain : d.record.label = [] ∨ kind = .dummy) :
    (d.openSection kind).layout.symbols.labelled = d.layout.symbols.labelled := by
  unfold openSection
  split
  · rfl
  · rename_i t ht
    refine (steps_locate _).labelled.trans ?_
    show t.labelled = d.layout.symbols.labelled
    rcases SymbolTable.openSection_cases ht with ⟨s, -, rfl⟩ | hstart
    · exact SymbolTable.labelled_resume _ _ _
    · exact SymbolTable.labelled_startSection hstart hplain

/-- Whether a record has the label of its statement, which is a symbol, in
capitals. -/
def Labelled (d : Draft) : Prop :=
  badLabelChar? d.statement.label = none ∧
    d.record.label = toUpper d.statement.label

/-- A draft whose record stands at the beginning of a new section. -/
def beginning (d : Draft) (id : Int) (t : SymbolTable) : Draft :=
  { layout := { d.layout with symbols := t }
    record := { d.record with body := .located, sectionId := id, loc := 0 } }

/-- **A section with a label** is resumed, or it is new and its record stands at
its beginning. -/
theorem openSection_named {d : Draft} (hne : d.record.label ≠ []) :
    (d.openSection .named).layout.symbols.labelled = d.layout.symbols.labelled ∨
      ∃ (id : Int) (t : SymbolTable) (x : Definition),
        id = d.layout.symbols.sections.length + 1 ∧
        d.layout.symbols.openSection d.record.label .named d.statement.line =
          .ok t ∧
        d.openSection .named = d.beginning id t ∧
        t.labelled = d.layout.symbols.labelled ++ [(id, d.record.label)] ∧
        (t.currentSection?.all (!·.continued)) = true ∧
        t.definition? d.record.label = some x ∧ x.value = .relocatable 0 id := by
  unfold openSection
  split
  · exact .inl rfl
  · rename_i t ht
    rcases SymbolTable.openSection_cases ht with ⟨s, -, rfl⟩ | hstart
    · exact .inl
        ((steps_locate _).labelled.trans (SymbolTable.labelled_resume _ _ _))
    · obtain ⟨hlabelled, hcurrent, x, hx, hvalue⟩ :=
        SymbolTable.startSection_named hne hstart
      have hlocate :
          ((d.mapSymbols fun _ => t).withBody .located).currentSection? = _ :=
        hcurrent
      refine .inr ⟨_, t, x, rfl, ht, ?_, hlabelled, by rw [hcurrent]; rfl,
        hx, hvalue⟩
      rw [locate, hlocate]
      rfl

/-- The operand of a section statement opens no section. -/
theorem labelled_layOutSection (d : Draft) {directive : Directive}
    (h : directive ≠ .dsect) :
    (d.layOutSection directive).layout.symbols.labelled =
      (d.openSection (if d.record.label = [] then .unnamed else
        .named)).layout.symbols.labelled := by
  unfold layOutSection
  rw [if_neg h]
  generalize d.openSection (if d.record.label = [] then .unnamed else .named) =
    opened
  simp only
  split
  · split
    · exact opened.labelled_startAt _
    · rfl
  · rfl

/-- **The label of a new section** gets the location that its statement
gives. -/
theorem definition?_layOutSection {d : Draft} {directive : Directive} {id : Int}
    {t : SymbolTable} {x : Definition} (hcontrol : directive ≠ .dsect)
    (hdirective : Directive.ofMnemonic? d.statement.mnemonic = some directive)
    (hne : d.record.label ≠ [])
    (hopened : d.openSection .named = d.beginning id t)
    (hfirst : (t.currentSection?.all (!·.continued)) = true)
    (hx : t.definition? d.record.label = some x)
    (hvalue : x.value = .relocatable 0 id) :
    ∃ y, (d.layOutSection directive).layout.symbols.definition?
      d.record.label = some y ∧
      y.value = .relocatable (d.statement.origin t id) id := by
  have hplain : Directive.ofMnemonic? d.statement.mnemonic ≠ some .start ∨
      d.statement.operands = [] → ∃ y, t.definition? d.record.label = some y ∧
        y.value = .relocatable (d.statement.origin t id) id :=
    fun hnone => ⟨x, hx, by rw [hvalue, Statement.origin_eq_zero hnone]⟩
  unfold layOutSection
  rw [if_neg hcontrol, if_neg hne, hopened]
  cases hoperands : d.statement.operands with
  | nil => exact hplain (.inr hoperands)
  | cons text rest =>
      show ∃ y,
        (if directive = .start ∧ t.currentSection?.all (!·.continued) then
        (d.beginning id t).startAt text else
          d.beginning id t).layout.symbols.definition?
          d.record.label = some y ∧ _
      by_cases hstart : directive = .start
      · obtain ⟨y, hy, hmoved⟩ :=
          (d.beginning id t).definition?_startAt rfl hne hx hvalue text
        have horigin : d.statement.origin t id = t.startOf id text := by
          simp only [Statement.origin, hdirective, hstart, hoperands]
        rw [if_pos ⟨hstart, hfirst⟩]
        exact ⟨y, hy, horigin ▸ hmoved⟩
      · rw [if_neg fun h => hstart h.1]
        refine hplain (.inl ?_)
        rw [hdirective]
        exact fun h => hstart (Option.some.inj h)

/-- **A section statement** opens its section, or there are no more labels than
before. -/
theorem sectioned_layOutSection {d : Draft}
    {directive : Directive} (hsection : directive.isSection = true)
    (hdirective : Directive.ofMnemonic? d.statement.mnemonic = some directive)
    (hlabel : d.record.label = [] ∨ d.Labelled) :
    d.layout.symbols.Sectioned d.statement
      (d.layOutSection directive).layout.symbols := by
  by_cases hdummy : directive = .dsect
  · unfold layOutSection
    rw [if_pos hdummy]
    split
    · exact .same (Steps.refl d).requireLabel.labelled
    · exact .same (d.labelled_openSection .dummy (.inr rfl))
  · have hlaid := d.labelled_layOutSection hdummy
    by_cases hnil : d.record.label = []
    · rw [if_pos hnil] at hlaid
      exact .same (hlaid.trans (d.labelled_openSection .unnamed (.inl hnil)))
    · rw [if_neg hnil] at hlaid
      rcases openSection_named hnil with
        hsame | ⟨id, t, x, hid, ht, hopened, hnew, hfirst, hx, hvalue⟩
      · exact .same (hlaid.trans hsame)
      · have hkind : directive = .start ∨ directive = .csect ∨
            directive = .rsect := by
          cases directive <;> simp_all [Directive.isSection]
        obtain ⟨y, hy, hmoved⟩ :=
          definition?_layOutSection hdummy hdirective hnil hopened
            hfirst hx hvalue
        obtain ⟨hspelled, hname⟩ := hlabel.resolve_left hnil
        rw [hopened] at hlaid
        exact .opens ⟨⟨directive, hdirective, hkind⟩, hname.symm,
          hspelled, hid, ht⟩
          (hlaid.trans hnew) hy hmoved

/-- The label of a record is that of its statement in capitals, or there is
none. -/
theorem labelled_checkLabel (d : Draft) (hnil : d.record.label = []) :
    d.checkLabel.record.label = [] ∨ d.checkLabel.Labelled := by
  unfold checkLabel
  simp only
  split
  · exact .inl hnil
  · rename_i hspelled
    split
    · exact .inl hnil
    · exact .inr ⟨hspelled, rfl⟩

end Draft

/-! ### Statements -/

namespace Layout

/-- Nor do pools at the end. -/
theorem labelled_flushSections (l : Layout) (s : Statement) (ids : List Int) :
    (l.flushSections s ids).1.symbols.labelled = l.symbols.labelled := by
  have hfirst : ∀ (l : Layout) (id : Int),
      (l.flushSection s id).1.symbols.labelled = l.symbols.labelled := by
    intro l id
    unfold flushSection
    split
    · rfl
    · simp only
      split
      · rfl
      · exact SymbolTable.labelled_modifySection _ id
          (SymbolTable.moves_setLoc _)
  induction ids generalizing l with
  | nil => rfl
  | cons id rest ih => exact (ih _).trans (hfirst l id)

/-- Nor does `END`. -/
theorem labelled_layOutEnd (d : Draft) :
    (layOutEnd d).1.symbols.labelled = d.layout.symbols.labelled :=
  (labelled_flushSections _ _ _).trans
    (d.steps_locate.withBody .located).labelled

/-- A statement before the end, whatever its mnemonic. -/
theorem sectioned_layOutStatement {d : Draft}
    (hlabel : d.record.label = [] ∨ d.Labelled) :
    d.layout.symbols.Sectioned d.statement (layOutStatement d).1.symbols := by
  unfold layOutStatement
  simp only
  split
  · exact .same d.steps_layOutMark.labelled
  · split
    · exact .same (d.steps_layOutInstruction _).labelled
    · split
      · rename_i directive hdirective
        let named : Draft :=
          { d with record := { d.record with directive := some directive } }
        split
        · exact .same (labelled_layOutEnd named)
        · split
          · exact .same named.steps_locate.labelled
          · cases hsection : directive.isSection with
            | false =>
                exact .same (named.steps_layOutDirective hsection).labelled
            | true =>
                have hlaid :=
                  named.sectioned_layOutSection hsection hdirective hlabel
                cases directive with
                | start | csect | rsect | dsect => exact hlaid
                | _ => simp [Directive.isSection] at hsection
      · split
        · exact .same rfl
        · exact .same (((Draft.Steps.refl d).report _ _).trans
            (Draft.steps_layOutMark _)).labelled

/-- **One statement** opens a section with a label, or there are no more of them
than before. -/
theorem sectioned_step (l : Layout) (s : Statement) :
    l.symbols.Sectioned s (l.step s).1.symbols := by
  cases hcomment : s.isComment with
  | true =>
      rw [step_comment hcomment]
      exact .same rfl
  | false =>
      cases hended : l.ended with
      | true =>
          rw [step_ended hended]
          exact .same rfl
      | false =>
          obtain ⟨-, hlayout, -⟩ := checkLabel_spec
            { l with diagnostics := l.diagnostics ++ s.faults } s
              (s.faults.any (·.severity.isError))
          have hsymbols : (l.draftOf s).checkLabel.layout.symbols = l.symbols :=
            congrArg (·.symbols) hlayout
          have hlaid :=
            sectioned_layOutStatement ((l.draftOf s).labelled_checkLabel rfl)
          rw [step_eq_layOut hended hcomment]
          rwa [hsymbols, statement_checkLabel] at hlaid

/-- A section with a label, with the statement that opened it and gave its label
its value. -/
def Traced (options : Options) (statements : List Statement) (t : SymbolTable)
    (id : Int) (name : Bytes) : Prop :=
  ∃ before s after u x, statements = before ++ s :: after ∧
    ((Layout.new options).run before).1.symbols.Opens s id name u ∧
    t.definition? name = some x ∧ x.value = .relocatable (s.origin u id) id

/-- What comes later keeps the value of the label. -/
theorem Traced.extend {options : Options} {statements : List Statement}
    {t t' : SymbolTable} {id : Int}
    {name : Bytes} (h : Traced options statements t id name)
    (hext : t.Extends t') (more : List Statement) :
    Traced options (statements ++ more) t' id name := by
  obtain ⟨before, s, after, u, x, rfl, hopens, hx, hvalue⟩ := h
  exact ⟨before, s, after ++ more, u, x, by simp, hopens,
    hext.definitions name x hx, hvalue⟩

/-- **The sections with labels can be traced back** to the statements that
opened them. -/
theorem traced_run (options : Options) (statements : List Statement) :
    ∀ id name,
    (id, name) ∈ ((Layout.new options).run statements).1.symbols.labelled →
      Traced options statements ((Layout.new options).run statements).1.symbols
        id name := by
  -- induction on the statements, from the last one
  induction statements using List.reverseRecOn with
  | nil =>
      intro id name hmem
      simp [Layout.run, Layout.new, SymbolTable.labelled] at hmem
  | append_singleton before s ih =>
      have hwf := (run_spec (wellFormed_new options) before).layout
      have hext := (step_spec hwf s).grown.symbols
      rw [run_append]
      show ∀ id name, (id, name) ∈
        (((Layout.new options).run before).1.step s).1.symbols.labelled →
        Traced options _
          (((Layout.new options).run before).1.step s).1.symbols id name
      intro id name hmem
      rcases sectioned_step ((Layout.new options).run before).1 s with
        hsame | ⟨hopens, hlabelled, hx, hvalue⟩
      · exact (ih id name (hsame ▸ hmem)).extend hext [s]
      · rw [hlabelled] at hmem
        rcases List.mem_append.mp hmem with hbefore | hnew
        · exact (ih id name hbefore).extend hext [s]
        · cases List.mem_singleton.mp hnew
          exact ⟨before, s, [], _, _, rfl, hopens, hx, hvalue⟩

/-- The end statement that is supplied opens no section. -/
theorem labelled_supplyEnd (l : Layout) (statements : List Statement) :
    (l.supplyEnd statements).1.symbols.labelled = l.symbols.labelled := by
  cases hended : l.ended with
  | true => rw [supplyEnd_ended hended]
  | false =>
      obtain ⟨cursor, hsupplied⟩ := supplyEnd_open hended statements
      rw [hsupplied]
      rcases sectioned_step (l.report ⟨cursor, .missingEnd⟩)
        (suppliedEnd (endLine statements)) with
        hsame | ⟨hopens, -, -, -⟩
      · exact hsame
      · obtain ⟨directive, hdirective, hkind⟩ := hopens.directive
        have hending : Directive.ofMnemonic? (bytes "END") = some .ending := by
          decide
        obtain rfl : Directive.ending = directive :=
          Option.some.inj (hending.symm.trans hdirective)
        simp at hkind

/-- Nor do equates. -/
theorem labelled_settleRound (last : Bool) (l : Layout)
    (records : List Record) :
    (settleRound last l records).1.symbols.labelled = l.symbols.labelled := by
  induction records generalizing l with
  | nil => rfl
  | cons r rest ih =>
      refine (ih _).trans ?_
      split
      · exact ((Draft.Steps.refl (Draft.mk l r)).settle last).labelled
      · rfl

theorem labelled_settleAll (fuel : Nat) (l : Layout) (records : List Record) :
    (settleAll fuel l records).1.symbols.labelled = l.symbols.labelled := by
  induction fuel generalizing l records with
  | zero => rfl
  | succ fuel ih =>
      have hround := labelled_settleRound false l records
      unfold settleAll
      simp only
      split
      · rfl
      · split
        · exact (labelled_settleRound true _ _).trans hround
        · exact (ih _ _).trans hround

end Layout

/-- **The sections of a program can be traced back** to the statements that
opened them. -/
theorem Program.traced_unplaced (options : Options)
    (statements : List Statement) {s : Section}
    (hs : s ∈ (unplaced options statements).layout.symbols.sections)
    (hlabel : s.label ≠ []) :
    Layout.Traced options statements
      (unplaced options statements).layout.symbols s.id s.label := by
  have hrun := Layout.run_spec (Layout.wellFormed_new options) statements
  obtain ⟨hend, -⟩ := Layout.outcome_supplyEnd hrun.layout statements
  have hsettled := Layout.outcome_settleAll
    ((((Layout.new options).run statements).2 ++
      (((Layout.new options).run statements).1.supplyEnd statements).2).length +
        1)
    hend.layout (hrun.append hend).records
  have hmem : (s.id, s.label) ∈
      (unplaced options statements).layout.symbols.labelled :=
    SymbolTable.mem_labelled.mpr ⟨hlabel, s, hs, rfl, rfl⟩
  have hbefore : (s.id, s.label) ∈
      ((Layout.new options).run statements).1.symbols.labelled := by
    rw [← Layout.labelled_supplyEnd _ statements, ← Layout.labelled_settleAll
      ((((Layout.new options).run statements).2 ++
        (((Layout.new options).run statements).1.supplyEnd
          statements).2).length + 1)]
    exact hmem
  have htraced :=
    ((Layout.traced_run options statements s.id s.label hbefore).extend
      hend.grown.symbols []).extend hsettled.grown.symbols []
  rwa [List.append_nil, List.append_nil] at htraced

end System370
