import Mathlib.Data.List.Forall2
import System370.Proofs.DirectivePlacement
import System370.Proofs.Sorting

/-!
# Every record of a program has its place

* `Layout.stepped_step`: what a statement does, from which all else about it
  follows;
* `Layout.step_spec` is the step: whatever the statement, the layout stays
  well-formed and the new records have their places;
* `Layout.run_spec` is the run, and `Program.unplaced_spec` the whole program;
* `Layout.Composes`: what is said of the literals over parts of a program, and
  so over all of it (`Program.exists_unsettled`);
* `Program.unplaced_pooled`: at the end no literal waits any more, and each of
  them is in the pool of some record.
-/

namespace System370

namespace Layout

/-- Whether no literal waits any more once the end is met. -/
def Finished (l : Layout) : Prop :=
  l.ended = true → ∀ literal ∈ l.literals.literals, literal.place.isSome

/-- Whether a layout is finished is a matter of its literals and its end. -/
theorem Finished.congr {l l' : Layout} (h : l.Finished)
    (hliterals : l'.literals = l.literals) (hended : l'.ended = l.ended) :
    l'.Finished := by
  unfold Finished
  rw [hliterals, hended]
  exact h

/-- What laying out gives: a layout that grew, records with their places, and
among them the pools of all literals that got their places. -/
structure Outcome (l : Layout) (outcome : Layout × List Record) : Prop where
  layout : outcome.1.WellFormed
  grown : l.Keeps outcome.1
  ended : l.ended = true → outcome.1.ended = true
  finished : l.Finished → outcome.1.Finished
  pooled : ∀ literal ∈ outcome.1.literals.literals, literal.place.isSome →
    l.literals.literals[literal.id]? = some literal ∨
      ∃ r ∈ outcome.2, ∃ ids, r.body = .pool ids ∧ literal.id ∈ ids
  records : ∀ r ∈ outcome.2, r.Placed outcome.1

theorem Outcome.refl {l : Layout} (hwf : l.WellFormed) {records : List Record}
    (h : ∀ r ∈ records, r.Placed l) : Outcome l (l, records) :=
  ⟨hwf, Keeps.refl l, fun he => he, fun hf => hf,
    fun _ hl _ => Or.inl ((LiteralPool.inStep _).getElem?_id hl), h⟩

/-- A single record, before the end or without new literals. -/
theorem outcome_single {l : Layout} {d : Draft} (h : d.Laid l)
    (hopen : l.ended = true → d.layout.literals = l.literals) :
    Outcome l (d.layout, [d.record]) := by
  refine ⟨h.layout, h.grown, fun he => h.ended.trans he, fun hf he => ?_,
    fun literal hl hplace => ?_, fun r hr => ?_⟩
  · have hended : l.ended = true := h.ended.symm.trans he
    exact (hf.congr (hopen hended) h.ended) he
  · exact (h.pooled literal hl hplace).imp id fun hpool => ⟨d.record,
      List.mem_singleton_self _, hpool⟩
  · rw [List.mem_singleton.mp hr]
    exact h.record

/-- Two parts of a program, one after the other. -/
theorem Outcome.append {l l' l'' : Layout} {records others : List Record}
    (h : Outcome l (l', records)) (h' : Outcome l' (l'', others)) :
    Outcome l (l'', records ++ others) := by
  refine ⟨h'.layout, h.grown.trans h'.grown, fun he => h'.ended (h.ended he),
    fun hf => h'.finished (h.finished hf), fun literal hl hplace => ?_,
    fun r hr => ?_⟩
  · rcases h'.pooled literal hl hplace with hbefore | ⟨r, hr, hpool⟩
    · rcases h.pooled literal (List.mem_of_getElem? hbefore) hplace with
        hfirst | ⟨r, hr, hpool⟩
      · exact Or.inl hfirst
      · exact Or.inr ⟨r, List.mem_append_left _ hr, hpool⟩
    · exact Or.inr ⟨r, List.mem_append_right _ hr, hpool⟩
  · rcases List.mem_append.mp hr with hr | hr
    · exact (h.records r hr).mono h'.grown
    · exact h'.records r hr

/-- The part of a program behind changes to the symbol table. -/
theorem Outcome.of_symbols {l l' : Layout} {outcome : Layout × List Record}
    (h : Outcome l' outcome) (hsymbols : l.symbols.Extends l'.symbols)
    (hliterals : l'.literals = l.literals) (hended : l'.ended = l.ended) :
    Outcome l outcome := by
  have hext := extends_of_symbols hsymbols hliterals hended
  refine ⟨h.layout, hext.toKeeps.trans h.grown,
    fun he => h.ended (hended.trans he),
    fun hf => h.finished (hf.congr hliterals hended), ?_, h.records⟩
  rw [← hliterals]
  exact h.pooled

/-! ### The end of the program -/

/-- The literals that wait in a section, at the end of the program. -/
theorem outcome_flushSection {l : Layout} (hwf : l.WellFormed)
    (statement : Statement) (id : Int) :
    Outcome l ((l.flushSection statement id).1,
      (l.flushSection statement id).2.toList) ∧
      ∀ literal ∈ (l.flushSection statement id).1.literals.literals,
      ∃ old ∈ l.literals.literals,
        literal.sectionId = old.sectionId ∧
          (old.place.isSome ∨ old.sectionId = id → literal.place.isSome) := by
  unfold flushSection
  split
  · rename_i hnone
    refine ⟨Outcome.refl hwf (by simp),
      fun literal hl => ⟨literal, hl, rfl, ?_⟩⟩
    rintro (hplace | rfl)
    · exact hplace
    · obtain ⟨s, hs⟩ := hwf.housed literal hl
      simp [hnone] at hs
  · rename_i s hs
    simp only
    generalize (if l.symbols.current = some id then s.loc else s.length) = loc
    have hflush := LiteralPool.flush_spec l.literals id loc
    split
    · rename_i hnil
      refine ⟨Outcome.refl hwf (by simp), fun literal hl => ⟨literal, hl, rfl, ?_⟩⟩
      rintro (hplace | hid)
      · exact hplace
      · exact hflush.isSome_of_nil hnil hl hid
    · rename_i hne
      obtain ⟨hwf', hkeeps⟩ := keeps_flush hwf id loc
      let flushed := l.literals.flush id loc
      let m : Layout := { l with literals := flushed.pool }
      let l' : Layout :=
        { m with
          symbols := l.symbols.modifySection id (·.setLoc flushed.behind) }
      have hgrows : Grows m l' := grows_of_symbols
        (SymbolTable.grows_modifySection _ id
          (SymbolTable.moves_setLoc flushed.behind)) rfl rfl rfl
      obtain ⟨hwf'', hext⟩ := hgrows hwf'
      have hgrown : l.Keeps l' := hkeeps.trans hext.toKeeps
      have hsection : l'.symbols.section? id =
          some (s.setLoc flushed.behind) := by
        show (l.symbols.modifySection id _).section? id = _
        rw [SymbolTable.section?_modifySection, if_pos rfl, hs]
        rfl
      refine ⟨⟨hwf'', hgrown, fun he => he, fun hf he literal hl => ?_,
        fun literal hl hplace => ?_, fun r hr => ?_⟩, hflush.places_section⟩
      · obtain ⟨old, hmem, -, hplace⟩ := hflush.places_section literal hl
        exact hplace (Or.inl (hf he old hmem))
      · exact (placed_flush hl hplace).imp (fun hbefore => hbefore) fun hnew =>
          ⟨_, List.mem_singleton_self _, _, rfl, hnew⟩
      · simp only [Option.toList_some, List.mem_singleton] at hr
        subst hr
        refine Draft.placed_pool hwf hgrown rfl rfl rfl rfl rfl rfl
          (fun hnil => hne hnil)
          (fun _ => ⟨_, hsection⟩) fun s' hs' => ?_
        have hsame : s.setLoc flushed.behind = s' :=
          Option.some.inj (hsection.symm.trans hs')
        rw [← hsame]
        simp only [Section.setLoc]
        split
        · exact Int64.le_refl _
        · exact Int64.not_lt.mp ‹_›

/-- The literals that wait in some sections: none of them waits any more. -/
theorem outcome_flushSections {l : Layout} (hwf : l.WellFormed)
    (statement : Statement) (ids : List Int) :
    Outcome l (l.flushSections statement ids) ∧
    ∀ literal ∈ (l.flushSections statement ids).1.literals.literals,
    ∃ old ∈ l.literals.literals,
      literal.sectionId = old.sectionId ∧
        (old.place.isSome ∨ old.sectionId ∈ ids → literal.place.isSome) := by
  induction ids generalizing l with
  | nil =>
      exact ⟨Outcome.refl hwf (by simp),
        fun literal hl => ⟨literal, hl, rfl, by simp⟩⟩
  | cons id rest ih =>
      obtain ⟨hfirst, hplaced⟩ := outcome_flushSection hwf statement id
      obtain ⟨hrest, hothers⟩ := ih hfirst.layout
      refine ⟨hfirst.append hrest, fun literal hl => ?_⟩
      obtain ⟨middle, hmiddle, hsection, hplace⟩ := hothers literal hl
      obtain ⟨old, hold, hsection', hplace'⟩ := hplaced middle hmiddle
      refine ⟨old, hold, hsection.trans hsection', ?_⟩
      rintro (h | h)
      · exact hplace (Or.inl (hplace' (Or.inl h)))
      · rcases List.mem_cons.mp h with h | h
        · exact hplace (Or.inl (hplace' (Or.inr h)))
        · exact hplace (Or.inr (hsection' ▸ h))

/-- **The end statement** places all literals that wait. -/
theorem outcome_layOutEnd {d : Draft} (hwf : d.layout.WellFormed)
    (h : d.Fresh) :
    Outcome d.layout (layOutEnd d) ∧ (layOutEnd d).1.ended = true := by
  obtain ⟨hseated, heq⟩ := Draft.seated_locate hwf h
  have hseated := hseated.withBody .located
  have hplain : Draft.isPlain (d.locate.withBody .located).record := rfl
  have hlayout : (d.locate.withBody .located).layout = d.layout := heq
  unfold layOutEnd
  generalize d.locate.withBody .located = d₁ at hseated hplain hlayout
  have hplaced₁ := hseated.placed hplain
  rw [hlayout] at hplaced₁
  simp only [hlayout]
  let l : Layout := { d.layout with ended := true }
  have hl : l.WellFormed := hwf.of_same rfl rfl rfl
  have hkeeps : d.layout.Keeps l :=
    ⟨SymbolTable.Extends.refl _, fun _ _ h _ => h,
      fun _ literal h => ⟨literal.place, h⟩⟩
  obtain ⟨hpools, hall⟩ :=
    outcome_flushSections hl d₁.statement l.literals.waitingSections
  have hgrown := hkeeps.trans hpools.grown
  have hplaced := hplaced₁.mono hgrown
  have hended := hpools.ended rfl
  have hcomplete : ∀ literal ∈ (l.flushSections d₁.statement
      l.literals.waitingSections).1.literals.literals,
      literal.place.isSome := by
    intro literal hliteral
    obtain ⟨old, hold, -, hplace⟩ := hall literal hliteral
    refine hplace ?_
    cases hwaits : old.place with
    | some place => exact Or.inl rfl
    | none =>
        have hwaiting := LiteralPool.mem_waiting.mpr ⟨hold, hwaits, rfl⟩
        exact Or.inr (LiteralPool.mem_waitingSections_iff.mpr
          (List.ne_nil_of_mem hwaiting))
  generalize l.flushSections d₁.statement l.literals.waitingSections =
    flushed at *
  obtain ⟨l', pools⟩ := flushed
  simp only at hpools hgrown hplaced hended hcomplete ⊢
  refine ⟨⟨hpools.layout, hgrown, fun _ => hended, fun _ _ => hcomplete,
    fun literal hliteral hplace => ?_, fun r hr => ?_⟩, hended⟩
  · refine (hpools.pooled literal hliteral hplace).imp id ?_
    rintro ⟨r, hr, hpool⟩
    exact ⟨r, List.mem_append_left _ hr, hpool⟩
  · rcases List.mem_append.mp hr with hr | hr
    · exact hpools.records r hr
    · rw [List.mem_singleton.mp hr]
      refine Draft.placed_of_isPlain
        (d := ⟨l', _⟩) hseated.object hplain hplaced.anchored
        fun s hs => ?_
      simp only
      split
      · rename_i s' hs'
        split
        · rename_i hid
          obtain ⟨-, hsection⟩ :=
            hpools.layout.symbols.numbered.currentSection? hs'
          rw [hid] at hsection
          have hsame : s' = s := Option.some.inj (hsection.symm.trans hs)
          rw [hsame, hseated.length]
          simpa using (hpools.layout.symbols.numbered.bounded _ s hs).2
        · exact hplaced.fits s hs
      · exact hplaced.fits s hs

/-! ### Statements -/

/-- What one statement makes of a layout: a single record, which before the end
may be a pool, or the end of the program. -/
inductive Stepped (l : Layout) : Layout × List Record → Prop
  | single {d : Draft} :
      d.Laid l → (l.ended = true → d.layout.literals = l.literals) →
      Stepped l (d.layout, [d.record])
  | ending {d : Draft} :
      d.layout.WellFormed → d.Fresh → l.symbols.Extends d.layout.symbols →
      d.layout.literals = l.literals → d.layout.ended = l.ended →
        Stepped l (layOutEnd d)

/-- A step from a layout that knows less. -/
theorem Stepped.of_symbols {l l' : Layout} {outcome : Layout × List Record}
    (h : Stepped l' outcome) (hsymbols : l.symbols.Extends l'.symbols)
    (hliterals : l'.literals = l.literals) (hended : l'.ended = l.ended) :
    Stepped l outcome := by
  cases h with
  | single hlaid hopen =>
      exact .single (hlaid.of_symbols hsymbols hliterals hended) fun he =>
        (hopen (hended.trans he)).trans hliterals
  | ending hwf hfresh hgrown hsame hend =>
      exact .ending hwf hfresh (hsymbols.trans hgrown) (hsame.trans hliterals)
        (hend.trans hended)

/-- The outcome of a step. -/
theorem Stepped.outcome {l : Layout} {outcome : Layout × List Record}
    (h : Stepped l outcome) :
    Outcome l outcome := by
  cases h with
  | single hlaid hopen => exact outcome_single hlaid hopen
  | ending hwf hfresh hsymbols hliterals hended =>
      exact (outcome_layOutEnd hwf hfresh).1.of_symbols hsymbols
        hliterals hended

/-- A statement before the end, whatever its mnemonic. -/
theorem stepped_layOutStatement {d : Draft} (hwf : d.layout.WellFormed)
    (h : d.Fresh) (hopen : d.layout.ended = false)
    (hlabel : d.record.errored = false → d.record.label = [] →
      d.statement.label = []) :
    Stepped d.layout (layOutStatement d) := by
  have hsingle : ∀ {d' : Draft}, d'.Laid d.layout →
      Stepped d.layout (d'.layout, [d'.record]) :=
    fun hlaid => .single hlaid (by simp [hopen])
  unfold layOutStatement
  simp only
  split
  · exact hsingle (Draft.laid_layOutMark hwf h)
  · split
    · exact hsingle (Draft.laid_layOutInstruction hwf h _)
    · split
      · rename_i directive _
        let d₁ : Draft :=
          { d with record := { d.record with directive := some directive } }
        have hfresh : d₁.Fresh :=
          ⟨h.object, h.body, h.sectionId, h.length, h.label, h.loc⟩
        split
        · exact .ending
            (d := d₁) hwf hfresh (SymbolTable.Extends.refl _) rfl rfl
        · split
          · obtain ⟨hseated, heq⟩ := Draft.seated_locate (d := d₁) hwf hfresh
            have hplain : Draft.isPlain d₁.locate.record := by
              simp [Draft.isPlain, Draft.body_locate, d₁, h.body]
            exact hsingle (hseated.laid (heq ▸ Extends.refl _) hplain)
          · rename_i hok
            exact hsingle (Draft.laid_layOutDirective (d := d₁) hwf hfresh rfl
              (hlabel (Bool.eq_false_iff.mpr hok)))
      · split
        · exact hsingle (h.laid hwf)
        · have haside := Draft.aside_report d d.statement.mnemonicCursor
            (.unknownMnemonic d.statement.mnemonic)
          have hfresh : (d.report d.statement.mnemonicCursor
              (.unknownMnemonic d.statement.mnemonic)).Fresh :=
            ⟨h.object, h.body, h.sectionId, h.length, h.label, h.loc⟩
          have hlaid := Draft.laid_layOutMark (haside.layout hwf).1 hfresh
          exact hsingle (hlaid.of_symbols (SymbolTable.Extends.refl _) rfl rfl)

/-- A statement whose label was checked: only the list of diagnostics has
changed. -/
theorem checkLabel_spec (l : Layout) (statement : Statement) (errored : Bool) :
    let d := (Draft.mk l { statement, errored }).checkLabel
    d.Fresh ∧ d.layout = { l with diagnostics := d.layout.diagnostics } ∧
      (d.record.errored = false → d.record.label = [] →
        d.statement.label = []) := by
  intro d
  unfold d Draft.checkLabel
  simp only
  split
  · exact ⟨⟨rfl, rfl, rfl, rfl, isLabel_nil, rfl⟩, rfl, fun hok => absurd
        (hok.symm.trans (Draft.errored_report _ _ rfl)) Bool.false_ne_true⟩
  · rename_i hlabel
    split
    · exact ⟨⟨rfl, rfl, rfl, rfl, isLabel_nil, rfl⟩, rfl, fun hok => absurd
          (hok.symm.trans (Draft.errored_report _ _ rfl)) Bool.false_ne_true⟩
    · rename_i hlength
      exact ⟨⟨rfl, rfl, rfl, rfl,
        isLabel_of_badLabelChar? hlabel (Nat.not_lt.mp hlength), rfl⟩, rfl,
        fun _ hnil => eq_nil_of_toUpper_eq_nil hlabel hnil⟩

/-- **What a statement does**: it is a remark, or it is laid out by its
mnemonic. -/
theorem stepped_step {l : Layout} (hwf : l.WellFormed) (statement : Statement) :
    Stepped l (l.step statement) := by
  have hbare : ∀ l' : Layout,
      l'.symbols = l.symbols → l'.literals = l.literals →
      l'.modes = l.modes → l'.ended = l.ended → ∀ statement,
      Stepped l (l', [{ statement }]) := by
    intro l' hsymbols hliterals hmodes hended statement
    have hgrows : l.Grows l' :=
      grows_of_symbols (hsymbols ▸ SymbolTable.Grows.refl _) hliterals
        hmodes hended
    have hfresh : (Draft.mk l' { statement }).Fresh :=
      ⟨rfl, rfl, rfl, rfl, isLabel_nil, rfl⟩
    exact (Stepped.single (hfresh.laid (hgrows hwf).1) fun _ => rfl).of_symbols
      (hgrows hwf).2.symbols hliterals hended
  unfold step
  simp only
  split
  · exact hbare { l with diagnostics := l.diagnostics ++ statement.faults } rfl
      rfl rfl rfl statement
  · split
    · refine hbare _ ?_ ?_ ?_ ?_ _
      · split <;> rfl
      · split <;> rfl
      · split <;> rfl
      · split <;> rfl
    · rename_i hopen
      generalize statement.faults.any (·.severity.isError) = errored
      obtain ⟨hfresh, hlayout, hlabel⟩ := checkLabel_spec
        { l with diagnostics := l.diagnostics ++ statement.faults }
          statement errored
      generalize (Draft.mk
        { l with diagnostics := l.diagnostics ++ statement.faults }
        { statement, errored }).checkLabel = d at hfresh hlayout hlabel
      have hgrows : l.Grows d.layout := by
        rw [hlayout]
        exact grows_of_symbols (SymbolTable.Grows.refl _) rfl rfl rfl
      obtain ⟨hwf', hext⟩ := hgrows hwf
      have hopen' : d.layout.ended = false := by
        rw [hext.ended]
        simpa using hopen
      refine (stepped_layOutStatement hwf' hfresh hopen' hlabel).of_symbols
        hext.symbols ?_ hext.ended
      rw [hlayout]

/-- **One statement.**  The layout stays well-formed, and the new records have
their places. -/
theorem step_spec {l : Layout} (hwf : l.WellFormed) (statement : Statement) :
    Outcome l (l.step statement) :=
  (stepped_step hwf statement).outcome

/-- **All statements one after the other.** -/
theorem run_spec {l : Layout} (hwf : l.WellFormed)
    (statements : List Statement) :
    Outcome l (l.run statements) := by
  induction statements generalizing l with
  | nil => exact Outcome.refl hwf (by simp)
  | cons statement rest ih =>
      have hstep := step_spec hwf statement
      exact hstep.append (ih hstep.layout)

/-- The end statement that is supplied is the end. -/
theorem ended_step_suppliedEnd {l : Layout} (hwf : l.WellFormed) (line : Nat) :
    (l.step (suppliedEnd line)).1.ended = true := by
  cases hopen : l.ended with
  | true => exact (step_spec hwf _).ended hopen
  | false =>
      have hwf' : WellFormed { l with diagnostics := l.diagnostics ++ [] } :=
        hwf.of_same rfl rfl rfl
      obtain ⟨hfresh, hlayout, -⟩ :=
        checkLabel_spec { l with diagnostics := l.diagnostics ++ [] }
          (suppliedEnd line) false
      have hnamed : ((Draft.mk { l with diagnostics := l.diagnostics ++ [] }
          { statement := suppliedEnd line
            errored := false }).checkLabel).statement.mnemonic =
          bytes "END" := rfl
      have hstep : l.step (suppliedEnd line) =
          layOutStatement
            (Draft.mk { l with diagnostics := l.diagnostics ++ [] }
            { statement := suppliedEnd line
              errored := false }).checkLabel := by
        simp only [step, hopen]
        rfl
      rw [hstep]
      generalize (Draft.mk { l with diagnostics := l.diagnostics ++ [] }
          { statement := suppliedEnd line, errored := false }).checkLabel =
            d at *
      have hfind : Instruction.find? (bytes "END") = none := by decide
      have hdirective : Directive.ofMnemonic? (bytes "END") = some .ending := by
        decide
      have hne : bytes "END" ≠ [] := by decide
      simp only [layOutStatement, hnamed, hfind, hdirective, hne,
        if_false, if_true]
      have hd : d.layout.WellFormed := by
        rw [hlayout]
        exact hwf.of_same rfl rfl rfl
      exact (outcome_layOutEnd
        (d := { d with record := { d.record with directive := some .ending } })
        hd ⟨hfresh.object, hfresh.body, hfresh.sectionId, hfresh.length,
          hfresh.label, hfresh.loc⟩).2

/-- The line of an end statement that is supplied. -/
def endLine (statements : List Statement) : Nat :=
  ((statements.map fun s => s.line + s.lines.length).getLast?).getD 1

/-- A program that has ended needs no `END`. -/
theorem supplyEnd_ended {l : Layout} (hended : l.ended = true)
    (statements : List Statement) :
    l.supplyEnd statements = (l, []) := by
  simp [supplyEnd, hended]

/-- A program that has not ended is given one, with a warning. -/
theorem supplyEnd_open {l : Layout} (hended : l.ended = false)
    (statements : List Statement) :
    ∃ cursor, l.supplyEnd statements =
      (l.report ⟨cursor, .missingEnd⟩).step
        (suppliedEnd (endLine statements)) := by
  unfold supplyEnd endLine
  rw [List.getLast?_map, hended]
  cases statements.getLast? with
  | none => exact ⟨_, rfl⟩
  | some last => exact ⟨_, rfl⟩

/-- A program ends, by its own `END` or by one that is supplied. -/
theorem outcome_supplyEnd {l : Layout} (hwf : l.WellFormed)
    (statements : List Statement) :
    Outcome l (l.supplyEnd statements) ∧
      (l.supplyEnd statements).1.ended = true := by
  cases hended : l.ended with
  | true =>
      rw [supplyEnd_ended hended]
      exact ⟨Outcome.refl hwf (by simp), hended⟩
  | false =>
      obtain ⟨cursor, hopen⟩ := supplyEnd_open hended statements
      have hreported : (l.report ⟨cursor, .missingEnd⟩).WellFormed :=
        hwf.of_same rfl rfl rfl
      rw [hopen]
      exact ⟨(step_spec hreported _).of_symbols (SymbolTable.Extends.refl _) rfl
        rfl, ended_step_suppliedEnd hreported _⟩

/-! ### Parts of a program -/

/-- What is said of the literals over a part of a program: it holds of no
statement, of a single record and of what the end places, and what holds of two
parts holds of both of them one after the other. -/
structure Composes (R : Layout → Layout × List Record → Prop) : Prop where
  nil : ∀ {l : Layout}, l.WellFormed → R l (l, [])
  append : ∀ {l l' l'' : Layout} {records others : List Record},
    R l (l', records) →
    Outcome l (l', records) → R l' (l'', others) → Outcome l' (l'', others) →
      R l (l'', records ++ others)
  single : ∀ {l : Layout} {d : Draft}, l.WellFormed → d.Laid l →
    Outcome l (d.layout, [d.record]) → R l (d.layout, [d.record])
  flushed : ∀ {l : Layout}, l.WellFormed → ∀ (statement : Statement) (id : Int),
    R l ((l.flushSection statement id).1,
      (l.flushSection statement id).2.toList)
  of_literals : ∀ {l l' : Layout} {outcome : Layout × List Record},
    R l' outcome →
    l'.literals = l.literals → R l outcome

section Composes

variable {R : Layout → Layout × List Record → Prop} (h : Composes R)

include h

/-- The pools at the end, one after the other. -/
theorem Composes.flushSections {l : Layout} (hwf : l.WellFormed)
    (statement : Statement) (ids : List Int) :
    R l (l.flushSections statement ids) := by
  induction ids generalizing l with
  | nil => exact h.nil hwf
  | cons id rest ih =>
      have hfirst := (outcome_flushSection hwf statement id).1
      exact h.append (h.flushed hwf statement id) hfirst (ih hfirst.layout)
        (outcome_flushSections hfirst.layout statement rest).1

/-- The end statement. -/
theorem Composes.layOutEnd {d : Draft} (hwf : d.layout.WellFormed)
    (hfresh : d.Fresh) :
    R d.layout (layOutEnd d) := by
  have hrecords := (outcome_layOutEnd hwf hfresh).1.records
  have hlayout : (d.locate.withBody .located).layout = d.layout :=
    (Draft.seated_locate hwf hfresh).2
  revert hrecords
  unfold Layout.layOutEnd
  simp only [hlayout]
  let l : Layout := { d.layout with ended := true }
  have hl : l.WellFormed := hwf.of_same rfl rfl rfl
  let statement := (d.locate.withBody .located).statement
  have hpools :=
    (outcome_flushSections hl statement l.literals.waitingSections).1
  have hflushed := h.flushSections hl statement l.literals.waitingSections
  generalize l.flushSections statement l.literals.waitingSections = flushed at *
  obtain ⟨l', pools⟩ := flushed
  intro hrecords
  suffices hall : R l _ from h.of_literals hall rfl
  have hlast := Outcome.refl hpools.layout fun r hr =>
    hrecords r (List.mem_append_right _ hr)
  refine h.append hflushed hpools
    (h.single (d := ⟨l', _⟩) hpools.layout ?_ hlast) hlast
  exact Draft.laid_of_extends hpools.layout (Extends.refl _)
    (hlast.records _ (List.mem_singleton_self _))
    ⟨by simp [Draft.withBody], by simp [Draft.withBody]⟩

/-- A step alone. -/
theorem Composes.stepped {l : Layout} {outcome : Layout × List Record}
    (hwf : l.WellFormed) (hstep : Stepped l outcome) : R l outcome := by
  have hout := hstep.outcome
  cases hstep with
  | single hlaid _ => exact h.single hwf hlaid hout
  | ending hwf' hfresh _ hliterals _ =>
      exact h.of_literals (h.layOutEnd hwf' hfresh) hliterals

/-- **All statements one after the other.** -/
theorem Composes.run {l : Layout} (hwf : l.WellFormed)
    (statements : List Statement) :
    R l (l.run statements) := by
  induction statements generalizing l with
  | nil => exact h.nil hwf
  | cons statement rest ih =>
      have hstep := step_spec hwf statement
      exact h.append (h.stepped hwf (stepped_step hwf statement)) hstep
        (ih hstep.layout)
        (run_spec hstep.layout rest)

/-- An `END` that is supplied. -/
theorem Composes.supplyEnd {l : Layout} (hwf : l.WellFormed)
    (statements : List Statement) :
    R l (l.supplyEnd statements) := by
  cases hended : l.ended with
  | true =>
      rw [supplyEnd_ended hended]
      exact h.nil hwf
  | false =>
      obtain ⟨cursor, hopen⟩ := supplyEnd_open hended statements
      have hreported : (l.report ⟨cursor, .missingEnd⟩).WellFormed :=
        hwf.of_same rfl rfl rfl
      rw [hopen]
      exact h.of_literals (h.stepped hreported (stepped_step hreported _)) rfl

end Composes

/-! ### Settling equates -/

/-- What settling makes of a record: the same, or an equate of an equate that
waits. -/
def Settles (r r' : Record) : Prop :=
  r' = r ∨ isWaiting r = true ∧ ∃ value waiting, r'.body = .equate value waiting

/-- Settled in two steps. -/
theorem Settles.trans {r r' r'' : Record} (h : Settles r r')
    (h' : Settles r' r'') :
    Settles r r'' := by
  rcases h with rfl | ⟨hwaiting, hequate⟩
  · exact h'
  · rcases h' with rfl | ⟨-, hequate'⟩
    · exact Or.inr ⟨hwaiting, hequate⟩
    · exact Or.inr ⟨hwaiting, hequate'⟩

theorem settles_trans {records others last : List Record}
    (h : List.Forall₂ Settles records others)
    (h' : List.Forall₂ Settles others last) :
    List.Forall₂ Settles records last := by
  induction h generalizing last with
  | nil => exact h'
  | cons hr _ ih =>
      obtain ⟨r'', rest, hr', hrest, rfl⟩ := List.forall₂_cons_left_iff.mp h'
      exact .cons (hr.trans hr') (ih hrest)

/-- Settling an equate leaves the literals alone. -/
theorem frame_settle (d : Draft) (last : Bool) :
    (d.settle last).layout.literals = d.layout.literals ∧
      ∃ value waiting, (d.settle last).record.body = .equate value waiting := by
  have hdefine : ∀ (d : Draft) (name : Bytes) (x : Definition),
      (d.define name x).layout.literals = d.layout.literals ∧
        (d.define name x).record.body = d.record.body := by
    intro d name x
    unfold Draft.define
    split <;> exact ⟨rfl, rfl⟩
  unfold Draft.settle
  split
  · split <;> exact ⟨rfl, _, _, rfl⟩
  · obtain ⟨hliterals, hbody⟩ := hdefine (d.withBody _) _ _
    exact ⟨hliterals, _, _, hbody⟩

/-- A round of settling equates changes no other record, and no literal. -/
theorem frame_settleRound (last : Bool) (l : Layout) (records : List Record) :
    (settleRound last l records).1.literals = l.literals ∧
      List.Forall₂ Settles records (settleRound last l records).2 := by
  induction records generalizing l with
  | nil => exact ⟨rfl, .nil⟩
  | cons r rest ih =>
      unfold settleRound
      simp only
      split
      · rename_i hwaiting
        obtain ⟨hliterals, hequate⟩ := frame_settle ⟨l, r⟩ last
        obtain ⟨hsame, hrest⟩ := ih ((Draft.mk l r).settle last).layout
        exact ⟨hsame.trans hliterals, .cons (Or.inr ⟨hwaiting, hequate⟩) hrest⟩
      · obtain ⟨hsame, hrest⟩ := ih l
        exact ⟨hsame, .cons (Or.inl rfl) hrest⟩

/-- Equates touch no literals and no record but their own. -/
theorem frame_settleAll (fuel : Nat) (l : Layout) (records : List Record) :
    (settleAll fuel l records).1.literals = l.literals ∧
      List.Forall₂ Settles records (settleAll fuel l records).2 := by
  have hrefl : ∀ records : List Record, List.Forall₂ Settles records records :=
    fun records => List.forall₂_same.mpr fun _ _ => Or.inl rfl
  induction fuel generalizing l records with
  | zero => exact ⟨rfl, hrefl records⟩
  | succ fuel ih =>
      unfold settleAll
      simp only
      obtain ⟨hliterals, hround⟩ := frame_settleRound false l records
      generalize settleRound false l records = settled at *
      split
      · exact ⟨rfl, hrefl records⟩
      · split
        · obtain ⟨hlast, hrecords⟩ := frame_settleRound true settled.1 settled.2
          exact ⟨hlast.trans hliterals, settles_trans hround hrecords⟩
        · obtain ⟨hlast, hrecords⟩ := ih settled.1 settled.2
          exact ⟨hlast.trans hliterals, settles_trans hround hrecords⟩

/-- A record that does not wait is still there. -/
theorem mem_of_settles {records others : List Record}
    (h : List.Forall₂ Settles records others) {r : Record} (hr : r ∈ records)
    (hsettled : isWaiting r = false) : r ∈ others := by
  induction h with
  | nil => exact hr
  | cons hfirst _ ih =>
      rcases List.mem_cons.mp hr with rfl | hr
      · rcases hfirst with rfl | ⟨hwaiting, -⟩
        · exact List.mem_cons_self
        · simp [hsettled] at hwaiting
      · exact List.mem_cons_of_mem _ (ih hr)

/-- A round of settling equates. -/
theorem outcome_settleRound (last : Bool) {l : Layout} (hwf : l.WellFormed)
    {records : List Record} (hrecords : ∀ r ∈ records, r.Placed l) :
    Outcome l (settleRound last l records) := by
  induction records generalizing l with
  | nil => exact Outcome.refl hwf (by simp)
  | cons r rest ih =>
      have hr := hrecords r List.mem_cons_self
      let d : Draft :=
        if isWaiting r then (Draft.mk l r).settle last else ⟨l, r⟩
      have hfirst : Outcome l (d.layout, [d.record]) := by
        unfold d
        split
        · rename_i hwaiting
          have hequate : ∃ value waiting, r.body = .equate value waiting := by
            unfold isWaiting at hwaiting
            split at hwaiting
            · exact ⟨_, _, ‹_›⟩
            · simp at hwaiting
          obtain ⟨-, _, _, haside⟩ :=
            Draft.settle_spec (d := ⟨l, r⟩) hwf hr.anchored hequate last
          exact outcome_single (Draft.laid_settle
            (d := ⟨l, r⟩) hwf (Extends.refl l) hr.object hequate
            hr.anchored hr.fits last) fun _ => haside.literals
        · exact Outcome.refl hwf fun r' hr' => List.mem_singleton.mp hr' ▸ hr
      exact hfirst.append (ih hfirst.layout fun other ho =>
        (hrecords other (List.mem_cons_of_mem _ ho)).mono hfirst.grown)

/-- One round after another gives the records of the last one. -/
theorem Outcome.trans {l l' : Layout} {records : List Record}
    {outcome : Layout × List Record} (h : Outcome l (l', records))
    (h' : Outcome l' outcome)
    (hpools : ∀ r ∈ records, isWaiting r = false → r ∈ outcome.2) :
    Outcome l outcome := by
  refine ⟨h'.layout, h.grown.trans h'.grown, fun he => h'.ended (h.ended he),
    fun hf => h'.finished (h.finished hf),
    fun literal hl hplace => ?_, h'.records⟩
  rcases h'.pooled literal hl hplace with hbefore | hnew
  · refine (h.pooled literal (List.mem_of_getElem? hbefore) hplace).imp
      (fun hfirst => hfirst) ?_
    rintro ⟨r, hr, ids, hbody, hid⟩
    exact ⟨r, hpools r hr (by simp [isWaiting, hbody]), ids, hbody, hid⟩
  · exact Or.inr hnew

/-- **Settling equates** leaves every record in its place. -/
theorem outcome_settleAll (fuel : Nat) {l : Layout} (hwf : l.WellFormed)
    {records : List Record} (hrecords : ∀ r ∈ records, r.Placed l) :
    Outcome l (settleAll fuel l records) := by
  induction fuel generalizing l records with
  | zero => exact Outcome.refl hwf hrecords
  | succ fuel ih =>
      unfold settleAll
      simp only
      split
      · exact Outcome.refl hwf hrecords
      · have hround := outcome_settleRound false hwf hrecords
        split
        · exact hround.trans
            (outcome_settleRound true hround.layout hround.records)
            fun r => mem_of_settles (frame_settleRound true _ _).2
        · exact hround.trans (ih hround.layout hround.records) fun r =>
            mem_of_settles (frame_settleAll fuel _ _).2

/-- The layout before the first statement is well-formed. -/
theorem wellFormed_new (options : Options) :
    (Layout.new options).WellFormed := by
  refine ⟨⟨⟨?_, ?_, ?_, ?_, rfl⟩, ⟨?_, ?_, ?_, ?_⟩, ?_, ?_, ?_⟩, ?_, ?_, ?_, ?_⟩
  all_goals simp [Layout.new, SymbolTable.section?, SymbolTable.definition?,
    SymbolTable.symbol?]

end Layout

/-! ### Programs -/

namespace Program

/-- What laying out all statements of a program gives. -/
theorem outcome_unplaced (options : Options) (statements : List Statement) :
    Layout.Outcome (Layout.new options)
      ((unplaced options statements).layout,
        (unplaced options statements).records) ∧
      (unplaced options statements).layout.ended = true := by
  have hrun := Layout.run_spec (Layout.wellFormed_new options) statements
  obtain ⟨hend, hended⟩ := Layout.outcome_supplyEnd hrun.layout statements
  unfold unplaced
  simp only
  generalize ((Layout.new options).run statements).1.supplyEnd statements =
    supplied at *
  have hall : Layout.Outcome (Layout.new options)
      (supplied.1, ((Layout.new options).run statements).2 ++ supplied.2) :=
    hrun.append hend
  have hsettled := Layout.outcome_settleAll
    ((((Layout.new options).run statements).2 ++ supplied.2).length + 1)
      hall.layout hall.records
  exact ⟨hall.trans hsettled fun r =>
    Layout.mem_of_settles (Layout.frame_settleAll _ _ _).2,
    hsettled.ended hended⟩

/-- **What composes holds of all statements of a program**, up to the settling
of equates, which leaves the literals alone. -/
theorem exists_unsettled {R : Layout → Layout × List Record → Prop}
    (h : Layout.Composes R) (options : Options) (statements : List Statement) :
    let p := unplaced options statements
    ∃ l records, R (Layout.new options) (l, records) ∧ l.Keeps p.layout ∧
      p.layout.literals = l.literals ∧
      List.Forall₂ Layout.Settles records p.records := by
  have hrun := Layout.run_spec (Layout.wellFormed_new options) statements
  have hfirst := h.run (Layout.wellFormed_new options) statements
  obtain ⟨hend, -⟩ := Layout.outcome_supplyEnd hrun.layout statements
  have hsupplied := h.supplyEnd hrun.layout statements
  unfold unplaced
  simp only
  generalize ((Layout.new options).run statements).1.supplyEnd statements =
    supplied at *
  have hall : Layout.Outcome (Layout.new options)
      (supplied.1, ((Layout.new options).run statements).2 ++ supplied.2) :=
    hrun.append hend
  have hholds : R (Layout.new options)
      (supplied.1, ((Layout.new options).run statements).2 ++ supplied.2) :=
    h.append hfirst hrun hsupplied hend
  generalize ((Layout.new options).run statements).2 ++ supplied.2 =
    records at *
  obtain ⟨hliterals, hsame⟩ :=
    Layout.frame_settleAll (records.length + 1) supplied.1 records
  have hsettled :=
    Layout.outcome_settleAll (records.length + 1) hall.layout hall.records
  exact ⟨supplied.1, records, hholds, hsettled.grown, hliterals, hsame⟩

/-- **Every record of a program has its place**, before the sections are
placed. -/
theorem unplaced_spec (options : Options) (statements : List Statement) :
    (unplaced options statements).layout.WellFormed ∧
      ∀ r ∈ (unplaced options statements).records,
      r.Placed (unplaced options statements).layout := by
  obtain ⟨houtcome, -⟩ := outcome_unplaced options statements
  exact ⟨houtcome.layout, houtcome.records⟩

/-- **Every literal of a program has its place**, and is in the pool of some
record. -/
theorem unplaced_pooled (options : Options) (statements : List Statement) :
    ∀ literal ∈ (unplaced options statements).layout.literals.literals,
    literal.place.isSome ∧
      ∃ r ∈ (unplaced options statements).records, ∃ ids, r.body = .pool ids ∧
      literal.id ∈ ids := by
  obtain ⟨houtcome, hended⟩ := outcome_unplaced options statements
  have hfinished :=
    houtcome.finished (fun hnew => by simp [Layout.new] at hnew) hended
  intro literal hl
  refine ⟨hfinished literal hl, ?_⟩
  rcases houtcome.pooled literal hl (hfinished literal hl) with hbefore | hpool
  · simp [Layout.new] at hbefore
  · exact hpool

end Program

end System370
