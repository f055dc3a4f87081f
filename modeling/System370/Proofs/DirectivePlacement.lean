import System370.Proofs.StoragePlacement

/-!
# Directives have their place

One lemma for every directive, assembled in `Draft.laid_layOutDirective`.
Directives that move the counter or open a section stand on what a moved counter
leaves in place (`Draft.Homed.laid_setLoc`, `Draft.laid_startAt`); those that
make a pool stand on `LiteralPool.flush_spec`.
-/

namespace System370

namespace Draft

variable {d d' : Draft} {l : Layout}

/-- Settling an equate changes its body, and defines its label or reports. -/
theorem settle_spec (hwf : d.layout.WellFormed) (h : d.Anchored)
    (hequate : ∃ value waiting, d.record.body = .equate value waiting)
    (last : Bool) :
    (d.settle last).record.Equated (d.settle last).layout.symbols ∧
      ∃ value waiting,
      Aside (d.withBody (.equate value waiting)) (d.settle last) := by
  have hplace : ∀ value waiting,
      (d.withBody (.equate value waiting)).record.place = d.record.place := by
    obtain ⟨value, waiting, hbody⟩ := hequate
    simp [Record.place, Record.instruction?, hbody, Draft.withBody]
  unfold settle
  split
  · rename_i e he
    split
    · exact ⟨fun value hbody => by simp [Draft.withBody] at hbody, _, _,
        Aside.refl _⟩
    · refine ⟨fun value hbody => Or.inr ⟨?_, ?_⟩, _, _, aside_report _ _ _⟩
      · exact errored_report _ _ (isError_equateValue he)
      · simpa [report, Draft.withBody, eq_comm] using hbody
  · rename_i result hresult
    have hknown := knowsValue_equateValue hwf.symbols h hresult
    have haside : Aside (d.withBody (.equate result.value false))
        ((d.withBody (.equate result.value false)).define d.record.label
          ⟨result.value, result.length, plainKind, d.statement.line⟩) :=
      aside_define fun _ => hknown
    refine ⟨fun value hbody => Or.inl ?_, _, _, haside⟩
    obtain ⟨r, hr, hvalue⟩ := evaluate_of_equateValue hresult
    have hsame : value = result.value := by
      rw [haside.body] at hbody
      simpa [Draft.withBody, eq_comm] using hbody
    refine ⟨r, ?_, hvalue.trans hsame.symm, fun hok => ?_⟩
    · have hext := (haside.grows hwf.symbols).2
      have hrecord := haside.record
      rw [hrecord]
      exact Expression.result_evaluate_mono hext.definitions
        (hplace result.value false ▸ hr)
    · -- the label was new, or there is an error
      rw [hsame]
      unfold define at hok ⊢
      cases hdefine : (d.withBody
        (.equate result.value false)).layout.symbols.define d.record.label
          ⟨result.value, result.length, plainKind, d.statement.line⟩ with
      | error e =>
          rw [hdefine] at hok
          exact absurd (hok.symm.trans (errored_report _ _ rfl))
            Bool.false_ne_true
      | ok t =>
          have hdefined :=
            (SymbolTable.definition?_define hdefine d.record.label).2
          exact ⟨_, hdefined.trans (if_pos rfl), rfl⟩

/-- The place of an equate that is settled. -/
theorem laid_settle (hwf : d.layout.WellFormed)
    (hext : l.Extends d.layout) (hobject : d.record.object = none)
    (hequate : ∃ value waiting, d.record.body = .equate value waiting)
    (hanchored : d.Anchored)
    (hfits : ∀ s, d.layout.symbols.section? d.record.sectionId = some s →
      d.record.loc + d.record.length ≤ s.length) (last : Bool) :
        Laid l (d.settle last) := by
  obtain ⟨hequated, value, waiting, haside⟩ :=
    settle_spec hwf hanchored hequate last
  obtain ⟨hwf', hgrown⟩ := haside.layout hwf
  have hrecord := haside.record
  refine laid_of_extends hwf' (hext.trans hgrown)
    (placed_of_equated ?_ (Or.inr ⟨_, _, haside.body⟩) hequated
      (haside.anchored hanchored) ?_)
    (Record.namesNone_of_equate haside.body)
  · rw [hrecord]
    exact hobject
  · intro s hs
    rw [haside.still.section?] at hs
    rw [hrecord] at hs ⊢
    exact hfits s hs

/-- The place of an equate in which something is missing. -/
theorem Seated.laid_missing (h : d.Seated) (hext : l.Extends d.layout)
    (cursor : Cursor) {problem : Problem}
    (hproblem : problem.severity.isError = true) :
    Laid l
      ((d.withBody (.equate (.absolute 0) false)).report cursor problem) := by
  have hafter := (h.withBody (.equate (.absolute 0) false)).aside
    (aside_report _ cursor problem)
  refine laid_of_extends hafter.homed.layout
    (hext.trans ((aside_report d cursor problem).layout h.homed.layout).2)
    (placed_of_equated hafter.object (Or.inr ⟨_, _, rfl⟩) ?_
      hafter.homed.anchored fun s hs => ?_)
    (Record.namesNone_of_equate rfl)
  · intro value hbody
    exact Or.inr ⟨errored_report _ _
      hproblem, by simpa [report, Draft.withBody, eq_comm] using hbody⟩
  · rw [hafter.length]
    simpa using hafter.loc_le hs

/-- **An equate** gets the value of its operand, or waits, or is an error. -/
theorem laid_layOutEquate (hwf : d.layout.WellFormed)
    (h : d.Fresh) (hlabel : d.record.label = [] → d.statement.label = []) :
    Laid d.layout d.layOutEquate := by
  obtain ⟨hseated, heq⟩ := seated_locate hwf h
  have hext : d.layout.Extends d.locate.layout := heq ▸ Layout.Extends.refl _
  have hlabel₁ : d.locate.record.label = [] →
      d.locate.statement.label = [] := by
    unfold locate
    split <;> exact hlabel
  unfold layOutEquate
  generalize d.locate = d₁ at hseated heq hext hlabel₁
  simp only
  split
  · rename_i hnil
    have hmissing :
        (d₁.withBody (.equate (.absolute 0) false)).statement.label = [] :=
      hlabel₁ hnil
    rw [requireLabel, if_pos hmissing]
    exact hseated.laid_missing hext _ rfl
  · split
    · exact hseated.laid_missing hext _ rfl
    · have hbody := hseated.withBody (.equate (.absolute 0) false)
      refine laid_settle hbody.homed.layout hext hbody.object ⟨_, _,
        rfl⟩ hbody.homed.anchored
        (fun s hs => ?_) false
      rw [hbody.length]
      simpa using hbody.loc_le hs

/-- A step aside leaves a plain record at the location counter. -/
theorem Seated.aside_plain (h : d.Seated) (hext : l.Extends d.layout)
    (hplain : isPlain d.record) (haside : Aside d d') :
    d'.Seated ∧ l.Extends d'.layout ∧ isPlain d'.record := by
  refine ⟨h.aside haside, hext.trans (haside.layout h.homed.layout).2, ?_⟩
  rw [haside.record]
  exact hplain

/-- The place of a record at a location to which the counter is set. -/
theorem Homed.laid_setLoc (h : d.Homed) (hext : l.Extends d.layout)
    (loc : Int64) (hobject : d.record.object = none) (hplain : isPlain d.record)
    (hend : ∀ s, d.layout.symbols.section? d.record.sectionId = some s →
      d.record.loc + d.record.length = loc) : Laid l (d.setLoc loc) := by
  obtain ⟨hwf, hgrown⟩ := grows_setLoc d loc h.layout
  refine laid_of_extends hwf (hext.trans hgrown)
    (placed_of_isPlain
      (d := d.setLoc loc) hobject hplain (h.anchored_setLoc loc) ?_)
    (namesNone_of_isPlain hplain)
  intro s hs
  obtain ⟨s₀, hs₀⟩ := h.anchored (SymbolTable.ne_zero_of_section? hs)
  show d.record.loc + d.record.length ≤ s.length
  rw [hend s₀ hs₀]
  exact h.le_length_setLoc loc hs

/-- `ORG` moves within its section. -/
theorem laid_moveTo (h : d.Seated) (hext : l.Extends d.layout)
    (hplain : isPlain d.record) (target : Int64) :
    Laid l (d.moveTo target) := by
  have hmoved : (d.withLoc target).Homed :=
    ⟨h.homed.layout, h.homed.home, h.homed.homeless⟩
  refine (hmoved.laid_setLoc hext target h.object hplain fun _ _ =>
    ?_).defineMark target
  show target + d.record.length = target
  rw [h.length]
  simp

/-- **An origin** moves the location counter inside its section. -/
theorem laid_layOutOrigin (hwf : d.layout.WellFormed) (h : d.Fresh) :
    Laid d.layout d.layOutOrigin := by
  obtain ⟨hensured, hext⟩ := seated_ensureSection hwf h
  unfold layOutOrigin
  generalize d.ensureSection = d₁ at hensured hext
  have hseated := hensured.withBody .located
  have hplain : isPlain (d₁.withBody .located).record := rfl
  generalize hd₂ : d₁.withBody .located = d₂ at hseated hplain
  have hext₂ : d.layout.Extends d₂.layout := by rw [← hd₂]; exact hext
  simp only
  split
  · exact laid_moveTo hseated hext₂ hplain _
  · rename_i text _
    obtain ⟨hafter, hext₃, hplain₃⟩ :=
      hseated.aside_plain hext₂ hplain (aside_evaluate d₂ text)
    generalize d₂.evaluate text = evaluated at *
    obtain ⟨outcome, d₃⟩ := evaluated
    simp only at hafter hext₃ hplain₃ ⊢
    split
    · exact (hafter.laid hext₃ hplain₃).report _ _
    · split
      · exact (hafter.laid hext₃ hplain₃).report _ _
      · exact laid_moveTo hafter hext₃ hplain₃ _

/-- A record at the location counter reaches up to the location where the
counter goes. -/
theorem Seated.laid_reach (h : d.Seated) (hext : l.Extends d.layout)
    (hplain : isPlain d.record) (target : Int64) : Laid l
      (Draft.setLoc
      { d with record := { d.record with length := target - d.loc } }
        target) := by
  let reaching : Draft :=
    { d with record := { d.record with length := target - d.loc } }
  have hhomed : reaching.Homed :=
    ⟨h.homed.layout, h.homed.home, h.homed.homeless⟩
  refine hhomed.laid_setLoc hext target h.object hplain fun s hs => ?_
  show d.record.loc + (target - d.loc) = target
  rw [h.loc_eq hs]
  grind

/-- **A conditional no-operation** reaches up to the location it aligns to. -/
theorem laid_layOutAlignment (hwf : d.layout.WellFormed) (h : d.Fresh) :
    Laid d.layout d.layOutAlignment := by
  obtain ⟨hensured, hext⟩ := seated_ensureSection hwf h
  unfold layOutAlignment
  generalize d.ensureSection = d₁ at hensured hext
  have hseated := hensured.withBody .located
  have hplain : isPlain (d₁.withBody .located).record := rfl
  generalize hd₂ : d₁.withBody .located = d₂ at hseated hplain
  have hext₂ : d.layout.Extends d₂.layout := by rw [← hd₂]; exact hext
  have hlaid := hseated.laid hext₂ hplain
  simp only
  split
  · rename_i a b _
    obtain ⟨hafter, hext₃, hplain₃⟩ :=
      hseated.aside_plain hext₂ hplain (aside_absolutePair d₂ a b)
    generalize d₂.absolutePair a b = evaluated at *
    obtain ⟨outcome, d₃⟩ := evaluated
    simp only at hafter hext₃ hplain₃ ⊢
    have hlaid₃ := hafter.laid hext₃ hplain₃
    split
    · exact hlaid₃.report _ _
    · rename_i offset width
      split
      · exact hlaid₃.report _ _
      · split
        · exact hlaid₃.report _ _
        · exact (hafter.laid_reach hext₃ hplain₃
            (alignTo d₃.loc offset width)).defineMark _
  · split
    · exact hlaid.report _ _
    · exact hlaid.report _ _

/-- The place of a record of literals that were just flushed. -/
theorem placed_pool {l l' : Layout} (hwf : l.WellFormed) {r : Record}
    {sectionId : Int} {loc : Int64} (hext : l.Keeps l')
    (hliterals : l'.literals = (l.literals.flush sectionId loc).pool)
    (hobject : r.object = none) (hid : r.sectionId = sectionId)
    (hbody : r.body =
      .pool ((l.literals.flush sectionId loc).placed.map (·.id)))
    (hloc : r.loc = alignUp loc 8)
    (hlength : r.length =
      (l.literals.flush sectionId loc).behind - alignUp loc 8)
    (hplaced : (l.literals.flush sectionId loc).placed ≠ [])
    (hanchored : r.sectionId ≠ 0 → ∃ s,
      l'.symbols.section? r.sectionId = some s)
    (hfits : ∀ s, l'.symbols.section? r.sectionId = some s →
      (l.literals.flush sectionId loc).behind ≤ s.length) : r.Placed l' := by
  have hflush := LiteralPool.flush_spec l.literals sectionId loc
  have hdescribed : ∀ literal ∈ l.literals.literals,
      literal.descriptor.isSome := by
    intro literal hl
    obtain ⟨d, hd, -⟩ := hwf.described literal hl
    simp [hd]
  have hchain := LiteralPool.flush_constants hdescribed hplaced
  have hconstants : r.constants l'.literals =
      (l.literals.flush sectionId loc).placed.filterMap
        (LiteralPool.constantFrom (alignUp loc 8)) := by
    rw [Record.constants_of_pool hbody, hliterals, hloc]
    exact LiteralPool.constants_of_placed fun literal hl =>
      (hflush.mem literal hl).1
  have hconstant : ∀ c ∈ r.constants l'.literals,
      c.1.Sound ∧ c.1.Accepted l.symbols := by
    intro c hc
    rw [hconstants] at hc
    obtain ⟨literal, hl, hsome⟩ := List.mem_filterMap.mp hc
    obtain ⟨d, hd, hsound, haccepted⟩ := hwf.described_flush hl
    simp only [LiteralPool.constantFrom, hd, Option.bind_some,
      Option.map_eq_some_iff] at hsome
    obtain ⟨spot, -, rfl⟩ := hsome
    exact ⟨hsound, haccepted⟩
  refine ⟨hobject, hanchored, fun s hs => ?_, fun op bound heq => ?_,
    fun _ => ?_, fun c hc => (hconstant c hc).1,
    fun _ c hc => hext.symbols.accepted (hconstant c hc).2,
    fun ids heq id hmem => ?_, fun value heq => by simp [hbody] at heq,
    fun op bound heq => by simp [hbody] at heq,
    fun op bound heq => by simp [hbody] at heq, by simp [Record.Aligned, hbody]⟩
  · have hend : r.loc + r.length = (l.literals.flush sectionId loc).behind := by
      rw [hloc, hlength]
      grind
    rw [hend]
    exact hfits s hs
  · simp [hbody] at heq
  · rw [hconstants, hlength]
    exact hchain
  · rw [hbody] at heq
    cases heq
    obtain ⟨literal, hl, rfl⟩ := List.mem_map.mp hmem
    obtain ⟨hfound, hsection, hplace⟩ := hflush.mem literal hl
    obtain ⟨d, hd, -⟩ := hwf.described_flush hl
    exact ⟨literal, by rw [hliterals]; exact hfound, hsection.trans hid.symm,
      hplace, by simp [hd]⟩

/-- **A pool of literals** is as long as its literals. -/
theorem laid_layOutPool (hwf : d.layout.WellFormed) (h : d.Fresh) :
    Laid d.layout d.layOutPool := by
  obtain ⟨hseated, hext⟩ := seated_ensureSection hwf h
  have hliterals := literals_ensureSection d
  unfold layOutPool
  generalize d.ensureSection = d₁ at hseated hext hliterals
  simp only
  let d₂ : Draft := { d₁ with layout :=
    { d₁.layout with literals :=
      (d₁.layout.literals.flush d₁.record.sectionId d₁.loc).pool } }
  obtain ⟨hwf₂, hkeeps⟩ :=
    Layout.keeps_flush hseated.homed.layout d₁.record.sectionId d₁.loc
  have hflush :=
    LiteralPool.flush_spec d₁.layout.literals d₁.record.sectionId d₁.loc
  have hpending := hflush.pending
  have hlength := hflush.length
  split
  · rename_i hnil
    have hseated₂ : (d₂.withBody .located).Seated :=
      ⟨⟨hwf₂, hseated.homed.home, hseated.homed.homeless⟩, hseated.object,
        hseated.length, hseated.seat⟩
    have hext₂ : d₁.layout.Extends (d₂.withBody .located).layout := by
      refine ⟨⟨hkeeps, rfl, fun i literal hl hplace => ?_⟩, hlength⟩
      have hold := Layout.placed_flush (List.mem_of_getElem? hl) hplace
      rw [hnil, (LiteralPool.inStep _).numbered i literal hl] at hold
      simpa using hold
    exact (hseated₂.laid (hext.trans hext₂) rfl).defineMark _
  · rename_i hne
    let flushed := d₁.layout.literals.flush d₁.record.sectionId d₁.loc
    let d₃ : Draft := { d₂ with record := { d₁.record with
      body := .pool (flushed.placed.map (·.id))
      loc := alignUp d₁.loc 8
      length := flushed.behind - alignUp d₁.loc 8 } }
    have hhomed : d₃.Homed := ⟨hwf₂, hseated.homed.home, hseated.homed.homeless⟩
    obtain ⟨hwf₃, hgrown⟩ := grows_setLoc d₃ flushed.behind hwf₂
    have hlaid : Laid d.layout (d₃.setLoc flushed.behind) := by
      refine ⟨hwf₃, (hext.toKeeps.trans hkeeps).trans hgrown.toKeeps,
        hgrown.ended.trans hext.ended, fun literal hl hplace => ?_,
        placed_pool hseated.homed.layout (hkeeps.trans hgrown.toKeeps) rfl
          hseated.object rfl rfl rfl
          rfl (fun hnil => hne hnil) (hhomed.anchored_setLoc _)
          (fun s hs => hhomed.le_length_setLoc flushed.behind hs),
        by simp [Awaits, setLoc, mapSymbols, d₃], fun ids hids => ?_,
        by simp [Record.Spells, setLoc, mapSymbols, d₃], introduced_of_counted
          (hlength.trans (congrArg _ (congrArg _ hliterals)))⟩
      rcases Layout.placed_flush hl hplace with hbefore | hnew
      · exact Or.inl (hext.waiting _ _ hbefore hplace)
      · exact Or.inr ⟨_, rfl, hnew⟩
      · cases hids
        rw [← hliterals]
        exact hpending
    exact hlaid.defineMark _

/-- An opened section is current. -/
theorem current_openSection {t t' : SymbolTable} {label : Bytes}
    {kind : SectionKind} {line : Int}
    (h : t.openSection label kind line = .ok t') : t'.current.isSome := by
  unfold SymbolTable.openSection at h
  split at h
  · split at h
    · simp at h
    · obtain rfl := Except.ok.inj h
      rfl
  · split at h
    · simp at h
    · unfold SymbolTable.startSection at h
      simp only at h
      split at h
      · obtain rfl := Except.ok.inj h
        rfl
      · rw [(SymbolTable.still_define h).current]
        rfl

/-- The label of a section that is not resumed was not defined before. -/
theorem undefined_of_openSection {t t' : SymbolTable} {label : Bytes}
    {kind : SectionKind} {line : Int}
    (hnumbered : t.Numbered) (h : t.openSection label kind line = .ok t')
    (hfirst : t'.currentSection?.all (!·.continued)) (hne : label ≠ []) :
    t.definition? label = none := by
  unfold SymbolTable.openSection at h
  split at h
  · rename_i existing hexisting
    split at h
    · simp at h
    · obtain rfl := Except.ok.inj h
      have hsection := hnumbered.sectionOfLabel? hexisting
      have hfrozen : ∃ s, t.freeze.section? existing.id = some s := by
        unfold SymbolTable.freeze SymbolTable.modifyCurrent
        split
        · rw [SymbolTable.section?_modifySection, hsection]
          split <;> exact ⟨_, rfl⟩
        · exact ⟨_, hsection⟩
      obtain ⟨s, hs⟩ := hfrozen
      have hresumed : (t.freeze.modifySection existing.id
          Section.resume).section? existing.id =
          some s.resume := by
        rw [SymbolTable.section?_modifySection, if_pos rfl, hs]
        rfl
      have hcurrent : ({ t.freeze.modifySection existing.id Section.resume with
          current := some existing.id } : SymbolTable).currentSection? =
            some s.resume := hresumed
      simp [hcurrent, Section.resume] at hfirst
  · split at h
    · simp at h
    · rename_i hnone
      rwa [if_neg hne] at hnone

/-- Moving a label that was not defined before to a place in the section of a
plain record. -/
theorem Laid.move (h : Laid l d) (hext : l.Extends d.layout)
    (hplain : isPlain d.record)
    (hnew : l.symbols.definition? d.record.label = none)
    (hne : d.record.sectionId ≠ 0) (loc : Int64) : Laid l
      (d.mapSymbols
        (·.move d.record.label (.relocatable loc d.record.sectionId))) := by
  have hvalue : d.layout.symbols.KnowsValue
      (Value.relocatable loc d.record.sectionId) := by
    intro term hterm
    simp only [Value.relocatable, List.mem_singleton] at hterm
    rw [hterm]
    exact h.anchored hne
  exact laid_of_extends
    (h.layout.congr (SymbolTable.wellFormed_move h.layout.symbols _ hvalue)
      (fun _ he => he) (fun _ s hs => ⟨s, hs⟩) rfl rfl)
    ⟨⟨⟨hext.symbols.move hnew _, hext.placed, hext.literals⟩, hext.ended,
      hext.waiting⟩, hext.counted⟩
    (placed_of_isPlain h.record.object hplain h.record.anchored h.record.fits)
    (namesNone_of_isPlain hplain)

/-- The start of a section moves its label along with it. -/
theorem laid_startAt (h : d.Seated) (hcurrent : d.currentSection?.isSome)
    (hext : l.Extends d.layout) (hplain : isPlain d.record)
    (hnew : d.record.label ≠ [] → l.symbols.definition? d.record.label = none)
    (text : Bytes) :
    Laid l (d.startAt text) := by
  have haside := aside_absolute d text
  obtain ⟨hafter, hext', hplain'⟩ := h.aside_plain hext hplain haside
  have hcurrent' : (d.absolute text).2.currentSection?.isSome := by
    rw [haside.currentSection?]
    exact hcurrent
  have hnew' : (d.absolute text).2.record.label ≠ [] →
      l.symbols.definition? (d.absolute text).2.record.label = none := by
    rw [haside.record]
    exact hnew
  unfold startAt
  generalize d.absolute text = evaluated at *
  obtain ⟨outcome, d₁⟩ := evaluated
  simp only at haside hafter hext' hplain' hcurrent' hnew' ⊢
  split
  · exact (hafter.laid hext' hplain').report _ _
  · split
    · exact (hafter.laid hext' hplain').report _ _
    · rename_i origin _
      generalize alignUp origin 8 = start
      have hmoved : (d₁.withLoc start).Homed :=
        ⟨hafter.homed.layout, hafter.homed.home, hafter.homed.homeless⟩
      have hlaid : Laid l ((d₁.setLoc start).withLoc start) := by
        refine hmoved.laid_setLoc hext' start hafter.object hplain'
          fun _ _ => ?_
        show start + d₁.record.length = start
        rw [hafter.length]
        simp
      split
      · exact hlaid
      · rename_i hlabel
        obtain ⟨s, hs⟩ := Option.isSome_iff_exists.mp hcurrent'
        have hsection :=
          (hafter.homed.layout.symbols.numbered.currentSection? hs).2
        have hne : d₁.record.sectionId ≠ 0 := by
          rw [hafter.homed.home s hs]
          exact SymbolTable.ne_zero_of_section? hsection
        exact hlaid.move
          (hext'.trans (grows_setLoc d₁ start hafter.homed.layout).2) hplain'
          (hnew' hlabel) hne start

/-- **A section statement** opens its section, or reports. -/
theorem laid_openSection (hwf : d.layout.WellFormed) (h : d.Fresh)
    (kind : SectionKind) :
    Laid d.layout (d.openSection kind) ∧
      ((d.openSection kind).record.body = .located →
        (d.openSection kind).Seated ∧
        (d.openSection kind).currentSection?.isSome ∧
        d.layout.Extends (d.openSection kind).layout ∧
        ((d.openSection kind).currentSection?.all (!·.continued) →
          (d.openSection kind).record.label ≠ [] →
          d.layout.symbols.definition? (d.openSection kind).record.label =
            none)) := by
  unfold openSection
  split
  · refine ⟨(h.laid hwf).report _ _, fun hbody => ?_⟩
    have : d.record.body = .located := hbody
    simp [h.body] at this
  · rename_i t ht
    have hgrows : d.layout.Grows { d.layout with symbols := t } :=
      Layout.grows_of_symbols (SymbolTable.grows_openSection h.label ht) rfl rfl
        rfl
    obtain ⟨hwf', hext⟩ := hgrows hwf
    let d₁ : Draft := (d.mapSymbols fun _ => t).withBody .located
    obtain ⟨id, hid⟩ := Option.isSome_iff_exists.mp (current_openSection ht)
    obtain ⟨s, hs⟩ := hwf'.symbols.numbered.current id hid
    have hcurrent : d₁.currentSection? = some s := by
      show t.currentSection? = some s
      rw [SymbolTable.currentSection?, hid]
      exact hs
    have hlocate : d₁.locate = { d₁ with record :=
        { d₁.record with sectionId := s.id, loc := s.loc } } := by
      rw [locate, hcurrent]
    have hseated : d₁.locate.Seated := by
      rw [hlocate]
      refine ⟨⟨hwf', fun s' hs' => ?_, fun hnone => ?_⟩, h.object, h.length,
        fun s' hs' => ?_⟩
      · rw [Option.some.inj (hs'.symm.trans hcurrent)]
      · have : d₁.currentSection? = none := hnone
        simp [hcurrent] at this
      · rw [Option.some.inj (hs'.symm.trans hcurrent)]
    have hplain : isPlain d₁.locate.record := by
      rw [hlocate]
      rfl
    have hlayout : d₁.locate.layout = { d.layout with symbols := t } := by
      rw [hlocate]
      rfl
    have hsame : d₁.locate.currentSection? = d₁.currentSection? := by
      rw [hlocate]
      rfl
    have hlabel : d₁.locate.record.label = d.record.label := by
      rw [hlocate]
      rfl
    refine ⟨hseated.laid (hlayout ▸ hext) hplain,
      fun _ => ⟨hseated, ?_, hlayout ▸ hext, fun hfirst hne => ?_⟩⟩
    · show d₁.locate.currentSection?.isSome
      rw [hsame, hcurrent]
      rfl
    · show d.layout.symbols.definition? d₁.locate.record.label = none
      rw [hlabel]
      have hfirst₁ : d₁.locate.currentSection?.all (!·.continued) := hfirst
      rw [hsame] at hfirst₁
      exact undefined_of_openSection hwf.symbols.numbered ht hfirst₁
        (hlabel ▸ hne)

/-- A directive that opens a section. -/
theorem laid_layOutSection (hwf : d.layout.WellFormed) (h : d.Fresh)
    (directive : Directive) :
    Laid d.layout (d.layOutSection directive) := by
  unfold layOutSection
  split
  · split
    · exact (h.laid hwf).aside (aside_requireLabel d)
    · exact (laid_openSection hwf h .dummy).1
  · simp only
    generalize (if d.record.label = [] then SectionKind.unnamed else .named) =
      kind
    obtain ⟨hlaid, hopened⟩ := laid_openSection hwf h kind
    split
    · rename_i hbody _
      obtain ⟨hseated, hcurrent, hext, hnew⟩ := hopened hbody
      split
      · rename_i hfirst
        exact laid_startAt hseated hcurrent hext (by simp [isPlain, hbody])
          (hnew hfirst.2) _
      · exact hlaid
    · exact hlaid

/-- A layout that differs only in its modes or its name. -/
theorem Laid.congr (h : Laid l d) {l' : Layout}
    (hsymbols : l'.symbols = d.layout.symbols)
    (hliterals : l'.literals = d.layout.literals)
    (hended : l'.ended = d.layout.ended) (hmodes : ∀ m ∈ l'.modes, m.2.Valid) :
    Laid l { d with layout := l' } := by
  have hgrows : d.layout.Grows { l' with modes := d.layout.modes } :=
    Layout.grows_of_symbols (hsymbols ▸ SymbolTable.Grows.refl _)
      hliterals rfl hended
  have hwf := (hgrows h.layout).1
  have hext : d.layout.Extends l' :=
    Layout.extends_of_symbols (hsymbols ▸ SymbolTable.Extends.refl _)
      hliterals hended
  exact h.extend ⟨hwf.symbols, hwf.described, hwf.housed, hmodes,
    hwf.aligned⟩ hext
    rfl rfl rfl (h.record.mono hext.toKeeps)

/-- Setting a mode that there is. -/
theorem valid_setMode {modes : List (Bytes × Modes)}
    (h : ∀ m ∈ modes, m.2.Valid)
    (label : Bytes) {f : Modes → Modes} (hf : ∀ m, m.Valid → (f m).Valid) :
    ∀ m ∈ setMode modes label f, m.2.Valid := by
  have hnone : Modes.Valid {} := ⟨Or.inl rfl, Or.inl rfl⟩
  intro m hm
  unfold setMode at hm
  split at hm
  · obtain ⟨m₀, hm₀, rfl⟩ := List.mem_map.mp hm
    split
    · exact hf _ (h m₀ hm₀)
    · exact h m₀ hm₀
  · rcases List.mem_append.mp hm with hm | hm
    · exact h m hm
    · rw [List.mem_singleton.mp hm]
      exact hf _ hnone

/-- `AMODE` and `RMODE` take no place. -/
theorem laid_layOutMode (hwf : d.layout.WellFormed) (h : d.Fresh)
    (isAddressing : Bool) :
    Laid d.layout (d.layOutMode isAddressing) := by
  have hlaid := h.laid hwf
  unfold layOutMode
  split
  · rename_i operand _
    by_cases hvalid :
      (if isAddressing then validAddressingMode (toUpper operand)
        else validResidenceMode (toUpper operand)) = true
    · simp only [hvalid, if_true]
      refine hlaid.congr rfl rfl rfl ?_
      dsimp only
      refine valid_setMode hwf.modes _ fun m hm => ?_
      cases isAddressing with
      | true => exact ⟨Or.inr (by simpa using hvalid), hm.residence⟩
      | false => exact ⟨hm.addressing, Or.inr (by simpa using hvalid)⟩
    · simp only [hvalid]
      exact hlaid.report _ _
  · exact hlaid.report _ _

theorem laid_layOutTitle (hwf : d.layout.WellFormed) (h : d.Fresh) :
    Laid d.layout d.layOutTitle := by
  have hlaid := h.laid hwf
  unfold layOutTitle
  split
  · exact hlaid.congr rfl rfl rfl hwf.modes
  · exact hlaid

/-- **A directive** leaves the layout well-formed and its record in its
place. -/
theorem laid_layOutDirective (hwf : d.layout.WellFormed) (h : d.Fresh)
    {directive : Directive} (hdirective : d.record.directive = some directive)
    (hlabel : d.record.label = [] → d.statement.label = []) :
    Laid d.layout (d.layOutDirective directive) := by
  have hlocated : Laid d.layout (d.locate.withBody .located) := by
    obtain ⟨hseated, heq⟩ := seated_locate hwf h
    exact (hseated.withBody .located).laid (heq ▸ Layout.Extends.refl _) rfl
  have hunplaced : Laid d.layout (d.withBody .located) := by
    refine laid_of_extends hwf (Layout.Extends.refl _)
      (placed_of_isPlain (d := d.withBody .located) h.object rfl ?_ ?_)
      (namesNone_of_isPlain rfl)
    · exact fun hne => absurd h.sectionId hne
    · exact fun s hs => absurd h.sectionId (SymbolTable.ne_zero_of_section? hs)
  cases directive with
  | start => exact laid_layOutSection hwf h _
  | csect => exact laid_layOutSection hwf h _
  | rsect => exact laid_layOutSection hwf h _
  | dsect => exact laid_layOutSection hwf h _
  | dc => exact laid_layOutStorage hwf h true (by simp)
  | ds => exact laid_layOutStorage hwf h false fun _ => hdirective
  | equ => exact laid_layOutEquate hwf h hlabel
  | org => exact laid_layOutOrigin hwf h
  | cnop => exact laid_layOutAlignment hwf h
  | ltorg => exact laid_layOutPool hwf h
  | use =>
      simp only [layOutDirective]
      split
      · exact hlocated.report _ _
      · exact hlocated
  | drop => exact hlocated
  | entry =>
      exact hlocated.aside (aside_forEachName
        (fun d cursor _ _ hlabel => aside_offer d cursor hlabel) _)
  | extrn =>
      exact hunplaced.aside (aside_forEachName
        (fun d cursor _ hname hlabel =>
          aside_declare false d cursor hname hlabel) _)
  | wxtrn =>
      exact hunplaced.aside (aside_forEachName
        (fun d cursor _ hname hlabel =>
          aside_declare true d cursor hname hlabel) _)
  | amode => exact laid_layOutMode hwf h true
  | rmode => exact laid_layOutMode hwf h false
  | title => exact laid_layOutTitle hwf h
  | ending => exact h.laid hwf
  | eject => exact h.laid hwf
  | space => exact h.laid hwf
  | print => exact h.laid hwf

end Draft

end System370
