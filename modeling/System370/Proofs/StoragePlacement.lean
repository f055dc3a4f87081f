import System370.Proofs.StatementPlacement

/-!
# Storage statements have their place

The constants of a storage statement are laid out one after the other.
`Draft.Storing` is what holds between them: the constants so far form a chain
from the start of the record to the location that was reached, and the next
constant makes it longer by itself and the gap in front of it
(`Draft.Storing.push`).
-/

namespace System370

namespace Draft

variable {d d' : Draft} {l : Layout}

/-- The state while the operands of a storage statement are laid out.  `d₀` is
the draft before the first of them. -/
structure Storing (d₀ : Draft) (isData : Bool) (d : Draft)
    (loc : Int64) : Prop where
  layout : d.layout.WellFormed
  grown : d₀.layout.Extends d.layout
  still : d₀.layout.symbols.Still d.layout.symbols
  object : d.record.object = none
  sectionId : d.record.sectionId = d₀.record.sectionId
  directive : d.record.directive = d₀.record.directive
  length : d.record.length = 0
  body : d.record.body = .storage d.parts
  chain : d.parts ≠ [] → Chain 0 d.parts (loc - d.record.loc)
  sound : ∀ c ∈ d.parts, c.1.Sound
  accepted : isData → ∀ c ∈ d.parts, c.1.Accepted d.layout.symbols
  aligned : ∀ c ∈ d.parts, OnBoundary c.1.alignment (d.record.loc + c.2)

theorem parts_congr (h : d'.record.body = d.record.body) :
    d'.parts = d.parts := by
  simp only [parts, h]

/-- A step aside leaves the constants where they are. -/
theorem Storing.aside {d₀ : Draft} {isData : Bool} {loc : Int64}
    (h : Storing d₀ isData d loc) (haside : Aside d d') :
    Storing d₀ isData d' loc := by
  obtain ⟨hwf, hext⟩ := haside.layout h.layout
  have hparts := parts_congr haside.body
  have hrecord := haside.record
  refine ⟨hwf, h.grown.trans hext, h.still.trans haside.still, ?_,
    haside.sectionId.trans h.sectionId, ?_, ?_, ?_, ?_, ?_, ?_, ?_⟩
  · rw [hrecord]
    exact h.object
  · rw [hrecord]
    exact h.directive
  · rw [hrecord]
    exact h.length
  · rw [haside.body, hparts]
    exact h.body
  · rw [hparts, hrecord]
    exact h.chain
  · rw [hparts]
    exact h.sound
  · rw [hparts]
    exact fun hdata c hc => hext.symbols.accepted (h.accepted hdata c hc)
  · rw [hparts, hrecord]
    exact h.aligned

/-- The section stays open while constants are placed. -/
theorem Storing.anchored {d₀ : Draft} (hd₀ : d₀.Homed) {isData : Bool}
    {loc : Int64} (h : Storing d₀ isData d loc) : d.Anchored :=
  (hd₀.congr h.layout h.still h.sectionId).anchored

theorem alignment_toInt_le (descriptor : Constant.Descriptor) :
    (Int64.ofNat descriptor.alignment).toInt ≤ 8 := by
  have := descriptor.alignment_le
  rw [Int64.toInt_ofNat_of_lt (by omega)]
  omega

/-- A constant behind the ones before it, if the record has its location. -/
theorem Storing.push {d₀ : Draft} {isData : Bool} {loc next offset : Int64}
    (h : Storing d₀ isData d loc) {descriptor : Constant.Descriptor}
    (hsound : descriptor.Sound)
    (haccepted : isData → descriptor.Accepted d.layout.symbols)
    (haligned : OnBoundary descriptor.alignment (d.record.loc + offset))
    (hchain : Chain 0 (d.parts ++ [(descriptor, offset)]) (next - d.record.loc)) :
    Storing d₀ isData
      (d.withBody (.storage (d.parts ++ [(descriptor, offset)]))) next := by
  refine ⟨h.layout, h.grown, h.still, h.object, h.sectionId, h.directive,
    h.length, rfl, fun _ => hchain,
    fun c hc => ?_, fun hdata c hc => ?_, fun c hc => ?_⟩
  · rcases List.mem_append.mp hc with hc | hc
    · exact h.sound c hc
    · rw [List.mem_singleton.mp hc]
      exact hsound
  · rcases List.mem_append.mp hc with hc | hc
    · exact h.accepted hdata c hc
    · rw [List.mem_singleton.mp hc]
      exact haccepted hdata
  · rcases List.mem_append.mp hc with hc | hc
    · exact h.aligned c hc
    · rw [List.mem_singleton.mp hc]
      exact haligned

/-- **A constant is placed behind the ones before it.** -/
theorem Storing.placeConstant {d₀ : Draft} (hd₀ : d₀.Homed) {isData : Bool}
    {loc : Int64} (h : Storing d₀ isData d loc)
    {descriptor : Constant.Descriptor} (hsound : descriptor.Sound)
    (haccepted : isData → descriptor.Accepted d.layout.symbols) :
    Storing d₀ isData
      (d.placeConstant descriptor
        (alignUp loc (Int64.ofNat descriptor.alignment)))
      (alignUp loc (Int64.ofNat descriptor.alignment) +
        Int64.ofNat descriptor.size) := by
  obtain ⟨gap, hlow, hhigh, hgap⟩ :=
    alignUp_eq_add loc (alignment_toInt_le descriptor)
  have haligned := OnBoundary.of_alignUp descriptor.alignment_dvd loc
  unfold Draft.placeConstant
  split
  · -- the first constant gives the record its location
    rename_i hnil
    generalize alignUp loc (Int64.ofNat descriptor.alignment) =
      first at haligned
    have hmoved : Storing d₀ isData (d.withLoc first) loc :=
      ⟨h.layout, h.grown, h.still, h.object, h.sectionId, h.directive,
          h.length, h.body,
        fun hne => absurd hnil hne, h.sound, h.accepted, fun c hc => by
          have hmem : c ∈ d.parts := hc
          simp [hnil] at hmem⟩
    have haside := aside_defineLabel (hmoved.anchored hd₀) first
      (Int64.ofNat descriptor.lengthAttribute) descriptor.kind.letter
    have hlabelled := hmoved.aside haside
    generalize (d.withLoc first).defineLabel first
      (Int64.ofNat descriptor.lengthAttribute)
      descriptor.kind.letter = d₁ at haside hlabelled
    have hloc : d₁.record.loc = first := by
      rw [haside.record]
      rfl
    have hparts : d₁.parts = [] := (parts_congr haside.body).trans hnil
    have hext := (haside.layout h.layout).2
    have hoffset : d₁.record.loc + (first - d₁.record.loc) = first := by grind
    refine hlabelled.push hsound
      (fun hdata => hext.symbols.accepted (haccepted hdata))
      (hoffset.symm ▸ haligned) ?_
    rw [hparts, hloc]
    refine ⟨⟨0, by simp, by simp, by grind⟩, ?_⟩
    show first + Int64.ofNat descriptor.size - first =
      first - first + Int64.ofNat descriptor.size
    grind
  · rename_i hne
    have hoffset : d.record.loc +
        (alignUp loc (Int64.ofNat descriptor.alignment) - d.record.loc) =
        alignUp loc (Int64.ofNat descriptor.alignment) := by
      grind
    refine h.push hsound haccepted (hoffset.symm ▸ haligned) ?_
    have hchain := (h.chain hne).append hlow hhigh descriptor
    have hoffset :
        alignUp loc (Int64.ofNat descriptor.alignment) - d.record.loc =
        loc - d.record.loc + gap := by
      rw [hgap]
      grind
    have hnext : alignUp loc (Int64.ofNat descriptor.alignment) +
        Int64.ofNat descriptor.size -
        d.record.loc =
          loc - d.record.loc + gap + Int64.ofNat descriptor.size := by
      rw [hgap]
      grind
    rw [hoffset, hnext]
    exact hchain

/-- A placed constant is behind the others. -/
theorem parts_placeConstant_ne_nil (d : Draft)
    (descriptor : Constant.Descriptor) (loc : Int64) :
    (d.placeConstant descriptor loc).parts ≠ [] := by
  simp [Draft.placeConstant, Draft.parts, Draft.withBody]

/-- **One operand of a storage statement.** -/
theorem Storing.layOutConstant {d₀ : Draft} (hd₀ : d₀.Homed) {isData : Bool}
    {loc : Int64} (h : Storing d₀ isData d loc)
    (hstart : d.parts = [] → d.record.loc = d₀.record.loc)
    (operand : Nat × Bytes) :
    Storing d₀ isData (Draft.layOutConstant isData (d, loc) operand).1
      (Draft.layOutConstant isData (d, loc) operand).2 ∧
    ((Draft.layOutConstant isData (d, loc) operand).1.parts = [] →
      (Draft.layOutConstant isData (d, loc) operand).1.record.loc =
        d₀.record.loc) := by
  have hloc : ∀ {d d' : Draft},
      Aside d d' → (d.parts = [] → d.record.loc = d₀.record.loc) →
      d'.parts = [] → d'.record.loc = d₀.record.loc := by
    intro d d' haside hstart hnil
    rw [haside.record]
    exact hstart ((parts_congr haside.body).symm.trans hnil)
  have hparse := aside_parseConstant d operand.2
  have hsound := @sound_parseConstant d operand.2
  have hparsed := h.aside hparse
  unfold Draft.layOutConstant
  simp only
  generalize d.parseConstant operand.2 = parsed at *
  obtain ⟨outcome, d₁⟩ := parsed
  simp only at hparse hsound hparsed ⊢
  split
  · have hreport := aside_report d₁ (d.statement.operandCursor operand.1) ‹_›
    exact ⟨hparsed.aside hreport, hloc (hparse.trans hreport) hstart⟩
  · rename_i descriptor
    have hcheck : Aside d₁ (if isData then
        d₁.acceptData descriptor (d.statement.operandCursor operand.1)
          else (true, d₁)).2 ∧
        ((if isData then
          d₁.acceptData descriptor (d.statement.operandCursor operand.1)
          else (true, d₁)).1 = true → isData →
          descriptor.Accepted (if isData then
            d₁.acceptData descriptor (d.statement.operandCursor operand.1)
            else (true, d₁)).2.layout.symbols) := by
      obtain ⟨haside, haccepted⟩ :=
        acceptData_spec d₁ descriptor (d.statement.operandCursor operand.1)
      split
      · exact ⟨haside, fun hok _ => haccepted hok hparsed.layout.symbols⟩
      · rename_i hdata
        exact ⟨Aside.refl d₁, fun _ h => absurd h hdata⟩
    generalize (if isData then
      d₁.acceptData descriptor (d.statement.operandCursor operand.1)
      else (true, d₁)) = checked at *
    obtain ⟨accepted, d₂⟩ := checked
    obtain ⟨haside, haccepted⟩ := hcheck
    simp only at haside haccepted ⊢
    have hchecked := hparsed.aside haside
    split
    · rename_i hok
      exact ⟨hchecked.placeConstant hd₀ (hsound rfl) (haccepted hok),
        fun hnil => absurd hnil (parts_placeConstant_ne_nil _ _ _)⟩
    · exact ⟨hchecked, hloc (hparse.trans haside) hstart⟩

/-- **The operands of a storage statement, one after the other.** -/
theorem Storing.layOutConstants {d₀ : Draft} (hd₀ : d₀.Homed)
    {isData : Bool} (operands : List (Nat × Bytes))
    (state : Draft × Int64) (h : Storing d₀ isData state.1 state.2)
    (hstart : state.1.parts = [] → state.1.record.loc = d₀.record.loc) :
    Storing d₀ isData (operands.foldl (Draft.layOutConstant isData) state).1
      (operands.foldl (Draft.layOutConstant isData) state).2 ∧
    ((operands.foldl (Draft.layOutConstant isData) state).1.parts = [] →
      (operands.foldl (Draft.layOutConstant isData) state).1.record.loc =
        d₀.record.loc) := by
  induction operands generalizing state with
  | nil => exact ⟨h, hstart⟩
  | cons operand rest ih =>
      obtain ⟨hnext, hstart'⟩ := h.layOutConstant hd₀ hstart operand
      exact ih _ hnext hstart'

/-- The place of a storage statement whose length is that of its constants. -/
theorem Storing.placed {d₀ : Draft} {isData : Bool}
    {loc length : Int64} (h : Storing d₀ isData d loc)
    (hdirective : isData = false → d₀.record.directive = some .ds) {l : Layout}
    (hext : d.layout.Extends l) (hchain : Chain 0 d.parts length)
    (hanchored : d.record.sectionId ≠ 0 → ∃ s,
      l.symbols.section? d.record.sectionId = some s)
    (hfits : ∀ s, l.symbols.section? d.record.sectionId = some s →
      d.record.loc + length ≤ s.length) :
        ({ d.record with length } : Record).Placed l := by
  have hconstants : ({ d.record with length } : Record).constants l.literals =
      d.parts := by
    simp [Record.constants, h.body]
  refine ⟨h.object, hanchored, hfits, fun op bound hbody => ?_, fun _ => ?_, ?_,
    fun hds => ?_, fun ids hbody => ?_, fun value hbody => ?_,
    fun op bound hbody => ?_, fun op bound hbody => ?_, ?_⟩
  · simp [h.body] at hbody
  · rw [hconstants]
    exact hchain
  · rw [hconstants]
    exact h.sound
  · rw [hconstants]
    cases isData with
    | false => exact absurd (h.directive.trans (hdirective rfl)) hds
    | true => exact fun c hc => hext.symbols.accepted (h.accepted rfl c hc)
  · simp [h.body] at hbody
  · simp [h.body] at hbody
  · simp [h.body] at hbody
  · simp [h.body] at hbody
  · simp only [Record.Aligned, h.body]
    exact h.aligned

/-- A storage statement without constants. -/
theorem Storing.laid_nil {d₀ : Draft} (hd₀ : d₀.Seated) {isData : Bool}
    {loc : Int64} (h : Storing d₀ isData d loc) (hext : l.Extends d₀.layout)
    (hdirective : isData = false → d₀.record.directive = some .ds)
    (hnil : d.parts = []) (hstart : d.record.loc = d₀.record.loc) :
    Laid l d := by
  refine laid_of_extends h.layout (hext.trans h.grown) ?_
    (Record.namesNone_of_storage h.body)
  have hplaced : ({ d.record with length := 0 } : Record).Placed d.layout := by
    refine h.placed hdirective (Layout.Extends.refl _) (by rw [hnil]; rfl)
      (h.anchored hd₀.homed) fun s hs => ?_
    rw [h.sectionId, h.still.section?] at hs
    rw [hstart]
    simpa using hd₀.loc_le hs
  have hsame : ({ d.record with length := 0 } : Record) = d.record := by
    rw [← h.length]
  exact hsame ▸ hplaced

/-- A storage statement with constants is as long as they are. -/
theorem Storing.laid_constants {d₀ : Draft} (hd₀ : d₀.Homed) {isData : Bool}
    {loc : Int64} (h : Storing d₀ isData d loc) (hext : l.Extends d₀.layout)
    (hdirective : isData = false → d₀.record.directive = some .ds)
    (hne : d.parts ≠ []) :
    Laid l (Draft.setLoc
      { d with record := { d.record with length := loc - d.record.loc } }
        loc) := by
  let measured : Draft :=
    { d with record := { d.record with length := loc - d.record.loc } }
  have hhomed : measured.Homed := hd₀.congr h.layout h.still h.sectionId
  obtain ⟨hwf, hgrown⟩ := grows_setLoc measured loc hhomed.layout
  refine laid_of_extends hwf ((hext.trans h.grown).trans hgrown) ?_
    (Record.namesNone_of_storage h.body)
  refine h.placed hdirective hgrown (h.chain hne) (hhomed.anchored_setLoc loc)
    fun s hs => ?_
  have hend : d.record.loc + (loc - d.record.loc) = loc := by grind
  rw [hend]
  exact hhomed.le_length_setLoc loc hs

/-- In front of its operands a storage statement has no constants. -/
theorem Seated.storing (h : d.Seated) (isData : Bool) (loc : Int64) :
    Storing (d.withBody (.storage [])) isData (d.withBody (.storage [])) loc :=
  ⟨h.homed.layout, Layout.Extends.refl _, SymbolTable.Still.refl _, h.object,
    rfl, rfl, h.length, rfl, fun hne => absurd
      rfl hne, by simp [parts, Draft.withBody], by simp [parts, Draft.withBody],
    by simp [parts, Draft.withBody]⟩

theorem directive_ensureSection (d : Draft) :
    d.ensureSection.record.directive = d.record.directive := by
  unfold ensureSection locate
  split
  · split <;> rfl
  · split
    · split <;> rfl
    · rfl

/-- **A storage statement** is as long as its constants. -/
theorem laid_layOutStorage (hwf : d.layout.WellFormed) (h : d.Fresh)
    (isData : Bool)
    (hdirective : isData = false → d.record.directive = some .ds) :
    Laid d.layout (d.layOutStorage isData) := by
  obtain ⟨hensured, hext⟩ := seated_ensureSection hwf h
  rw [← directive_ensureSection] at hdirective
  unfold layOutStorage
  generalize d.ensureSection = d₁ at hensured hext hdirective
  have hseated := hensured.withBody (.storage [])
  have hinit := hensured.storing isData (d₁.withBody (.storage [])).loc
  generalize hd₂ : d₁.withBody (.storage []) = d₂ at hseated hinit
  have hext₂ : d.layout.Extends d₂.layout := by rw [← hd₂]; exact hext
  have hparts₂ : d₂.parts = [] := by rw [← hd₂]; rfl
  have hdirective₂ : isData = false → d₂.record.directive = some .ds := by
    rw [← hd₂]
    exact hdirective
  simp only
  split
  · exact ((hinit.laid_nil hseated hext₂ hdirective₂ hparts₂ rfl).report _
      _).defineMark _
  · obtain ⟨hstoring, hstart⟩ :=
      Storing.layOutConstants hseated.homed d₂.statement.numbered
        (d₂, d₂.loc) hinit fun _ => rfl
    generalize d₂.statement.numbered.foldl (layOutConstant isData) (d₂,
      d₂.loc) = result at *
    obtain ⟨d₃, behind⟩ := result
    simp only at hstoring hstart ⊢
    split
    · rename_i hnil
      exact (hstoring.laid_nil hseated hext₂ hdirective₂ hnil
        (hstart hnil)).defineMark _
    · rename_i hne
      exact hstoring.laid_constants hseated.homed hext₂ hdirective₂ hne

end Draft

end System370
