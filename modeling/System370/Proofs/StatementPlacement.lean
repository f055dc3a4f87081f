import System370.Proofs.PoolPlacement

/-!
# Instructions have their place

`Draft.Laid` is what holds of a statement that was laid out.  Here is what the
kinds of statement share: the location counter that is moved
(`Draft.Homed.anchored_setLoc`), a record that takes its place at the counter
(`Draft.Seated.placed`), and literals among the operands
(`Draft.laid_layOutLiteral`); and then the instructions
(`Draft.laid_layOutInstruction`).
-/

namespace System370

namespace Draft

variable {d d' : Draft}

/-! ### Taking a place -/

/-- A draft whose record has no place yet. -/
structure Fresh (d : Draft) : Prop where
  object : d.record.object = none
  body : d.record.body = .comment
  sectionId : d.record.sectionId = 0
  length : d.record.length = 0
  label : IsLabel d.record.label
  loc : d.record.loc = 0

/-- A draft whose record belongs to the current section, if there is one. -/
structure Homed (d : Draft) : Prop where
  layout : d.layout.WellFormed
  home : ∀ s, d.currentSection? = some s → d.record.sectionId = s.id
  homeless : d.currentSection? = none → d.record.sectionId = 0

/-- A draft whose record is at the location counter, if there is a section. -/
structure Seated (d : Draft) : Prop where
  homed : d.Homed
  object : d.record.object = none
  length : d.record.length = 0
  seat : ∀ s, d.currentSection? = some s → d.record.loc = s.loc

/-- The current section exists, and with it that of the record. -/
theorem Homed.anchored (h : d.Homed) : d.Anchored := by
  intro hne
  cases hs : d.currentSection? with
  | none => exact absurd (h.homeless hs) hne
  | some s =>
      rw [h.home s hs]
      exact ⟨s, (h.layout.symbols.numbered.currentSection? hs).2⟩

/-- The section of such a record is the current one. -/
theorem Homed.currentSection? (h : d.Homed)
    {s : Section} (hs : d.layout.symbols.section? d.record.sectionId = some s) :
    d.currentSection? = some s := by
  cases hcurrent : d.currentSection? with
  | none =>
      rw [h.homeless hcurrent] at hs
      simp [SymbolTable.section?] at hs
  | some s' =>
      rw [h.home s' hcurrent,
        (h.layout.symbols.numbered.currentSection? hcurrent).2] at hs
      exact hs

/-- A draft with the same sections and the same section of the record. -/
theorem Homed.congr (h : d.Homed) (hwf : d'.layout.WellFormed)
    (hstill : d.layout.symbols.Still d'.layout.symbols)
    (hid : d'.record.sectionId = d.record.sectionId) : d'.Homed := by
  have hcurrent : d'.currentSection? = d.currentSection? :=
    hstill.currentSection?
  refine ⟨hwf, fun s hs => ?_, fun hnone => ?_⟩
  · rw [hid]
    exact h.home s (hcurrent ▸ hs)
  · rw [hid]
    exact h.homeless (hcurrent ▸ hnone)

/-- The place of a record is within its section. -/
theorem Seated.loc_le (h : d.Seated)
    {s : Section} (hs : d.layout.symbols.section? d.record.sectionId = some s) :
    d.record.loc ≤ s.length := by
  rw [h.seat s (h.homed.currentSection? hs)]
  exact (h.homed.layout.symbols.numbered.bounded _ s hs).2

/-- A record that is seated stands at the location counter. -/
theorem Seated.loc_eq (h : d.Seated)
    {s : Section} (hs : d.layout.symbols.section? d.record.sectionId = some s) :
    d.record.loc = d.loc := by
  have hcurrent := h.homed.currentSection? hs
  simp [Draft.loc, hcurrent, h.seat s hcurrent]

/-- A step aside leaves a record seated. -/
theorem Seated.aside (h : d.Seated) (haside : Aside d d') : d'.Seated := by
  have hrecord := haside.record
  refine ⟨h.homed.congr (haside.layout h.homed.layout).1 haside.still
    haside.sectionId, ?_, ?_, fun s hs => ?_⟩
  · rw [hrecord]
    exact h.object
  · rw [hrecord]
    exact h.length
  · rw [hrecord]
    exact h.seat s (haside.currentSection? ▸ hs)

theorem Seated.withBody (h : d.Seated) (body : Record.Body) :
    (d.withBody body).Seated :=
  ⟨⟨h.homed.layout, h.homed.home, h.homed.homeless⟩, h.object, h.length, h.seat⟩

/-- A fresh record is seated where the location counter stands. -/
theorem seated_locate (hwf : d.layout.WellFormed) (h : d.Fresh) :
    d.locate.Seated ∧ d.locate.layout = d.layout := by
  unfold locate
  split
  · rename_i s hs
    refine ⟨⟨⟨hwf, fun s' hs' => ?_, fun hnone => ?_⟩, h.object, h.length,
      fun s' hs' => ?_⟩, rfl⟩
    · have : s' = s := Option.some.inj (hs'.symm.trans hs)
      rw [this]
    · have : d.currentSection? = none := hnone
      simp [hs] at this
    · have : s' = s := Option.some.inj (hs'.symm.trans hs)
      rw [this]
  · rename_i hs
    exact ⟨⟨⟨hwf, fun s' hs' => by simp [hs] at hs', fun _ => h.sectionId⟩,
      h.object, h.length, fun s' hs' => by simp [hs] at hs'⟩, rfl⟩

theorem body_locate (d : Draft) : d.locate.record.body = d.record.body := by
  unfold locate
  split <;> rfl

/-- **Taking a place opens a section if there is none.** -/
theorem seated_ensureSection (hwf : d.layout.WellFormed) (h : d.Fresh) :
    d.ensureSection.Seated ∧ d.layout.Extends d.ensureSection.layout := by
  unfold ensureSection
  split
  · obtain ⟨hseated, heq⟩ := seated_locate hwf h
    exact ⟨hseated, heq ▸ Layout.Extends.refl _⟩
  · rename_i hnone
    split
    · rename_i t ht
      have hgrows : d.layout.Grows (d.mapSymbols fun _ => t).layout :=
        Layout.grows_of_symbols (SymbolTable.grows_openSection isLabel_nil ht)
          rfl rfl rfl
      have hfresh : (d.mapSymbols fun _ => t).Fresh :=
        ⟨h.object, h.body, h.sectionId, h.length, h.label, h.loc⟩
      obtain ⟨hseated, heq⟩ := seated_locate (hgrows hwf).1 hfresh
      exact ⟨hseated, heq ▸ (hgrows hwf).2⟩
    · exact ⟨⟨⟨hwf, fun s hs => by simp [hnone] at hs, fun _ => h.sectionId⟩,
        h.object, h.length,
        fun s hs => by simp [hnone] at hs⟩, Layout.Extends.refl _⟩

/-- The unnamed section opens without literals. -/
theorem literals_ensureSection (d : Draft) :
    d.ensureSection.layout.literals = d.layout.literals := by
  have hlocate : ∀ d : Draft, d.locate.layout = d.layout := by
    intro d
    unfold locate
    split <;> rfl
  unfold ensureSection
  split
  · rw [hlocate]
  · split
    · rw [hlocate]
      rfl
    · rfl

/-- Sections only grow. -/
theorem grows_setLoc (d : Draft) (loc : Int64) :
    d.layout.Grows (d.setLoc loc).layout :=
  Layout.grows_of_symbols (SymbolTable.grows_modifyCurrent _
    (SymbolTable.moves_setLoc loc)) rfl rfl
    rfl

/-- **The high-water mark.**  A section is at least as long as the location
counter was ever set in it. -/
theorem Homed.le_length_setLoc (h : d.Homed) (loc : Int64) {s : Section}
    (hs : (d.setLoc loc).layout.symbols.section? d.record.sectionId = some s) :
    loc ≤ s.length := by
  have hsetLoc : (d.setLoc loc).layout.symbols =
      d.layout.symbols.modifyCurrent (·.setLoc loc) := rfl
  cases hcurrent : d.currentSection? with
  | none =>
      rw [h.homeless hcurrent] at hs
      simp [SymbolTable.section?] at hs
  | some s₀ =>
      obtain ⟨hid, hsection⟩ :=
        h.layout.symbols.numbered.currentSection? hcurrent
      rw [hsetLoc, SymbolTable.modifyCurrent, hid, h.home s₀ hcurrent] at hs
      simp only [SymbolTable.section?_modifySection, if_true, hsection,
        Option.map_some, Option.some.injEq] at hs
      rw [← hs]
      simp only [Section.setLoc]
      split
      · exact Int64.le_refl _
      · exact Int64.not_lt.mp ‹_›

/-- Moving the location counter loses no section. -/
theorem Homed.anchored_setLoc (h : d.Homed) (loc : Int64) :
    (d.setLoc loc).Anchored := by
  intro hne
  obtain ⟨s, hs⟩ := h.anchored hne
  obtain ⟨s', hs', -⟩ := (grows_setLoc d loc h.layout).2.symbols.sections _ s hs
  exact ⟨s', hs'⟩

/-- Whether a record stands for a location at most. -/
def isPlain (r : Record) : Bool :=
  match r.body with
  | .comment | .located => true
  | _ => false

/-- A plain record names no literal. -/
theorem namesNone_of_isPlain {r : Record} (h : isPlain r) : r.NamesNone := by
  unfold isPlain at h
  split at h <;> simp_all [Record.NamesNone]

/-- The place of a record that is neither an instruction nor made of
constants. -/
theorem placed_of_equated (hobject : d.record.object = none)
    (hplain : isPlain d.record ∨ ∃ value waiting,
      d.record.body = .equate value waiting)
    (hequated : d.record.Equated d.layout.symbols) (hanchored : d.Anchored)
    (hfits : ∀ s, d.layout.symbols.section? d.record.sectionId = some s →
      d.record.loc + d.record.length ≤ s.length) :
        d.record.Placed d.layout := by
  have hbody : (∃ value waiting, d.record.body = .equate value waiting) ∨
      d.record.body = .comment ∨ d.record.body = .located := by
    refine hplain.symm.imp id fun hplain => ?_
    unfold isPlain at hplain
    split at hplain <;> simp_all
  have hnone : d.record.isConstants = false ∧
      (∀ op bound, d.record.body ≠ .instruction op bound) ∧ ∀ ids,
      d.record.body ≠ .pool ids := by
    unfold Record.isConstants
    rcases hbody with ⟨value, waiting, hbody⟩ | hbody | hbody <;> simp [hbody]
  have hconstants := Record.constants_eq_nil hnone.1 d.layout.literals
  refine ⟨hobject, hanchored, hfits,
    fun op bound hbody => absurd hbody (hnone.2.1 op bound),
    fun h => ?_, ?_, ?_, fun ids hbody => absurd hbody (hnone.2.2 ids),
    hequated, fun op bound hbody => absurd hbody (hnone.2.1 op bound),
    fun op bound hbody => absurd hbody (hnone.2.1 op bound), ?_⟩
  · simp [hnone.1] at h
  · simp [hconstants]
  · simp [hconstants]
  · unfold Record.Aligned
    rcases hbody with ⟨value, waiting, hbody⟩ | hbody | hbody <;> simp [hbody]

/-- The place of a record that stands for a location at most. -/
theorem placed_of_isPlain (hobject : d.record.object = none)
    (hplain : isPlain d.record) (hanchored : d.Anchored)
    (hfits : ∀ s, d.layout.symbols.section? d.record.sectionId = some s →
      d.record.loc + d.record.length ≤ s.length) :
        d.record.Placed d.layout := by
  refine placed_of_equated hobject (Or.inl hplain) (fun value hbody => ?_)
    hanchored hfits
  simp [isPlain, hbody] at hplain

/-- A plain record that is seated is placed. -/
theorem Seated.placed (h : d.Seated) (hplain : isPlain d.record) :
    d.record.Placed d.layout := by
  refine placed_of_isPlain h.object hplain h.homed.anchored fun s hs => ?_
  rw [h.length]
  simpa using h.loc_le hs

/-- A place stays a place when an error is reported. -/
theorem placed_of_errored {l : Layout} {r : Record} (h : r.Placed l)
    {errored : Bool} (herrored : r.errored = true → errored = true) :
    ({ r with errored } : Record).Placed l := by
  have hok : errored = false → r.errored = false := fun hfalse =>
    Bool.eq_false_iff.mpr fun htrue => by simp [herrored htrue] at hfalse
  refine ⟨h.object, h.anchored, h.fits, h.instruction, h.chained, h.sound,
    h.accepted, h.pooled, fun value hbody => ?_,
    fun op bound hbody hfalse => h.counted op bound hbody (hok hfalse), h.bound,
    h.aligned⟩
  rcases h.equated value hbody with
    ⟨result, hresult, hvalue, hlabel⟩ | ⟨herror, hzero⟩
  · exact Or.inl ⟨result, hresult, hvalue, fun hfalse => hlabel (hok hfalse)⟩
  · exact Or.inr ⟨herrored herror, hzero⟩

/-- A step aside leaves the place of a record alone. -/
theorem Aside.placed (haside : Aside d d') (hwf : d.layout.WellFormed)
    (h : d.record.Placed d.layout) : d'.record.Placed d'.layout := by
  rw [haside.record]
  exact placed_of_errored (h.mono (haside.layout hwf).2.toKeeps) haside.errored

/-! ### Single statements -/

/-- Whether the literals that an instruction is bound to wait for their
places. -/
def Awaits (d : Draft) : Prop :=
  ∀ op bound, d.record.body = .instruction op bound → ∀ b ∈ bound, ∃ literal,
    d.layout.literals.literals[b.2]? = some literal ∧ literal.place = none

/-- What awaits its literals does so while the layout extends. -/
theorem Awaits.extend (h : d.Awaits) (hext : d.layout.Extends d'.layout)
    (hbody : d'.record.body = d.record.body) : d'.Awaits := by
  intro op bound hinstruction b hb
  obtain ⟨literal, hliteral, hplace⟩ :=
    h op bound (hbody.symm.trans hinstruction) b hb
  exact ⟨literal, hext.unplaced hliteral hplace, hplace⟩

/-- A draft that was laid out from a layout on: its record has its place.  If
literals got theirs, the record stands for them, and they are all that waited in
its section; if literals joined, the record introduces them. -/
structure Laid (l : Layout) (d : Draft) : Prop where
  layout : d.layout.WellFormed
  grown : l.Keeps d.layout
  ended : d.layout.ended = l.ended
  pooled : ∀ literal ∈ d.layout.literals.literals, literal.place.isSome →
    l.literals.literals[literal.id]? = some literal ∨
      ∃ ids, d.record.body = .pool ids ∧ literal.id ∈ ids
  record : d.record.Placed d.layout
  awaits : d.Awaits
  pending : ∀ ids, d.record.body = .pool ids →
    l.literals.Pending d.record.sectionId ids
  spelled : d.record.Spells d.layout
  introduced : ∀ literal ∈ d.layout.literals.literals,
    l.literals.literals.length ≤ literal.id →
    d.record.Introduces d.layout.symbols literal

variable {l : Layout}

/-- Where as many literals are as before, none has joined. -/
theorem introduced_of_counted
    (hcounted : d.layout.literals.literals.length =
      l.literals.literals.length) :
    ∀ literal ∈ d.layout.literals.literals,
    l.literals.literals.length ≤ literal.id →
      d.record.Introduces d.layout.symbols literal := by
  intro literal hl hle
  have hlt := Layout.id_lt hl
  omega

/-- A record that names no literals, in a layout in which none joined or got its
place. -/
theorem laid_of_extends (hwf : d.layout.WellFormed) (hext : l.Extends d.layout)
    (h : d.record.Placed d.layout) (hfree : d.record.NamesNone) : Laid l d := by
  refine ⟨hwf, hext.toKeeps, hext.ended, fun _ hl hplace => Or.inl
      (hext.waiting _ _ ((LiteralPool.inStep _).getElem?_id hl) hplace), h,
    fun op bound hbody => ?_, fun ids hbody => absurd hbody (hfree.1 ids),
    fun op bound hbody => ?_, introduced_of_counted hext.counted⟩ <;>
  · rw [hfree.2 op bound hbody]
    simp

/-- What is laid out may go on, as long as no literal joins or gets its
place. -/
theorem Laid.extend (h : Laid l d) (hwf : d'.layout.WellFormed)
    (hext : d.layout.Extends d'.layout) (hbody : d'.record.body = d.record.body)
    (hsection : d'.record.sectionId = d.record.sectionId)
    (hloc : d'.record.loc = d.record.loc)
    (hplaced : d'.record.Placed d'.layout) : Laid l d' := by
  refine ⟨hwf, h.grown.trans hext.toKeeps, hext.ended.trans h.ended,
    fun literal hl hplace => ?_,
    hplaced, h.awaits.extend hext hbody, ?_, ?_, fun literal hl hle => ?_⟩
  · have hbefore :=
      hext.waiting _ _ ((LiteralPool.inStep _).getElem?_id hl) hplace
    rw [hbody]
    exact h.pooled literal (List.mem_of_getElem? hbefore) hplace
  · rw [hbody, hsection]
    exact h.pending
  · exact (h.spelled.mono hext.toKeeps).congr hbody hsection hloc
  · obtain ⟨old, hold, place, rfl⟩ := hext.literal_of_mem hl
    exact (((h.introduced old hold hle).mono hext.symbols).congr hbody hsection
      hloc).placed place

/-- What is laid out from a layout on is so from one with the same literals
before it. -/
theorem Laid.of_symbols {l' : Layout} (h : Laid l' d)
    (hsymbols : l.symbols.Extends l'.symbols)
    (hliterals : l'.literals = l.literals) (hended : l'.ended = l.ended) :
    Laid l d := by
  have hext := Layout.extends_of_symbols hsymbols hliterals hended
  refine ⟨h.layout, hext.toKeeps.trans h.grown, h.ended.trans hended, ?_,
    h.record, h.awaits, ?_, h.spelled, ?_⟩ <;> rw [← hliterals]
  · exact h.pooled
  · exact h.pending
  · exact h.introduced

/-- A step aside leaves the body alone. -/
theorem Aside.body (haside : Aside d d') : d'.record.body = d.record.body := by
  rw [haside.record]

theorem Aside.loc_record (haside : Aside d d') :
    d'.record.loc = d.record.loc := by
  rw [haside.record]

/-- What a record says of a constant stays. -/
theorem Aside.written (haside : Aside d d') {t : SymbolTable} (text : Bytes) :
    d'.record.written t text = d.record.written t text := by
  rw [haside.record]
  rfl

/-- A step aside leaves a statement laid. -/
theorem Laid.aside (h : Laid l d) (haside : Aside d d') : Laid l d' :=
  h.extend (haside.layout h.layout).1 (haside.layout h.layout).2 haside.body
    haside.sectionId
    haside.loc_record (haside.placed h.layout h.record)

theorem Laid.anchored (h : Laid l d) : d.Anchored := h.record.anchored

theorem Laid.report (h : Laid l d) (cursor : Cursor) (problem : Problem) :
    Laid l (d.report cursor problem) := h.aside (aside_report d cursor problem)

theorem Laid.defineMark (h : Laid l d) (loc : Int64) :
    Laid l (d.defineMark loc) :=
  h.aside (aside_defineLabel h.anchored _ _ _)

/-- A plain record that is seated is laid. -/
theorem Seated.laid (h : d.Seated) (hext : l.Extends d.layout)
    (hplain : isPlain d.record) :
    Laid l d := laid_of_extends h.homed.layout hext (h.placed hplain)
      (namesNone_of_isPlain hplain)

/-- A fresh record that takes its place is laid. -/
theorem Fresh.laid (h : d.Fresh) (hwf : d.layout.WellFormed) :
    Laid d.layout d := by
  have hplain : isPlain d.record := by simp [isPlain, h.body]
  refine laid_of_extends hwf (Layout.Extends.refl _)
    (placed_of_isPlain h.object hplain ?_ ?_)
    (namesNone_of_isPlain hplain)
  · exact fun hne => absurd h.sectionId hne
  · intro s hs
    exact absurd h.sectionId (SymbolTable.ne_zero_of_section? hs)

/-- A mark is laid. -/
theorem laid_layOutMark (hwf : d.layout.WellFormed) (h : d.Fresh) :
    Laid d.layout d.layOutMark := by
  obtain ⟨hseated, hext⟩ := seated_ensureSection hwf h
  exact ((hseated.withBody .located).laid hext rfl).defineMark _

theorem Aside.statement (haside : Aside d d') : d'.statement = d.statement := by
  unfold Draft.statement
  rw [haside.record]

/-- A literal joins the pool, or is found there, and the instruction remembers
it. -/
theorem laid_internLiteral (h : Laid l d)
    (hop : ∃ op bound, d.record.body = .instruction op bound)
    {descriptor : Constant.Descriptor} (hsound : descriptor.Sound)
    (haccepted : descriptor.Accepted d.layout.symbols)
    (hsize : descriptor.size ≠ 0) {text : Bytes} {operand : Nat}
    (hwritten : d.record.written d.layout.symbols text = .ok descriptor)
    (htext : d.statement.operands[operand]? = some text)
    (hhead : text.head? = some (octet '=')) :
    Laid l (d.internLiteral text descriptor operand) ∧
      (d.internLiteral text descriptor operand).statement = d.statement ∧
      ∃ op bound, (d.internLiteral text descriptor operand).record.body =
        .instruction op bound := by
  obtain ⟨op, bound, hbody⟩ := hop
  unfold internLiteral
  simp only
  split
  · rename_i literals literal hintern
    obtain ⟨hwf, hext, hfound, rfl, hsection, hwaits, hjoined⟩ :=
      Layout.grows_intern h.layout hsound haccepted hsize h.anchored hintern
    simp only [bindLiteral, hbody, Draft.withBody]
    refine ⟨⟨hwf, h.grown.trans hext.toKeeps, hext.ended.trans h.ended,
      fun other ho hplace => ?_,
      (h.record.mono hext.toKeeps).bind hbody ⟨literal, hfound, htext, hhead,
        hsection⟩, fun op' bound' heq b hb => ?_, by simp,
      (h.spelled.mono hext.toKeeps).bind hbody ⟨literal, descriptor, hfound,
        hwritten⟩, fun other ho hle => ?_⟩, rfl, op, _, rfl⟩
    · have hbefore :=
        hext.waiting _ _ ((LiteralPool.inStep _).getElem?_id ho) hplace
      refine (h.pooled other (List.mem_of_getElem? hbefore) hplace).imp_right ?_
      rintro ⟨ids, hids, -⟩
      simp [hbody] at hids
    · cases heq
      rcases List.mem_append.mp hb with hb | hb
      · obtain ⟨old, hold, hplace⟩ := h.awaits op bound hbody b hb
        exact ⟨old, hext.unplaced hold hplace, hplace⟩
      · rw [List.mem_singleton.mp hb]
        exact ⟨literal, hfound, hwaits⟩
    · rcases hjoined other ho with hold | ⟨rfl, hstored⟩
      · exact (h.introduced other hold hle).bind hbody _
      · exact Record.introduces_bind hbody hstored hwritten
  · exact ⟨h.report _ _, rfl, op, bound, hbody⟩
  · exact ⟨h.report _ _, rfl, op, bound, hbody⟩

/-- What is parsed is what the record says. -/
theorem written_of_parseConstant {text : Bytes}
    {descriptor : Constant.Descriptor}
    (h : (d.parseConstant text.tail).1 = .ok descriptor) :
    d.record.written d.layout.symbols text = .ok descriptor := by
  unfold parseConstant at h
  unfold Record.written
  simp only at h
  split at h
  · rename_i hparsed
    rwa [Except.ok.inj h] at hparsed
  · simp at h
  · simp at h

/-- A literal among the operands of an instruction. -/
theorem laid_layOutLiteral (h : Laid l d)
    (hop : ∃ op bound, d.record.body = .instruction op bound) {text : Bytes}
    {operand : Nat} (htext : d.statement.operands[operand]? = some text)
    (hhead : text.head? = some (octet '=')) :
    Laid l (d.layOutLiteral operand text) ∧
      (d.layOutLiteral operand text).statement = d.statement ∧
      ∃ op bound,
      (d.layOutLiteral operand text).record.body = .instruction op bound := by
  have hparse := aside_parseConstant d text.tail
  have hsound := @sound_parseConstant d text.tail
  have hwritten := @written_of_parseConstant d text
  have hparsed := h.aside hparse
  unfold layOutLiteral
  generalize d.parseConstant text.tail = parsed at *
  obtain ⟨outcome, d₁⟩ := parsed
  simp only at hparse hsound hwritten hparsed ⊢
  have hop₁ : ∃ op bound, d₁.record.body = .instruction op bound :=
    hparse.body ▸ hop
  split
  · exact ⟨hparsed.report _ _, hparse.statement, hop₁⟩
  · rename_i descriptor
    split
    · exact ⟨hparsed.report _ _, hparse.statement, hop₁⟩
    · rename_i hvalues
      have hnominal : descriptor.nominal ≠ [] :=
        fun hnil => hvalues (Or.inl hnil)
      obtain ⟨hcheck, haccepted⟩ :=
        checkValues_spec d₁ descriptor (d.statement.operandCursor operand)
      generalize d₁.checkValues descriptor (d.statement.operandCursor operand) =
        checked at *
      obtain ⟨accepted, d₂⟩ := checked
      simp only at hcheck haccepted ⊢
      have hchecked := hparsed.aside hcheck
      have hop₂ : ∃ op bound, d₂.record.body = .instruction op bound :=
        hcheck.body ▸ hop₁
      have hstatement : d₂.statement = d.statement :=
        hcheck.statement.trans hparse.statement
      split
      · rename_i hok
        have haside := hparse.trans hcheck
        have hspelled : d₂.record.written d₂.layout.symbols text =
            .ok descriptor :=
          (haside.written text).trans
            (Record.written_mono (haside.layout h.layout).2.symbols
              (hwritten rfl))
        obtain ⟨hlaid, hsame, hbody⟩ :=
          laid_internLiteral hchecked hop₂ (hsound rfl)
            (haccepted hok hparsed.layout.symbols hnominal)
            (fun hzero => hvalues (Or.inr hzero))
            hspelled (hstatement ▸ htext) hhead
        exact ⟨hlaid, hsame.trans hstatement, hbody⟩
      · exact ⟨hchecked, hstatement, hop₂⟩

/-- The literals of an instruction leave it laid, one after the other. -/
theorem laid_layOutLiterals (h : Laid l d)
    (hop : ∃ op bound, d.record.body = .instruction op bound)
    (op : Instruction) : Laid l (d.layOutLiterals op) := by
  unfold layOutLiterals
  refine (List.foldlRecOn (motive := fun e => Laid l e ∧
    (∃ op bound, e.record.body = .instruction op bound) ∧
      e.statement = d.statement)
    _ _ ⟨h, hop, rfl⟩ fun e hbefore operand hoperand => ?_).1
  obtain ⟨hlaid, hbody, hsame⟩ := hbefore
  simp only
  split
  · rename_i hliteral
    have htext := hsame ▸ d.statement.getElem?_of_mem_numbered hoperand
    obtain ⟨hlaid', hstatement, hbody'⟩ :=
      laid_layOutLiteral hlaid hbody htext hliteral.1
    exact ⟨hlaid', hbody', hstatement.trans hsame⟩
  · exact ⟨hlaid, hbody, hsame⟩

/-- An instruction at the location counter has its place when the counter is
behind it, if its operands are counted or there is an error anyway. -/
theorem Homed.placed_instruction (h : d.Homed)
    (hobject : d.record.object = none) {op : Instruction}
    {loc : Int64} (hbody : d.record.body = .instruction op [])
    (hloc : d.record.loc = alignUp loc 2)
    (hlength : d.record.length = Int64.ofNat op.length) {errored : Bool}
    (hcounted : errored = false →
      op.operandCount ≤ d.statement.operands.length) :
    ({ d.record with errored } : Record).Placed
      (d.setLoc (d.record.loc + d.record.length)).layout := by
  refine ⟨hobject, h.anchored_setLoc _, fun s hs => h.le_length_setLoc _ hs,
    fun op' bound heq => ?_, by simp [Record.isConstants, hbody],
    by simp [Record.constants, hbody], by simp [Record.constants, hbody],
    by simp [hbody], by simp [Record.Equated, hbody],
    fun op' bound heq => ?_, fun op' bound heq => ?_, ?_⟩
  · cases hbody.symm.trans heq
    exact hlength
  · cases hbody.symm.trans heq
    exact hcounted
  · cases hbody.symm.trans heq
    simp
  · simp only [Record.Aligned, hbody, hloc]
    exact OnBoundary.of_alignUp (by decide) _

/-- **An instruction** is as long as its format says. -/
theorem laid_layOutInstruction (hwf : d.layout.WellFormed) (h : d.Fresh)
    (op : Instruction) :
    Laid d.layout (d.layOutInstruction op) := by
  obtain ⟨hseated, hext⟩ := seated_ensureSection hwf h
  unfold layOutInstruction
  generalize d.ensureSection = d₁ at hseated hext
  simp only
  let d₂ : Draft := { d₁ with record := { d₁.record with
    body := .instruction op [], loc := alignUp d₁.loc 2
    length := Int64.ofNat op.length } }
  have hhomed : d₂.Homed :=
    ⟨hseated.homed.layout, hseated.homed.home, hseated.homed.homeless⟩
  have hset :=
    grows_setLoc d₂ (alignUp d₁.loc 2 + Int64.ofNat op.length) hhomed.layout
  have hplaced : ∀ {errored},
      (errored = false → op.operandCount ≤ d₁.statement.operands.length) →
      ({ d₂.record with errored } : Record).Placed (d₂.setLoc _).layout :=
    hhomed.placed_instruction hseated.object rfl rfl rfl
  generalize hd₃ : d₂.setLoc (alignUp d₁.loc 2 + Int64.ofNat op.length) = d₃
  have hrecord : d₃.record = d₂.record := by rw [← hd₃]; rfl
  have hwf₃ : d₃.layout.WellFormed := hd₃ ▸ hset.1
  have hext₃ : d.layout.Extends d₃.layout := hext.trans (hd₃ ▸ hset.2)
  have haside : Aside d₃ (d₃.defineLabel (alignUp d₁.loc 2)
      (Int64.ofNat op.length) (octet 'I')) := by
    refine aside_defineLabel ?_ _ _ _
    rw [← hd₃]
    exact hhomed.anchored_setLoc _
  generalize d₃.defineLabel (alignUp d₁.loc 2) (Int64.ofNat op.length)
    (octet 'I') = d₄ at haside
  have hlaid : ∀ d', Aside d₃ d' →
      (d'.record.errored = false →
        op.operandCount ≤ d₁.statement.operands.length) →
      Laid d.layout d' := by
    intro d' haside' hcounted
    have hbody : d'.record.body = .instruction op [] :=
      haside'.body.trans (hrecord ▸ rfl)
    refine laid_of_extends (haside'.layout hwf₃).1
      (hext₃.trans (haside'.layout hwf₃).2) ?_
      ⟨by simp [hbody], by simp [hbody]⟩
    rw [haside'.record, hrecord]
    exact (hd₃ ▸ hplaced hcounted).mono (haside'.layout hwf₃).2.toKeeps
  have hstatement : d₄.statement = d₁.statement := by
    rw [haside.statement, Draft.statement, hrecord]
    rfl
  have hfailed : ∀ (cursor : Cursor) {problem : Problem},
      problem.severity.isError = true →
      Laid d.layout (d₄.report cursor problem) := by
    intro cursor problem hproblem
    refine hlaid _ (haside.trans (aside_report _ _ _)) fun hok => ?_
    simp [errored_report d₄ cursor hproblem] at hok
  split
  · rename_i hstop
    refine hlaid d₄ haside fun hok => ?_
    rcases hstop with herror | hzero
    · simp [hok] at herror
    · omega
  · split
    · exact hfailed _ rfl
    · rename_i hreceived
      split
      · exact hfailed _ rfl
      · refine laid_layOutLiterals (hlaid d₄ haside fun _ => ?_) ⟨op, [], ?_⟩ op
        · rw [hstatement] at hreceived
          omega
        · rw [haside.body, hrecord]

end Draft

end System370
