import System370.Proofs.EmissionGate
import System370.Proofs.PlacedExpressions

/-!
# Boundaries

Instructions begin on halfwords, constants on the boundaries of their types,
literals on those of their groups.  While statements are laid out these are
facts about locations inside a section (`Record.Placed.aligned`,
`Layout.WellFormed.aligned`).  Sections are placed on doublewords, and no
boundary is greater, so the same holds of addresses
(`Record.Aligned.moveRecord`).

A conditional no-operation without an error reaches the next location that its
operands ask for (`Draft.fills_layOutAlignment`), and its code is made of whole
no-operations behind at most one zero octet (`Generate.filling_eq`).

* `Program.boundaries`: all of this for the addresses of a program.
-/

namespace System370

/-! ### Sections on doublewords -/

namespace SymbolTable

variable {t : SymbolTable}

/-- Sections begin at doublewords. -/
theorem onBoundary_layOut {base : Int64} (h : OnBoundary 8 base)
    (sections : List Section) :
    ∀ s ∈ layOut base sections, OnBoundary 8 s.base := by
  induction sections generalizing base with
  | nil => simp [layOut]
  | cons first rest ih =>
      intro s hs
      rcases List.mem_cons.mp hs with rfl | hs
      · exact h
      · exact ih (OnBoundary.of_alignUp (Nat.dvd_refl 8) _) s hs

/-- **Every base is on a doubleword.** -/
theorem Numbered.onBoundary_offset (h : t.Numbered) (id : Int) :
    OnBoundary 8 (t.normalize.offset id) := by
  have hzero : OnBoundary 8 0 := by decide
  unfold offset
  split
  · rename_i hpos
    cases hs : t.normalize.section? id with
    | none => exact hzero
    | some s =>
        have hmem :=
          List.mem_of_getElem? (Numbered.getElem?_of_section? hpos hs)
        rw [h.sections_normalize] at hmem
        exact onBoundary_layOut hzero _ s hmem
  · exact hzero

end SymbolTable

/-- **Records stay on their boundaries** when the sections are placed. -/
theorem Record.Aligned.moveRecord {t : SymbolTable} {r : Record}
    (h : r.Aligned) (hbase : OnBoundary 8 (t.offset r.sectionId)) :
    (Program.moveRecord t r).Aligned := by
  have hmoved : ∀ {b : Nat} {offset : Int64},
      b ∣ 8 → OnBoundary b (r.loc + offset) →
      OnBoundary b ((Program.moveRecord t r).loc + offset) := by
    intro b offset hb hloc
    have hsum : r.loc + t.offset r.sectionId + offset =
        r.loc + offset + t.offset r.sectionId := by
      grind
    rw [Program.loc_moveRecord, hsum]
    exact hloc.add hb (hbase.mono hb)
  unfold Record.Aligned at h ⊢
  cases hbody : r.body with
  | instruction op bound =>
      have hsame := (Program.body_moveRecord_eq_instruction (t := t)).mpr hbody
      simp only [hbody] at h
      simp only [hsame]
      have hzero := @hmoved 2 0 (by decide)
      simp only [Int64.add_zero] at hzero
      exact hzero h
  | storage parts =>
      have hsame := (Program.body_moveRecord_eq_storage (t := t)).mpr hbody
      simp only [hbody] at h
      simp only [hsame]
      exact fun c hc => hmoved c.1.alignment_dvd (h c hc)
  | comment | located | equate | pool => simp [Program.moveRecord, hbody]

/-! ### Conditional no-operations -/

/-- What a conditional no-operation is that has its place: its operands are an
even offset and the width of a word or doubleword, and it reaches the next
location at that offset. -/
structure Record.FillsTo (t : SymbolTable) (r : Record)
    (offset width : Int64) : Prop where
  located : r.body = .located
  asked : ∃ a b, r.statement.operands = [a, b] ∧
    (Expression.absolute t r.place a).result = .ok offset ∧
    (Expression.absolute t r.place b).result = .ok width
  sized : width = 4 ∨ width = 8
  inside : 0 ≤ offset ∧ offset < width ∧ offset % 2 = 0
  reached : r.length = Draft.alignTo r.loc offset width - r.loc

/-- A conditional no-operation has its place unless it has an error. -/
def Record.Fills (t : SymbolTable) (r : Record) : Prop :=
  r.errored = false → r.directive = some .cnop → ∃ offset width,
    r.FillsTo t offset width

namespace Draft

variable {d : Draft}

/-- A record that gets a section is at its location counter. -/
theorem Fresh.loc_ensureSection (h : d.Fresh) :
    d.ensureSection.record.loc = d.ensureSection.loc := by
  have hlocate : ∀ {d : Draft}, d.record.loc = 0 →
      d.locate.record.loc = d.locate.loc := by
    intro d hzero
    unfold locate
    split
    · rename_i s hs
      have hcurrent : ({ d with record :=
          { d.record with sectionId := s.id, loc := s.loc } } :
            Draft).currentSection? = some s := hs
      simp [Draft.loc, hcurrent]
    · rename_i hnone
      simp [Draft.loc, hnone, hzero]
  unfold ensureSection
  split
  · exact hlocate h.loc
  · rename_i hnone
    split
    · exact hlocate h.loc
    · simp [Draft.loc, hnone, h.loc]

/-- The numbers of two operands, in the table that has recorded that they were
read. -/
theorem absolutePair_eq_ok (hwf : d.layout.WellFormed) {a b : Bytes}
    {m n : Int64} (h : (d.absolutePair a b).1 = .ok (m, n)) :
    let t := (d.absolutePair a b).2.layout.symbols
    (Expression.absolute t d.record.place a).result = .ok m ∧
      (Expression.absolute t d.record.place b).result = .ok n := by
  have hfirst := (aside_absolute d a).layout hwf
  have hsecond := (aside_absolute (d.absolute a).2 b).layout hfirst.1
  have hplace : (d.absolute a).2.record.place = d.record.place := rfl
  unfold absolutePair at h ⊢
  simp only at h ⊢
  split at h
  · simp at h
  · rename_i m' hm
    split at h
    · simp at h
    · rename_i n' hn
      obtain ⟨rfl, rfl⟩ := Prod.mk.inj (Except.ok.inj h)
      exact ⟨Expression.result_absolute_mono
          (hfirst.2.trans hsecond.2).symbols.definitions hm,
        Expression.result_absolute_mono hsecond.2.symbols.definitions
          (hplace ▸ hn)⟩

/-- Whatever is wrong with a pair of operands is an error. -/
theorem isError_absolutePair {a b : Bytes}
    {e : Diagnostic} (h : (d.absolutePair a b).1 = .error e) :
    e.problem.severity.isError = true := by
  unfold absolutePair at h
  simp only at h
  split at h
  · obtain rfl := Except.error.inj h
    exact Expression.isError_absolute ‹_›
  · split at h
    · obtain rfl := Except.error.inj h
      exact Expression.isError_absolute ‹_›
    · simp at h

/-- A draft that moves on to the location that its operands ask for. -/
theorem fillsTo_reach (h : d.Homed) (hbody : d.record.body = .located)
    (hloc : d.record.loc = d.loc) {offset width : Int64}
    (hasked : ∃ a b, d.record.statement.operands = [a, b] ∧
      (Expression.absolute d.layout.symbols d.record.place a).result =
      .ok offset ∧
      (Expression.absolute d.layout.symbols d.record.place b).result =
      .ok width) (hsized : width = 4 ∨ width = 8)
    (hinside : 0 ≤ offset ∧ offset < width ∧ offset % 2 = 0) :
    let target := alignTo d.loc offset width
    let reached : Draft :=
      ({ d with record := { d.record with length := target - d.loc } }.setLoc
        target).defineMark target
    reached.record.FillsTo reached.layout.symbols offset width := by
  intro target reached
  let measured : Draft :=
    { d with record := { d.record with length := target - d.loc } }
  have hhomed : measured.Homed := ⟨h.layout, h.home, h.homeless⟩
  have hset := grows_setLoc measured target hhomed.layout
  have hmark : Aside (measured.setLoc target) reached :=
    aside_defineLabel (hhomed.anchored_setLoc target) _ _ _
  have hdefinitions :=
    (hset.2.trans (hmark.layout hset.1).2).symbols.definitions
  -- the record has got its length, and perhaps an error mark
  have hrecord : reached.record =
      { d.record with
        length := target - d.loc, errored := reached.record.errored } :=
    hmark.record
  obtain ⟨a, b, hoperands, hoffset, hwidth⟩ := hasked
  rw [hrecord]
  refine ⟨hbody, ⟨a, b, hoperands, ?_, ?_⟩, hsized, hinside, ?_⟩
  · exact Expression.result_absolute_mono hdefinitions hoffset
  · exact Expression.result_absolute_mono hdefinitions hwidth
  · show target - d.loc = alignTo d.record.loc offset width - d.record.loc
    rw [hloc]

/-- **A conditional no-operation** reaches the location that its operands ask
for, or is an error. -/
theorem fills_layOutAlignment (hwf : d.layout.WellFormed) (h : d.Fresh) :
    d.layOutAlignment.record.Fills d.layOutAlignment.layout.symbols := by
  have hfailed : ∀ (d : Draft) (cursor : Cursor) {problem : Problem},
      problem.severity.isError = true →
      (d.report cursor problem).record.Fills
        (d.report cursor problem).layout.symbols := by
    intro d cursor problem hproblem hclean
    exact absurd (hclean.symm.trans (errored_report d cursor hproblem))
      Bool.false_ne_true
  obtain ⟨hensured, -⟩ := seated_ensureSection hwf h
  have hloc := h.loc_ensureSection
  unfold layOutAlignment
  generalize d.ensureSection = d₁ at hensured hloc
  have hseated := hensured.withBody .located
  have hloc₁ : (d₁.withBody .located).record.loc = (d₁.withBody .located).loc :=
    hloc
  have hbody : (d₁.withBody .located).record.body = .located := rfl
  generalize d₁.withBody .located = d₂ at hseated hloc₁ hbody
  simp only
  split
  · rename_i a b hoperands
    have haside := aside_absolutePair d₂ a b
    have hvalues :=
      fun m n => @absolutePair_eq_ok d₂ hseated.homed.layout a b m n
    have hafter := hseated.aside haside
    generalize hpair : d₂.absolutePair a b = evaluated at *
    obtain ⟨outcome, d₃⟩ := evaluated
    simp only at haside hvalues hafter ⊢
    split
    · exact hfailed _ _ (isError_absolutePair (congrArg Prod.fst hpair))
    · rename_i offset width
      obtain ⟨hoffset, hwidth⟩ := hvalues offset width rfl
      split
      · exact hfailed _ _ rfl
      · rename_i hsize
        split
        · exact hfailed _ _ rfl
        · rename_i hinside
          simp only [not_or, Int64.not_lt, Int64.not_le, not_not] at hinside
          -- reading the operands has left the record as it was
          have hplace : d₃.record.place = d₂.record.place := by
            rw [haside.record]
            rfl
          have hsame : d₃.record.statement.operands =
              d₂.record.statement.operands :=
            congrArg Statement.operands haside.statement
          have hloc₃ : d₃.record.loc = d₃.loc := by
            rw [haside.record, haside.loc, ← hloc₁]
          have hsized : width = 4 ∨ width = 8 :=
            Decidable.or_iff_not_imp_left.mpr fun hfour =>
              Decidable.not_not.mp fun height => hsize ⟨hfour, height⟩
          exact fun _ _ => ⟨offset, width,
            fillsTo_reach hafter.homed (haside.body.trans hbody) hloc₃
            ⟨a, b, hsame.trans hoperands, hplace ▸ hoffset,
              hplace ▸ hwidth⟩ hsized hinside⟩
  · split
    · exact hfailed _ _ rfl
    · exact hfailed _ _ rfl

end Draft

namespace Record

/-- A filling stays one while the table grows. -/
theorem FillsTo.mono {t t' : SymbolTable} {r : Record} {offset width : Int64}
    (h : r.FillsTo t offset width) (hext : t.Extends t') :
    r.FillsTo t' offset width := by
  obtain ⟨a, b, hoperands, hoffset, hwidth⟩ := h.asked
  exact { h with asked := ⟨a, b, hoperands,
    Expression.result_absolute_mono hext.definitions hoffset,
    Expression.result_absolute_mono hext.definitions hwidth⟩ }

/-- **Every `CNOP`** of a program fills to its boundary. -/
theorem rule_fills : Rule Fills where
  exempt h := by
    intro hclean hdirective
    rcases h with herrored | hnone | hending
    · simp [hclean] at herrored
    · simp [hdirective] at hnone
    · simp [hdirective] at hending
  mono h hext hclean hdirective := by
    obtain ⟨offset, width, hfills⟩ := h hclean hdirective
    exact ⟨offset, width, hfills.mono hext⟩
  laid {d directive} hwf hfresh hnamed hclean hdirective := by
    have hsame := (d.reports_layOutDirective directive).directive.trans hnamed
    obtain rfl : directive = .cnop :=
      Option.some.inj (hsame.symm.trans hdirective)
    exact Draft.fills_layOutAlignment hwf hfresh hclean hdirective
  settled {d} last hwaiting h hclean hdirective := by
    -- a conditional no-operation is no equate
    obtain ⟨hreported, hsame, -, -⟩ :=
      ((Draft.Steps.refl d).settle last).reports
    have hbefore : d.record.errored = false := by
      cases herrored : d.record.errored with
      | false => rfl
      | true => simp [hreported.errored_mono herrored] at hclean
    obtain ⟨_, _, hfills⟩ := h hbefore (hsame ▸ hdirective)
    simp [Layout.isWaiting, hfills.located] at hwaiting

end Record

namespace Draft

/-- Counting on from a location, one by one, until its remainder is the
offset. -/
inductive Counts (offset width : Int64) : Int64 → Int64 → Prop
  | stop {loc : Int64} (h : loc % width = offset) : Counts offset width loc loc
  | next {loc target : Int64} (h : loc % width ≠ offset)
      (hrest : Counts offset width (loc + 1) target) :
        Counts offset width loc target

variable {loc offset width target : Int64}

/-- Counting on has one end. -/
theorem Counts.unique {target' : Int64} (h : Counts offset width loc target)
    (h' : Counts offset width loc target') : target' = target := by
  induction h with
  | stop hmet =>
      cases h' with
      | stop => rfl
      | next hmissed => exact absurd hmet hmissed
  | next hmissed _ ih =>
      cases h' with
      | stop hmet => exact absurd hmet hmissed
      | next _ hrest => exact ih hrest

/-- The first location with the offset is where the counting ends. -/
theorem counts_of_first (n : Nat)
    (hmet : (loc + Int64.ofNat n) % width = offset)
    (hmissed : ∀ k < n, (loc + Int64.ofNat k) % width ≠ offset) :
    Counts offset width loc (loc + Int64.ofNat n) := by
  induction n generalizing loc with
  | zero =>
      have hzero : loc + Int64.ofNat 0 = loc := Int64.add_zero loc
      rw [hzero] at hmet ⊢
      exact .stop hmet
  | succ n ih =>
      have hnext : ∀ k : Nat,
          loc + 1 + Int64.ofNat k = loc + Int64.ofNat (k + 1) := by
        intro k
        have hone : Int64.ofNat (k + 1) = Int64.ofNat k + 1 :=
          Int64.ofNat_add k 1
        rw [hone]
        grind
      have hrest : Counts offset width (loc + 1) (loc + 1 + Int64.ofNat n) :=
        ih (hnext n ▸ hmet) fun k hk => hnext k ▸
          hmissed (k + 1) (Nat.succ_lt_succ hk)
      rw [hnext] at hrest
      have hfirst := hmissed 0 (Nat.succ_pos n)
      exact .next (by simpa using hfirst) hrest

/-- Remainders have the sign of the location, so below zero only the offset zero
is met. -/
theorem mod_eq_offset_iff (hpos : 0 < width.toInt)
    (hoffset : 0 ≤ offset.toInt) :
    loc % width = offset ↔
      (0 ≤ loc.toInt ∨ offset.toInt = 0) ∧
      loc.toInt % width.toInt = offset.toInt := by
  rw [← Int64.toInt_inj, Int64.toInt_mod]
  rcases Int.lt_or_le loc.toInt 0 with hloc | hloc
  · have hsign : loc.toInt.tmod width.toInt ≤ 0 := by
      have h := Int.tmod_nonneg width.toInt
        (Int.neg_nonneg_of_nonpos (Int.le_of_lt hloc))
      rw [Int.neg_tmod] at h
      omega
    have hzero : loc.toInt.tmod width.toInt = 0 ↔
        loc.toInt % width.toInt = 0 := by
      rw [← Int.dvd_iff_tmod_eq_zero, Int.dvd_iff_emod_eq_zero]
    have hnonneg := Int.emod_nonneg loc.toInt (Int.ne_of_gt hpos)
    rcases Int.lt_or_eq_of_le hoffset with hlt | heq
    · omega
    · rw [← heq, hzero]
      omega
  · rw [Int.tmod_eq_emod_of_nonneg hloc]
    simp [hloc]

/-- The location `n` further on, if that is not a whole round. -/
theorem toInt_add_ofNat (loc : Int64) {n : Nat} (h : n < 2 ^ 64) :
    (loc + Int64.ofNat n).toInt =
      if loc.toInt + n < 2 ^ 63 then loc.toInt + n else
        loc.toInt + n - 2 ^ 64 := by
  have hlow := loc.le_toInt
  have hhigh := loc.toInt_lt
  rw [Int64.toInt_add, Int64.toInt_ofNat', Int.add_bmod_bmod, Int.bmod_def]
  have hsize : (Int64.size : Int) = 2 ^ 64 := rfl
  rw [hsize]
  split <;> split <;> omega

/-- How far it is to the next location with the offset, if nothing wraps on the
way. -/
theorem gap_eq (hwidth : width.toInt = 4 ∨ width.toInt = 8)
    (hoffset : 0 ≤ offset.toInt) (hlt : offset.toInt < width.toInt) :
    (offset - loc % width + width) % width =
      Int64.ofNat ((offset.toInt - loc.toInt) % width.toInt).toNat := by
  have hrem : (loc % width).toInt = loc.toInt.tmod width.toInt :=
    Int64.toInt_mod _ _
  have hlow := Int.lt_tmod_of_pos loc.toInt (b := width.toInt) (by omega)
  have hhigh := Int.tmod_lt_of_pos loc.toInt (b := width.toInt) (by omega)
  have hdifference : (offset - loc % width).toInt =
      offset.toInt - loc.toInt.tmod width.toInt := by
    rw [toInt_sub_of_range (by omega) (by omega), hrem]
  have hsum : (offset - loc % width + width).toInt =
      offset.toInt - loc.toInt.tmod width.toInt + width.toInt := by
    rw [toInt_add_of_range (by omega) (by omega), hdifference]
  have hcongr : loc.toInt.tmod width.toInt % width.toInt =
      loc.toInt % width.toInt := by
    rw [← Int.add_mul_emod_self_left _ _ (loc.toInt.tdiv width.toInt),
      Int.tmod_add_mul_tdiv]
  have hleast :=
    Int.emod_nonneg (offset.toInt - loc.toInt) (b := width.toInt) (by omega)
  have hmost :=
    Int.emod_lt_of_pos (offset.toInt - loc.toInt) (b := width.toInt) (by omega)
  rw [← Int64.toInt_inj, Int64.toInt_ofNat_of_lt (by omega),
    Int.toNat_of_nonneg hleast, Int64.toInt_mod,
    hsum, Int.tmod_eq_emod_of_nonneg (by omega), Int.add_emod_right,
    Int.sub_emod, hcongr, ← Int.sub_emod]

/-- How often the counter moves.  Below zero, and when it wraps, it has to come
to zero again before it meets another offset. -/
def stepsTo (loc offset width : Int) : Nat :=
  let gap := (offset - loc) % width
  if offset ≠ 0 ∧ (loc < 0 ∨ 2 ^ 63 ≤ loc + gap) then
    ((offset - loc) % 2 ^ 64).toNat
  else gap.toNat

/-- The counter does not go round. -/
theorem stepsTo_lt (loc : Int) {offset width : Int}
    (hwidth : width = 4 ∨ width = 8) (hlt : offset < width) :
    stepsTo loc offset width < 2 ^ 64 := by
  unfold stepsTo
  rcases hwidth with rfl | rfl
  all_goals
    simp only
    split <;> omega

/-- The location that is given is so many steps on. -/
theorem alignTo_eq_add (hwidth : width.toInt = 4 ∨ width.toInt = 8)
    (hoffset : 0 ≤ offset.toInt) (hlt : offset.toInt < width.toInt) :
    alignTo loc offset width =
      loc + Int64.ofNat (stepsTo loc.toInt offset.toInt width.toInt) := by
  have hlow := loc.le_toInt
  have hhigh := loc.toInt_lt
  have hleast :=
    Int.emod_nonneg (offset.toInt - loc.toInt) (b := width.toInt) (by omega)
  have hmost :=
    Int.emod_lt_of_pos (offset.toInt - loc.toInt) (b := width.toInt) (by omega)
  have htarget := toInt_add_ofNat loc
    (n := ((offset.toInt - loc.toInt) % width.toInt).toNat) (by omega)
  have hzero : offset = 0 ↔ offset.toInt = 0 := by rw [← Int64.toInt_inj]; rfl
  unfold alignTo stepsTo
  simp only [gap_eq hwidth hoffset hlt, Int64.lt_iff_toInt_lt, Int64.toInt_zero,
    htarget, ne_eq, hzero]
  generalize (offset.toInt - loc.toInt) % width.toInt = gap at *
  by_cases hfar : offset.toInt ≠ 0 ∧ (loc.toInt < 0 ∨ 2 ^ 63 ≤ loc.toInt + gap)
  · rw [if_pos hfar, if_pos (by split <;> omega), ← Int64.toInt_inj,
      toInt_add_ofNat loc (by omega)]
    split <;> omega
  · rw [if_neg hfar, if_neg (by split <;> omega)]

/-- Counting on ends at the location that is given for it. -/
theorem counts_alignTo (hwidth : width = 4 ∨ width = 8)
    (hoffset : 0 ≤ offset) (hlt : offset < width) :
    Counts offset width loc (alignTo loc offset width) := by
  have hbounds : width.toInt = 4 ∨ width.toInt = 8 := by
    rcases hwidth with rfl | rfl <;> decide
  rw [nonneg_iff] at hoffset
  rw [Int64.lt_iff_toInt_lt] at hlt
  have hpos : 0 < width.toInt := by omega
  have hlow := loc.le_toInt
  have hhigh := loc.toInt_lt
  have hround := stepsTo_lt loc.toInt hbounds hlt
  rw [alignTo_eq_add hbounds hoffset hlt]
  refine counts_of_first _ ?_ fun k hk => ?_
  · rw [mod_eq_offset_iff hpos hoffset, toInt_add_ofNat loc hround]
    unfold stepsTo at *
    generalize width.toInt = w at *
    rcases hbounds with rfl | rfl
    all_goals
      simp only at *
      split <;> split <;> omega
  · rw [ne_eq, mod_eq_offset_iff hpos hoffset,
      toInt_add_ofNat loc (Nat.lt_trans hk hround)]
    clear hround
    unfold stepsTo at *
    generalize width.toInt = w at *
    rcases hbounds with rfl | rfl
    all_goals
      simp only at *
      split at hk <;> split <;> omega

/-- **Counting on**, from any location, ends where `alignTo` says and nowhere
else. -/
theorem counts_iff (hwidth : width = 4 ∨ width = 8) (hoffset : 0 ≤ offset)
    (hlt : offset < width) :
    Counts offset width loc target ↔ target = alignTo loc offset width := by
  have hends : Counts offset width loc (alignTo loc offset width) :=
    counts_alignTo hwidth hoffset hlt
  constructor
  · exact hends.unique
  · rintro rfl
    exact hends

/-- How far it is to the location that is asked for, if the counter does not
wrap. -/
theorem alignTo_spec (hloc : 0 ≤ loc.toInt) (hwidth : width = 4 ∨ width = 8)
    (hoffset : 0 ≤ offset) (hlt : offset < width)
    (hforward : 0 ≤ (alignTo loc offset width - loc).toInt) :
    (alignTo loc offset width - loc).toInt < width.toInt ∧
      (loc.toInt + (alignTo loc offset width - loc).toInt) % width.toInt =
        offset.toInt := by
  have hbounds : width.toInt = 4 ∨ width.toInt = 8 := by
    rcases hwidth with rfl | rfl <;> decide
  rw [nonneg_iff] at hoffset
  rw [Int64.lt_iff_toInt_lt] at hlt
  have hhigh := loc.toInt_lt
  have hsteps : alignTo loc offset width - loc =
      Int64.ofNat (stepsTo loc.toInt offset.toInt width.toInt) := by
    rw [alignTo_eq_add hbounds hoffset hlt]
    grind
  have hword := toInt_add_ofNat 0 (stepsTo_lt loc.toInt hbounds hlt)
  rw [Int64.zero_add, Int64.toInt_zero] at hword
  rw [hsteps, hword] at hforward ⊢
  unfold stepsTo at *
  generalize width.toInt = w at *
  rcases hbounds with rfl | rfl
  all_goals
    simp only at *
    split at hforward <;> split <;> omega

end Draft

/-- **No-operations fill whole halfwords**, if they end on a halfword. -/
theorem Generate.filling_eq {loc : Int64} {n : Nat}
    (h : (loc.toInt + n) % 2 = 0) :
    ∃ lead count : Nat, filling loc n =
        List.replicate lead 0 ++ (List.replicate count [0x07, 0x00]).flatten ∧
      lead ≤ 1 ∧ (lead = 1 ↔ loc.toInt % 2 = 1 ∧ 0 < n) ∧
      n = lead + 2 * count := by
  have hodd : loc % 2 ≠ 0 ↔ loc.toInt % 2 = 1 := by
    have htwo : (2 : Int64).toInt = 2 := rfl
    rw [ne_eq, mod_eq_zero_iff, htwo]
    omega
  unfold filling
  by_cases hlead : loc % 2 ≠ 0 ∧ 0 < n
  · simp only [if_pos hlead]
    rw [hodd] at hlead
    have hnone : (n - 1) % 2 = 0 := by omega
    exact ⟨1, (n - 1) / 2, by simp [hnone],
      Nat.le_refl 1, by simp [hlead], by omega⟩
  · simp only [if_neg hlead]
    rw [hodd] at hlead
    have hnone : n % 2 = 0 := by omega
    exact ⟨0, n / 2, by simp [hnone], Nat.zero_le 1, by simp [hlead], by omega⟩

/-- A conditional no-operation without an error gets its filling. -/
theorem Generation.step_filling {g : Generation} {r : Record}
    (hfault : g.fault = none) (hclean : r.errored = false)
    (hbody : r.body = .located) (hdirective : r.directive = some .cnop)
    (hlength : 0 ≤ r.length.toInt) :
    (g.step r).1 = { r with
      object := some (Generate.filling r.loc r.length.toInt.toNat) } := by
  have hnonneg : ¬ r.length < 0 := by
    rw [Int64.lt_iff_toInt_lt, Int64.toInt_zero]
    omega
  have hgenerate : (Generate.exec Generate.generate r g).2.1 =
      { r with object := some (Generate.filling r.loc r.length.toInt.toNat) } := by
    unfold Generate.generate
    rw [Generate.exec_bind, Generate.exec_record]
    simp only [hbody, hdirective, if_neg hnonneg, Generate.exec_emit]
  unfold step
  rw [if_neg (by simp [hclean, hfault])]
  exact hgenerate

/-! ### Programs -/

/-- A conditional no-operation at its address, and the record of its code. -/
structure Record.Pads (t : SymbolTable) (r r' : Record)
    (offset width : Int64) : Prop where
  asked : ∃ a b, r.statement.operands = [a, b] ∧
    (Expression.absolute t r.place a).result = .ok offset ∧
    (Expression.absolute t r.place b).result = .ok width
  sized : width = 4 ∨ width = 8
  inside : 0 ≤ offset ∧ offset < width
  short : 0 ≤ r.length.toInt ∧ r.length.toInt < width.toInt
  reached : (r.loc.toInt + r.length.toInt) % width.toInt = offset.toInt
  /-- A zero octet leads if the address is odd, and no-operations on halfwords
  follow. -/
  code : ∃ lead count : Nat, r'.object =
      some (List.replicate lead 0 ++
        (List.replicate count [0x07, 0x00]).flatten) ∧
    lead ≤ 1 ∧ (lead = 1 ↔ r.loc.toInt % 2 = 1 ∧ 0 < r.length.toInt) ∧
    r.length.toInt = lead + 2 * count ∧ (r.loc.toInt + lead) % 2 = 0

namespace Program

/-- A base on a doubleword leaves remainders alone. -/
theorem loc_moveRecord_emod {t : SymbolTable}
    {r : Record} (hbase : OnBoundary 8 (t.offset r.sectionId))
    {w : Int} (hw : w = 4 ∨ w = 8) :
    (moveRecord t r).loc.toInt % w = r.loc.toInt % w := by
  rw [loc_moveRecord]
  have hbase : (8 : Int) ∣ (t.offset r.sectionId).toInt := hbase
  rcases hw with rfl | rfl <;>
    rcases toInt_add_cases r.loc (t.offset r.sectionId) with h | h | h <;>
      rw [h] <;> omega

/-- **A conditional no-operation pads**, at a location that is not negative. -/
theorem pads_moveRecord {t : SymbolTable} (ht : t.Numbered) {r : Record}
    {offset width : Int64} (h : r.FillsTo t offset width)
    (hloc : 0 ≤ r.loc.toInt) (hlow : 0 ≤ r.length.toInt)
    (hclean : r.errored = false) (hdirective : r.directive = some .cnop)
    {g : Generation} (hfault : g.fault = none) :
    (moveRecord t.normalize r).Pads t.normalize
      (g.step (moveRecord t.normalize r)).1 offset width := by
  obtain ⟨hoffset, hinside, hhalf⟩ := h.inside
  obtain ⟨hhigh, htarget⟩ :=
    Draft.alignTo_spec hloc h.sized hoffset hinside (h.reached ▸ hlow)
  rw [← h.reached] at hhigh htarget
  have hwidth : width.toInt = 4 ∨ width.toInt = 8 := by
    rcases h.sized with rfl | rfl <;> decide
  -- the target is as far from the boundaries of the module as from those of the
  -- section
  have hmod := loc_moveRecord_emod (ht.onBoundary_offset r.sectionId) hwidth
  have hreached :
      ((moveRecord t.normalize r).loc.toInt + r.length.toInt) % width.toInt =
      offset.toInt := by
    rw [Int.add_emod, hmod, ← Int.add_emod]
    exact htarget
  refine ⟨?_, h.sized, ⟨hoffset, hinside⟩, ⟨hlow, hhigh⟩, hreached, ?_⟩
  · obtain ⟨a, b, hoperands, ha, hb⟩ := h.asked
    rw [place_moveRecord]
    refine ⟨a, b, hoperands, ?_, ?_⟩ <;>
      rw [Expression.absolute_normalize ht.unplaced]
    · exact ha
    · exact hb
  · have hbody := (body_moveRecord_eq_located (t := t.normalize)).mpr h.located
    have hword : (r.length.toInt.toNat : Int) = r.length.toInt :=
      Int.toNat_of_nonneg hlow
    have heven : ((moveRecord t.normalize r).loc.toInt + r.length.toInt.toNat) %
        2 = 0 := by
      have htwo : (2 : Int) ∣ offset.toInt :=
        (mod_eq_zero_iff offset 2).mp hhalf
      rw [hword]
      rcases hwidth with hfour | height
      · rw [hfour] at hreached
        omega
      · rw [height] at hreached
        omega
    obtain ⟨lead, count, hfilling, hone, hlead, hcount⟩ :=
      Generate.filling_eq heven
    have hstep := Generation.step_filling
      (r := moveRecord t.normalize r) hfault hclean hbody
      hdirective hlow
    rw [hstep]
    refine ⟨lead, count, congrArg some hfilling, hone, ?_, ?_, by omega⟩
    · rw [hlead]
      show _ ∧ 0 < r.length.toInt.toNat ↔ _ ∧ 0 < r.length.toInt
      omega
    · show r.length.toInt = lead + 2 * count
      omega

/-- A literal at its address. -/
theorem onBoundary_relocate {l : Layout} (hwf : l.WellFormed)
    {literal : Literal}
    (hl : literal ∈ (l.literals.relocate l.symbols.normalize.offset).literals)
    (hplace : ∀ old ∈ l.literals.literals, old.place.isSome) :
    ∃ d spot, literal.descriptor = some d ∧ literal.place = some spot ∧
      spot.boundary = Int64.ofNat (Literal.group literal.length) ∧
      OnBoundary (Literal.group literal.length) spot.address ∧
      OnBoundary d.alignment spot.address := by
  obtain ⟨old, hold, rfl⟩ := List.mem_map.mp hl
  obtain ⟨spot, hspot⟩ := Option.isSome_iff_exists.mp (hplace old hold)
  obtain ⟨d, hd, hsound, -⟩ := hwf.described old hold
  obtain ⟨hsized, hplaced⟩ := hwf.aligned old hold
  obtain ⟨hboundary, haddress⟩ := hplaced spot hspot
  have hbase := hwf.symbols.numbered.onBoundary_offset old.sectionId
  have hmoved :=
    haddress.add (Literal.group_dvd _) (hbase.mono (Literal.group_dvd _))
  have hlength : old.length = d.size := by simp [Literal.length, hd]
  -- the boundary of the constant is one of its length, so it is one of the
  -- group
  have hgroup : d.alignment ∣ Literal.group old.length := by
    rw [hlength] at hsized ⊢
    exact Literal.dvd_group d.alignment_dvd hsound.whole hsized
  let moved : Literal.Place :=
    { spot with address :=
      spot.address + l.symbols.normalize.offset old.sectionId }
  exact ⟨d, moved, hd, by simp [hspot, moved], hboundary, hmoved,
    hmoved.mono hgroup⟩

/-- **Boundaries survive in the module.**  Every instruction has an even
address, every constant without a length modifier is on the boundary of its
type, and every literal on the boundary of its group and on that of its
constant; in a dummy section addresses are those of the section.  If no location
wrapped, a conditional no-operation without an error moves by less than its
width to the offset it asks for, and its code is whole no-operations on
halfwords, behind a zero octet if it starts at an odd address and is not
empty. -/
theorem boundaries (options : Options) (statements : List Statement) :
    let p := ofStatements options statements
    (∀ r ∈ p.records, ∀ op bound,
      r.body = .instruction op bound → OnBoundary 2 r.loc) ∧
    (∀ r ∈ p.records, ∀ parts, r.body = .storage parts → ∀ c ∈ parts,
      c.1.explicitLength = none → OnBoundary c.1.kind.alignment (r.loc + c.2)) ∧
    (∀ literal ∈ p.layout.literals.literals, ∃ d spot,
      literal.descriptor = some d ∧
      literal.place = some spot ∧
      spot.boundary = Int64.ofNat (Literal.group literal.length) ∧
      OnBoundary (Literal.group literal.length) spot.address ∧
      OnBoundary d.alignment spot.address) ∧
    ((unplaced options statements).InRange → ∀ (n : Nat) r,
      p.records[n]? = some r →
      r.directive = some .cnop → r.errored = false → ∃ r' offset width,
        p.generated.1[n]? = some r' ∧
        r.Pads p.layout.symbols r' offset width) := by
  obtain ⟨hwf, hplaced⟩ := unplaced_spec options statements
  have haligned : ∀ r ∈ (ofStatements options statements).records,
      r.Aligned := by
    intro r hr
    obtain ⟨r₀, hr₀, rfl⟩ := List.mem_map.mp hr
    exact (hplaced r₀ hr₀).aligned.moveRecord
      (hwf.symbols.numbered.onBoundary_offset _)
  refine ⟨fun r hr op bound hbody => ?_, fun r hr parts hbody c hc hnone => ?_,
    fun literal hl => ?_, fun hrange n r hr hdirective hclean => ?_⟩
  · have h := haligned r hr
    simpa only [Record.Aligned, hbody] using h
  · have h := haligned r hr
    simp only [Record.Aligned, hbody] at h
    have hboundary := h c hc
    rwa [Constant.Descriptor.alignment, hnone, if_neg (by simp)] at hboundary
  · exact onBoundary_relocate hwf hl fun old hold =>
      (unplaced_pooled options statements old hold).1
  · have hfault := hrange.unbroken hwf hplaced
    have hgenerated :=
      Generation.getElem?_run (Generation.new (ofStatements options statements))
        (ofStatements options statements).records n
    rw [hr] at hgenerated
    have hrecord : (unplaced options statements).records[n]?.map
        (moveRecord (unplaced options statements).layout.symbols.normalize) =
          some r := by
      rw [← List.getElem?_map]
      exact hr
    obtain ⟨r₀, hr₀, rfl⟩ := Option.map_eq_some_iff.mp hrecord
    have hmem := List.mem_of_getElem? hr₀
    obtain ⟨offset, width, hfills⟩ :=
      Record.rule_fills.unplaced options statements r₀ hmem hclean hdirective
    exact ⟨_, offset, width, hgenerated,
      pads_moveRecord hwf.symbols.numbered hfills
      (hrange.records r₀ hmem).1 (hrange.records r₀ hmem).2.1 hclean hdirective
        (Generation.fault_run_take hfault n)⟩

/-- The second section of a program begins at the sixteenth octet.  Behind its
single octet a conditional no-operation moves to the sixth octet of a
doubleword, and a literal of the first section is on a fullword. -/
theorem boundaries_padded :
    ∃ statements r r' literal spot, Statement.readAll
      (bytes (String.append
        "A CSECT\n L 1,=F'1'\n DC X'01'\nB CSECT\n DC X'02'\n CNOP 6,8\n"
        " LR 1,2\n DC H'3',F'4'\n END\n")) = .ok statements ∧
      (unplaced {} statements).InRange ∧
      (ofStatements {} statements).records[5]? = some r ∧ r.loc = 17 ∧
      r.length = 5 ∧
      (ofStatements {} statements).generated.1[5]? = some r' ∧
      r.Pads (ofStatements {} statements).layout.symbols r' 6 8 ∧
      literal ∈ (ofStatements {} statements).layout.literals.literals ∧
      literal.place = some spot ∧ OnBoundary 4 spot.address := by
  have hcheck : (Statement.readAll (bytes (String.append
      "A CSECT\n L 1,=F'1'\n DC X'01'\nB CSECT\n DC X'02'\n CNOP 6,8\n"
      " LR 1,2\n DC H'3',F'4'\n END\n"))
      |>.toOption.any fun statements =>
        (ofStatements {} statements).records[5]?.any fun r =>
        (ofStatements {} statements).layout.literals.literals[0]?.any
          fun literal =>
          decide ((unplaced {} statements).InRange ∧ r.loc = 17 ∧ r.length = 5 ∧
            r.directive = some .cnop ∧ r.errored = false ∧
            r.statement.operands = [bytes "6", bytes "8"] ∧
            (Expression.absolute
              (ofStatements {} statements).layout.symbols r.place
              (bytes "6")).result = .ok 6 ∧
            (Expression.absolute
              (ofStatements {} statements).layout.symbols r.place
              (bytes "8")).result = .ok 8 ∧ literal.length = 4)) = true := by
    decide +kernel
  obtain ⟨statements, hread, hcheck⟩ := exists_ok_of_any hcheck
  obtain ⟨r, hr, hcheck⟩ := (Option.any_eq_true _ _).mp hcheck
  obtain ⟨literal, hliteral, hcheck⟩ := (Option.any_eq_true _ _).mp hcheck
  obtain ⟨hrange, hloc, hlength, hdirective, hclean, hoperands, hsix,
      height, hfour⟩ :=
    of_decide_eq_true hcheck
  obtain ⟨-, -, hplaces, hpads⟩ := boundaries {} statements
  obtain ⟨r', offset, width, hr', hpad⟩ := hpads hrange 5 r hr hdirective hclean
  -- the offset and the width are the values of the operands
  obtain ⟨a, b, hpair, ha, hb⟩ := hpad.asked
  obtain ⟨rfl, hrest⟩ := List.cons.inj (hpair.symm.trans hoperands)
  obtain ⟨rfl, -⟩ := List.cons.inj hrest
  obtain rfl := Except.ok.inj (ha.symm.trans hsix)
  obtain rfl := Except.ok.inj (hb.symm.trans height)
  have hmem := List.mem_of_getElem? hliteral
  obtain ⟨d, spot, -, hspot, -, hgroup, -⟩ := hplaces literal hmem
  rw [hfour] at hgroup
  exact ⟨statements, r, r', literal, spot, hread, hrange, hr, hloc, hlength,
    hr', hpad, hmem, hspot, hgroup⟩

end Program

end System370
