import System370.Proofs.Assembling

/-!
# The text of a module

The code that the records of an assembly have is what the text of its module
holds, no more and no less: `Assembly.text_image`.  It is stated of an assembly
in which no location wrapped, because the texts are in order and apart only if
the sections are.
-/

namespace System370

namespace Deck

/-- The external symbol of a number.  Entry points have no number. -/
def Module.symbol? (m : Module) (id : Int) : Option Symbol :=
  m.symbols.find? fun s => s.type ≠ .entry ∧ s.id = id

variable {options : Options} {modes : List (Bytes × Modes)} {t : SymbolTable}

/-- A control section is no entry point. -/
theorem type_sectionSymbol (s : Section) :
    (sectionSymbol options modes s).type ≠ .entry := by
  unfold sectionSymbol
  simp only
  split <;> decide

/-- **The number of a section finds its symbol.** -/
theorem find?_symbolsOf_section {id : Int} {s : Section}
    (hids : ∀ (i : Nat) s, t.sections[i]? = some s → s.id = i + 1) (hpos : 0 < id)
    (hs : t.section? id = some s) :
    ((symbolsOf options modes t).find? fun s => s.type ≠ .entry ∧ s.id = id) =
      some (sectionSymbol options modes s) := by
  have hget : t.sections[id.toNat - 1]? = some s := by
    rw [SymbolTable.section?, if_pos hpos] at hs
    exact hs
  obtain ⟨hlt, heq⟩ := List.getElem?_eq_some_iff.mp hget
  have hfound : ((t.sections.map (sectionSymbol options modes)).find?
      fun s => s.type ≠ .entry ∧ s.id = id) =
        some (sectionSymbol options modes s) := by
    rw [List.find?_eq_some_iff_getElem]
    have hid : s.id = id := by
      have := hids _ s hget
      omega
    refine ⟨?_, id.toNat - 1, by simpa using hlt, by simp [heq], ?_⟩
    · simp only [decide_eq_true_eq]
      exact ⟨type_sectionSymbol s, hid⟩
    · intro j hj
      have hother := hids j _ (List.getElem?_eq_getElem (by omega))
      simp only [List.getElem_map, Bool.not_eq_true',
        decide_eq_false_iff_not, not_and]
      intro _ hsame
      have hsame : (t.sections[j]).id = id := hsame
      omega
  unfold symbolsOf
  rw [List.append_assoc, List.find?_append, hfound, Option.some_or]

/-- Texts cover what the runs cover. -/
theorem Text.Collects.covers_iff {runs : List Run} {texts : List Text}
    (h : Text.Collects runs texts) (address : Int) :
    (∃ t ∈ texts, t.Covers address) ↔ ∃ run ∈ runs, run.Covers address := by
  rw [← Text.image_isSome_iff, h.image, Run.image_isSome_iff]

/-- One text ends before another begins, and a gap is between two of one
section. -/
def Text.Before (t t' : Text) : Prop :=
  t.stop ≤ t'.address.toInt ∧
    (t.sectionId = t'.sectionId → t.stop < t'.address.toInt)

/-- Whether a text lies inside the bounds of its section. -/
def Text.Inside (low high : Int → Int) (t : Text) : Prop :=
  low t.sectionId ≤ t.address.toInt ∧ t.address.toInt < t.stop ∧
    t.stop ≤ high t.sectionId

section Gaps

variable {runs : List Run} {texts : List Text} {low high : Int → Int}

/-- What holds of extents holds of the texts in them. -/
theorem Text.Collects.inside (h : Text.Collects runs texts)
    (hinside : ∀ e ∈ Extent.ofRuns runs, e.Inside low high) :
    ∀ t ∈ texts, t.Inside low high := by
  intro t ht
  have hextent := hinside t.extent (h.extents ▸ List.mem_map.mpr ⟨t, ht, rfl⟩)
  unfold Extent.Inside at hextent
  rw [h.stops t ht] at hextent
  exact hextent

theorem Text.Collects.pairwise (h : Text.Collects runs texts)
    (hpairwise : (Extent.ofRuns runs).Pairwise Extent.Before) :
    texts.Pairwise Text.Before := by
  rw [← h.extents, List.pairwise_map] at hpairwise
  refine hpairwise.imp_of_mem fun {t t'} ht ht' hbefore => ?_
  unfold Extent.Before at hbefore
  rw [h.stops t ht] at hbefore
  exact hbefore

/-- **A gap between two texts of one section is not covered**, also not by texts
of other sections. -/
theorem Text.not_covers_stop (hapart : Extent.Apart low high)
    (hinside : ∀ t ∈ texts, t.Inside low high)
    (hpairwise : texts.Pairwise Text.Before) {t t' : Text}
    (ht : t ∈ texts) (ht' : t' ∈ texts) (hsame : t.sectionId = t'.sectionId)
    (hgap : t.stop < t'.address.toInt) : ¬ ∃ u ∈ texts, u.Covers t.stop := by
  rintro ⟨u, hu, hlow, hhigh⟩
  obtain ⟨hlowt, horder, -⟩ := hinside t ht
  obtain ⟨-, horder', hhight⟩ := hinside t' ht'
  obtain ⟨hlowu, -, hhighu⟩ := hinside u hu
  by_cases hsection : u.sectionId = t.sectionId
  · -- a text of the same section is before or behind, with a gap
    obtain ⟨i, hi, rfl⟩ := List.mem_iff_getElem.mp ht
    obtain ⟨j, hj, rfl⟩ := List.mem_iff_getElem.mp hu
    rw [List.pairwise_iff_getElem] at hpairwise
    rcases Nat.lt_trichotomy i j with hlt | rfl | hgt
    · have hbefore := (hpairwise i j hi hj hlt).2 hsection.symm
      omega
    · omega
    · have hbefore := (hpairwise j i hj hi hgt).1
      omega
  · rw [← hsame] at hhight
    rcases hapart u.sectionId t.sectionId hsection with hle | hle
    · omega
    · omega

end Gaps

end Deck

namespace Program

/-- The extent of every run lies inside its section, if no location wrapped. -/
theorem InRange.inside_ofRun {p : Program} (h : p.InRange)
    (hwf : p.layout.WellFormed) (hplaced : ∀ r ∈ p.records, r.Placed p.layout) :
    ∀ run ∈ p.normalize.generated.2.runs,
      (Extent.ofRun run).Inside p.normalize.layout.symbols.low
        p.normalize.layout.symbols.high := by
  have hready : ∀ r ∈ p.normalize.records, Generation.Ready r :=
    fun r hr => (settled_records hwf hplaced r hr).ready
  intro run hrun
  obtain ⟨hpos, s, hs, hlow, hhigh⟩ := h.runs_inside hwf hplaced run hrun
  have hlength :=
    List.length_pos_iff.mpr (Workspace.runs_generated hready run hrun).1
  have hbase := h.bases s
    (List.mem_of_getElem? (SymbolTable.Numbered.getElem?_of_section? hpos hs))
  have hstop := Extent.stop_ofRun (r := run) (by omega) (by omega)
  obtain ⟨hlow', hhigh'⟩ := SymbolTable.low_eq hpos hs
  unfold Extent.Inside
  rw [hstop]
  show p.normalize.layout.symbols.low run.sectionId ≤ run.start.toInt ∧
    run.start.toInt < run.start.toInt + run.data.length ∧
    run.start.toInt + run.data.length ≤ p.normalize.layout.symbols.high
      run.sectionId
  rw [hlow', hhigh']
  omega

end Program

namespace Assembly

variable {options : Options} {source today : Bytes} {a : Assembly}
  {m : Deck.Module} {statements : List Statement}

/-- What an assembly was made of. -/
theorem of_assemble (h : assemble options source today = .ok a)
    (hread : Statement.readAll source = .ok statements) :
    (Program.ofStatements options statements).Contained ∧
      a.Made options (Program.ofStatements options statements) := by
  obtain ⟨statements', hread', hcontained, hmade⟩ :=
    Workspace.run_eq_ok (Workspace.sound_new options) h
  rw [hread] at hread'
  obtain rfl := Except.ok.inj hread'
  exact ⟨hcontained, hmade⟩

/-- The runs that were collected are the code of the records. -/
theorem Made.runs
    (h : a.Made options (Program.ofStatements options statements)) :
    (Program.ofStatements options statements).generated.2.runs =
      a.records.filterMap Record.write? := by
  rw [h.records]
  exact Program.runs_generated_eq fun r hr =>
    (Program.settled_ofStatements options statements r hr).ready

/-- The symbols of a module are those of the laid out program. -/
theorem Made.symbols_eq
    (h : a.Made options (Program.ofStatements options statements))
    (hm : a.module? = some m) :
    m.symbols = Deck.symbolsOf options
      (Program.ofStatements options statements).layout.modes
      (Program.ofStatements options statements).layout.symbols := by
  have hreads := Program.reads_generated fun r hr =>
    (Program.settled_ofStatements options statements r hr).ready
  rw [h.symbols m hm, hreads.symbolsOf]

/-- **The text of a module is what the records generated.**  The texts are in
order and do not overlap, and some address that nothing was generated for is
between two of one section.  Each of them lies inside its section.  Together
they cover the addresses that code was generated for, and hold the octets of the
last record that has some. -/
theorem text_image (hrun : assemble options source today = .ok a)
    (hm : a.module? = some m)
    (hread : Statement.readAll source = .ok statements)
    (hrange : (Program.unplaced options statements).InRange) :
    (m.text.Pairwise fun t t' => t.stop ≤ t'.address.toInt ∧
      (t.sectionId = t'.sectionId → ∃ address,
        t.stop ≤ address ∧ address < t'.address.toInt ∧
        ∀ run ∈ a.records.filterMap Record.write?, ¬ run.Covers address)) ∧
    (∀ t ∈ m.text, ∃ s, m.symbol? t.sectionId = some s ∧
      (s.type = .control ∨ s.type = .unnamed) ∧
      s.address.toInt ≤ t.address.toInt ∧
      t.stop ≤ s.address.toInt + s.length.toInt) ∧
    (∀ address, (∃ t ∈ m.text, t.Covers address) ↔
      ∃ run ∈ a.records.filterMap Record.write?, run.Covers address) ∧
    ∀ address, Deck.Text.image m.text address =
      Run.image (a.records.filterMap Record.write?) address := by
  obtain ⟨hcontained, hmade⟩ := of_assemble hrun hread
  obtain ⟨hwf, hplaced⟩ := Program.unplaced_spec options statements
  have hcollects := hmade.text m hm
  have hextents := hrange.inside_ofRun hwf hplaced
  have hapart :
      Extent.Apart (Program.ofStatements options statements).layout.symbols.low
      (Program.ofStatements options statements).layout.symbols.high :=
    hwf.symbols.numbered.apart hrange.bases
  have hinside := hcollects.inside (Extent.inside_ofRuns hextents)
  have hpairwise := hcollects.pairwise (Extent.pairwise_ofRuns hapart hextents)
  rw [hmade.runs] at hcollects
  refine ⟨?_, ?_, hcollects.covers_iff, hcollects.image⟩
  · refine hpairwise.imp_of_mem fun {t t'} ht ht' hbefore => ⟨hbefore.1,
      fun hsame => ?_⟩
    have hgap := hbefore.2 hsame
    refine ⟨t.stop, Int.le_refl _, hgap, fun run hrun hcovers => ?_⟩
    refine Deck.Text.not_covers_stop hapart hinside hpairwise ht ht'
      hsame hgap ?_
    exact (hcollects.covers_iff _).mpr ⟨run, hrun, hcovers⟩
  · intro t ht
    obtain ⟨hlow, horder, hhigh⟩ := hinside t ht
    obtain ⟨hpos, s, hs⟩ := SymbolTable.exists_section?_of_low_lt
      (Int.lt_of_le_of_lt hlow (Int.lt_of_lt_of_le horder hhigh))
    obtain ⟨hlow', hhigh'⟩ := SymbolTable.low_eq hpos hs
    rw [hlow'] at hlow
    rw [hhigh'] at hhigh
    refine ⟨Deck.sectionSymbol options
      (Program.ofStatements options statements).layout.modes s,
      ?_, ?_, hlow, hhigh⟩
    · unfold Deck.Module.symbol?
      rw [hmade.symbols_eq hm]
      exact Deck.find?_symbolsOf_section
        hwf.symbols.numbered.control_normalize hpos hs
    · unfold Deck.sectionSymbol
      by_cases hlabel : s.label = []
      · exact Or.inr (if_pos hlabel)
      · exact Or.inl (if_neg hlabel)

/-- Two sections, of which the first is resumed and partly overwritten. -/
theorem text_image_resumed :
    ∃ source statements a m, Statement.readAll source = .ok statements ∧
      assemble {} source = .ok a ∧ a.module? = some m ∧
      (Program.unplaced {} statements).InRange ∧
      (m.text.map fun t => (t.sectionId, t.address, t.data)) =
        [(1, 0, [0xFF, 0x12]), (2, 8, [0x12, 0x34])] ∧
      ∀ address, Deck.Text.image m.text address =
        Run.image (a.records.filterMap Record.write?) address := by
  have hassembled := exists_assemble_of_any {} (bytes
    "A CSECT\n LR 1,2\nB CSECT\n DC X'1234'\nA CSECT\n ORG A\n DC X'FF'\n END\n")
    (fun statements a => a.module?.any fun m =>
      decide ((Program.unplaced {} statements).InRange ∧
      (m.text.map fun t => (t.sectionId, t.address, t.data)) =
        [(1, 0, [0xFF, 0x12]), (2, 8, [0x12, 0x34])])) (by decide +kernel)
  obtain ⟨statements, a, hread, hrun, hcheck⟩ := hassembled
  obtain ⟨m, hm, hcheck⟩ := (Option.any_eq_true _ _).mp hcheck
  obtain ⟨hrange, htext⟩ := of_decide_eq_true hcheck
  exact ⟨_, statements, a, m, hread, hrun, hm, hrange, htext,
    (text_image hrun hm hread hrange).2.2.2⟩

end Assembly

end System370
