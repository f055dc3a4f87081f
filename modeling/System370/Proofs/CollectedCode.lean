import System370.Proofs.GenerationFrame
import System370.Proofs.ReusedStorage
import System370.Proofs.TextImage

/-!
# Collecting the code of a program

The runs that a generation ends with are stored in a new region and read back.
This file says when that goes well.

`Generation.Contained` is the condition: the generation did not end early, every
run lies in the region, and the number of pages for a region of that size did
not wrap.  It does not depend on the storage, which an earlier program may have
used.

* `Workspace.finish_ok`: with it, there is a result, and its texts are the image
  of the runs;
* `Workspace.finish_fault`: without it, there is a fault;
* `Workspace.sound_run`: in both cases the storage can be used again.
-/

namespace System370

open StorageStep

/-! ### Storing and reading back -/

/-- A generation whose runs can be collected in a region. -/
structure Generation.Contained (size : Int64) (g : Generation) : Prop where
  unbroken : g.fault = none
  inside : ∀ r ∈ g.runs, 0 ≤ r.start.toInt ∧
    r.start.toInt + r.data.length ≤ size.toInt
  paged : g.runs ≠ [] → size.toInt ≤ 2 ^ 63 - 4096

/-- The stretch of a text. -/
def Deck.Text.extent (t : Deck.Text) : Extent :=
  ⟨t.sectionId, t.address, t.address + Int64.ofNat t.data.length⟩

/-- Texts that hold what some runs leave behind. -/
structure Deck.Text.Collects (runs : List Run)
    (texts : List Deck.Text) : Prop where
  extents : texts.map Deck.Text.extent = Extent.ofRuns runs
  stops : ∀ t ∈ texts, t.extent.stop.toInt = t.stop
  image : ∀ address, Deck.Text.image texts address = Run.image runs address

namespace Workspace

/-- The second pass, the storage of its octets and the module. -/
theorem finish_eq (w : Workspace) (today : Bytes) (p : Program) :
    w.finish today p =
      match exec (Region.new p.layout.symbols.size) w.arena with
      | (.error e, arena) => (.error (.fault e), { w with arena })
      | (.ok region, arena) =>
        let (records, g) := (Generation.new p).run p.records
        let g := g.checkEntries p.layout.entryCursors
        let diagnostics :=
          sortByKey (fun d : Diagnostic => (d.cursor.line : Int)) g.diagnostics
        let isClean := !(Diagnostic.worst diagnostics).isError
        match exec (collect region g isClean) arena with
        | (.error e, arena) =>
            (.error (.fault e), { w with arena, region? := some region })
        | (.ok texts, arena) =>
          let module? := if isClean then
            some (moduleOf w.options today p.layout g texts) else none
          (.ok
            { records, diagnostics, module?
              size := p.layout.symbols.size
              symbols := g.symbols
              literals := p.layout.literals
              deck? := module?.map (·.emit)
              deckId := p.layout.deckId },
            { w with arena, region? := some region }) := rfl

variable {a : Arena} {size : Int64} {g : Generation}

/-- The bounds of runs hold for their extents. -/
theorem extents_inside
    (hinside : ∀ r ∈ g.runs, 0 ≤ r.start.toInt ∧
      r.start.toInt + r.data.length ≤ size.toInt)
    (hdata : ∀ r ∈ g.runs, r.data ≠ []) :
    ∀ e ∈ Extent.ofRuns g.runs,
    0 ≤ e.start.toInt ∧ e.start.toInt < e.stop.toInt ∧
      e.stop.toInt ≤ size.toInt := by
  have hhigh := size.toInt_lt
  have hall : ∀ r ∈ g.runs,
      (Extent.ofRun r).Inside (fun _ => 0) (fun _ => size.toInt) := by
    intro r hr
    obtain ⟨hlow, hstop⟩ := hinside r hr
    have hlength := List.length_pos_iff.mpr (hdata r hr)
    have hend := Extent.stop_ofRun hlow (by omega)
    refine ⟨hlow, ?_, ?_⟩
    · show r.start.toInt < _
      omega
    · show _ ≤ size.toInt
      omega
  exact Extent.inside_ofRuns hall

/-- The texts that are read back hold what the runs leave behind. -/
theorem collects_textOf {region : Region} {b : Arena}
    (hinside : ∀ r ∈ g.runs, 0 ≤ r.start.toInt ∧
      r.start.toInt + r.data.length ≤ region.size.toInt)
    (hreadable : ∀ e ∈ Extent.ofRuns g.runs, Readable b region e)
    (himage : ∀ offset : Nat, region.octet? b offset =
      (Run.image g.runs offset).or (region.octet? a offset)) :
    Deck.Text.Collects g.runs
      ((Extent.ofRuns g.runs).map (textOf b region)) := by
  have hhigh := region.size.toInt_lt
  have hrange : ∀ r ∈ g.runs, 0 ≤ r.start.toInt ∧
      r.start.toInt + r.data.length < 2 ^ 63 := by
    intro r hr
    obtain ⟨hlow, hstop⟩ := hinside r hr
    omega
  have hextent : ∀ e ∈ Extent.ofRuns g.runs,
      (textOf b region e).extent = e := by
    intro e he
    obtain ⟨hlow, horder, hstop, -⟩ := hreadable e he
    have hlength : Int64.ofNat (textOf b region e).data.length =
        e.stop - e.start := by
      have hlt := e.stop.toInt_lt
      apply Int64.toInt_inj.mp
      rw [textOf, Region.length_octetsFrom, Int64.toInt_ofNat_of_lt (by omega),
        toInt_sub_of_range (by omega) (by omega)]
      omega
    have hend : e.start + (e.stop - e.start) = e.stop := by grind
    show (⟨e.sectionId, e.start, e.start + Int64.ofNat _⟩ : Extent) = e
    rw [hlength, hend]
  refine ⟨?_, ?_, fun address => Deck.Text.image_eq ?_ ?_ address⟩
  · rw [List.map_map]
    exact (List.map_congr_left hextent).trans (List.map_id' _)
  · intro t ht
    obtain ⟨e, he, rfl⟩ := List.mem_map.mp ht
    rw [hextent e he, stop_textOf (hreadable e he).2.1]
  · intro address
    rw [Run.image_isSome_iff, ← Extent.covers_ofRuns hrange]
    constructor
    · rintro ⟨t, ht, hcovers⟩
      obtain ⟨e, he, rfl⟩ := List.mem_map.mp ht
      exact ⟨e, he, (covers_textOf (hreadable e he).2.1 address).mp hcovers⟩
    · rintro ⟨e, he, hcovers⟩
      exact ⟨textOf b region e, List.mem_map.mpr ⟨e, he, rfl⟩,
        (covers_textOf (hreadable e he).2.1 address).mpr hcovers⟩
  · intro t ht address hcovers
    obtain ⟨e, he, rfl⟩ := List.mem_map.mp ht
    obtain ⟨hlow, horder, -, -⟩ := hreadable e he
    have hextent := (covers_textOf horder address).mp hcovers
    have hrun : (Run.image g.runs address).isSome := by
      rw [Run.image_isSome_iff, ← Extent.covers_ofRuns hrange]
      exact ⟨e, he, hextent⟩
    obtain ⟨octet, hoctet⟩ := Option.isSome_iff_exists.mp hrun
    have hnat : (address.toNat : Int) = address := by
      have hstart := hextent.1
      omega
    rw [octet?_textOf hlow hextent, himage, hnat, hoctet]
    rfl

/-- **Runs inside a region are collected.** -/
theorem exec_collect_ok {region : Region} (hbacked : region.Backed a)
    (hpage : a.pageSize = 4096)
    (hpages : region.pages.length = Region.pageCount 4096 region.size)
    (h : g.Contained region.size) (hdata : ∀ r ∈ g.runs, r.data ≠ [])
    (isClean : Bool) :
    ∃ texts a', exec (collect region g isClean) a = (.ok texts, a') ∧
      (isClean = true → Deck.Text.Collects g.runs texts) := by
  have hcontains : ∀ r ∈ g.runs, region.Contains a r.start r.data.length := by
    intro r hr
    obtain ⟨hlow, hstop⟩ := h.inside r hr
    have hroom : region.size.toInt + (4096 : Nat) ≤ 2 ^ 63 :=
      Int.add_le_of_le_sub_right (h.paged (List.ne_nil_of_mem hr))
    have hreach := Region.le_pageCount (by decide) (by decide) hroom
    refine ⟨hlow, hstop, ?_⟩
    rw [hpages, hpage]
    omega
  obtain ⟨c, hstore, hcbacked, hframe, himage⟩ :=
    exec_storeRuns_ok hbacked hcontains
  have hcsize : c.pageSize = 4096 := hframe.pageSize.trans hpage
  cases isClean with
  | false =>
      refine ⟨[], c, ?_, by simp⟩
      rw [collect_eq, exec_bind_ok hstore, h.unbroken]
      rfl
  | true =>
      have hreadable : ∀ e ∈ Extent.ofRuns g.runs, Readable c region e := by
        by_cases hruns : g.runs = []
        · intro e he
          rw [hruns] at he
          simp [Extent.ofRuns, sortByKey] at he
        · intro e he
          obtain ⟨hlow, horder, hstop⟩ := extents_inside h.inside hdata e he
          have hroom : region.size.toInt + (4096 : Nat) ≤ 2 ^ 63 :=
            Int.add_le_of_le_sub_right (h.paged hruns)
          have hreach := Region.le_pageCount (by decide) (by decide) hroom
          refine ⟨hlow, Int.le_of_lt horder, hstop, ?_⟩
          rw [hpages, hcsize]
          omega
      have hread := exec_readTexts hcbacked hreadable
      refine ⟨_, c, ?_, fun _ => collects_textOf h.inside hreadable himage⟩
      rw [collect_eq, exec_bind_ok hstore, h.unbroken]
      exact hread

/-- **Runs of which one does not fit cannot be collected**, whether texts are
read back or not. -/
theorem exec_collect_fault {region : Region} (hbacked : region.Backed a)
    (hpage : a.pageSize = 4096)
    (hpages : region.pages.length = Region.pageCount 4096 region.size)
    (h : ¬ g.Contained region.size)
    (hdata : ∀ r ∈ g.runs, r.data ≠ [] ∧ r.data.length < 2 ^ 63) :
    ∃ e a', ∀ isClean, exec (collect region g isClean) a = (.error e, a') := by
  have hfew : region.pages.length * a.pageSize < 2 ^ 63 := by
    rw [hpages, hpage]
    exact Region.pageCount_lt (by decide) (by decide) region.size
  by_cases hcontains : ∀ r ∈ g.runs, region.Contains a r.start r.data.length
  · obtain ⟨c, hstore, hcbacked, hframe, himage⟩ :=
      exec_storeRuns_ok hbacked hcontains
    cases hfault : g.fault with
    | some e =>
        refine ⟨e, c, fun isClean => ?_⟩
        rw [collect_eq, exec_bind_ok hstore, hfault]
        exact exec_throw e c
    | none =>
        -- the runs fit and the generation did not end early, so the pages
        -- wrapped
        refine absurd ⟨hfault,
          fun r hr => ⟨(hcontains r hr).1, (hcontains r hr).2.1⟩, ?_⟩ h
        intro hruns
        obtain ⟨r, hr⟩ := List.exists_mem_of_ne_nil _ hruns
        obtain ⟨hlow, -, hreach⟩ := hcontains r hr
        have hlength := List.length_pos_iff.mpr (hdata r hr).1
        by_cases hsmall : region.size.toInt ≤ 2 ^ 63 - 4096
        · exact hsmall
        · rw [hpages, Region.pageCount_wrapped (by decide) (by decide)
            (by omega)] at hreach
          omega
  · have hout : ∃ r ∈ g.runs, ¬ region.Contains a r.start r.data.length := by
      simpa using hcontains
    obtain ⟨e, c, hstore⟩ := exec_storeRuns_fault hbacked hfew hdata hout
    refine ⟨e, c, fun isClean => ?_⟩
    rw [collect_eq]
    exact exec_bind_error hstore

end Workspace

/-! ### Programs -/

/-- No diagnostic of a list is worse than the worst one. -/
theorem Diagnostic.isError_worst {diagnostics : List Diagnostic}
    {d : Diagnostic} (hd : d ∈ diagnostics)
    (herror : d.severity.isError = true) :
    (Diagnostic.worst diagnostics).isError = true := by
  have hmax : ∀ s t : Severity,
      (s.max t).isError = (s.isError || t.isError) := by
    intro s t
    cases s <;> cases t <;> rfl
  suffices hfold : ∀ (diagnostics : List Diagnostic) (s : Severity),
      (s.isError = true ∨ ∃ d ∈ diagnostics, d.severity.isError = true) →
      (diagnostics.foldl (fun s d => s.max d.severity) s).isError = true from
    hfold diagnostics .none (Or.inr ⟨d, hd, herror⟩)
  intro diagnostics
  induction diagnostics with
  | nil =>
      intro s hs
      simpa using hs
  | cons first rest ih =>
      intro s hs
      apply ih
      rw [hmax, Bool.or_eq_true]
      rcases hs with hs | ⟨d, hd, herror⟩
      · exact Or.inl (Or.inl hs)
      · rcases List.mem_cons.mp hd with rfl | hd
        · exact Or.inl (Or.inr herror)
        · exact Or.inr ⟨d, hd, herror⟩

/-- The records of a program with their code, and what was known behind the last
one. -/
def Program.generated (p : Program) : List Record × Generation :=
  (Generation.new p).run p.records

/-- A program whose code can be collected in a region of its size. -/
def Program.Contained (p : Program) : Prop :=
  p.generated.2.Contained p.layout.symbols.size

/-- The assembly of a program. -/
structure Assembly.Made (options : Options) (p : Program)
    (a : Assembly) : Prop where
  records : a.records = p.generated.1
  literals : a.literals = p.layout.literals
  table : a.symbols = p.generated.2.symbols
  clean : ∀ m, a.module? = some m →
    ∀ d ∈ p.generated.2.diagnostics, d.severity.isError = false
  symbols : ∀ m, a.module? = some m →
    m.symbols = Deck.symbolsOf options p.layout.modes p.generated.2.symbols
  text : ∀ m, a.module? = some m → Deck.Text.Collects p.generated.2.runs m.text
  relocations : ∀ m, a.module? = some m →
    m.relocations = p.generated.2.relocations
  ending : ∀ m, a.module? = some m → ∃ identifications,
    m.ending = { p.generated.2.ending with identifications }
  deck : a.deck? = a.module?.map (·.emit)

namespace Workspace

variable {w : Workspace} {p : Program}

/-- The storage of a workspace is in order. -/
structure Sound (w : Workspace) : Prop where
  arena : w.arena.Sound
  pageSize : w.arena.pageSize = 4096
  region : ∀ region, w.region? = some region → region.Backed w.arena

/-- The runs of a program have octets, and not too many. -/
theorem runs_generated (hready : ∀ r ∈ p.records, Generation.Ready r) :
    ∀ run ∈ p.generated.2.runs, run.data ≠ [] ∧ run.data.length < 2 ^ 63 := by
  obtain ⟨hrecords, hadds⟩ := Generation.run_spec (Generation.new p) hready
  intro run hrun
  have hruns : p.generated.2.runs = p.generated.1.filterMap Record.write? :=
    hadds.runs
  rw [hruns] at hrun
  obtain ⟨r', hr', hwrite⟩ := List.mem_filterMap.mp hrun
  obtain ⟨r, -, hgenerated⟩ := hrecords r' hr'
  unfold Record.write? at hwrite
  split at hwrite
  · rename_i data hobject
    split at hwrite
    · rename_i hsome
      obtain rfl := Option.some.inj hwrite
      have hlength := hgenerated.length data hobject
      have hbound := r.length.toInt_lt
      refine ⟨hsome.2, ?_⟩
      show data.length < 2 ^ 63
      omega
    · simp at hwrite
  · simp at hwrite

/-- A sound workspace has room for a region of any size, as far as its pages can
be counted. -/
theorem Sound.exec_new (hw : w.Sound) (size : Int64) :
    ∃ region b, exec (Region.new size) w.arena = (.ok region, b) ∧ b.Sound ∧
      b.pageSize = 4096 ∧ region.Backed b ∧ region.size = size ∧
      region.pages.length = Region.pageCount 4096 region.size := by
  obtain ⟨region, b, hnew, hsound, hpage, hbacked, hsize, hpages, -⟩ :=
    Region.exec_new hw.arena size
  rw [hw.pageSize, ← hsize] at hpages
  exact ⟨region, b, hnew, hsound, hpage.trans hw.pageSize, hbacked, hsize,
    hpages⟩

/-- **A program whose code can be collected has an assembly.** -/
theorem finish_ok (hw : w.Sound) (today : Bytes)
    (hready : ∀ r ∈ p.records, Generation.Ready r) (h : p.Contained) :
    ∃ a w', w.finish today p = (.ok a, w') ∧ w'.Sound ∧ w'.options = w.options ∧
      a.Made w.options p := by
  have hdata := runs_generated hready
  obtain ⟨region, b, hnew, hbsound, hbsize, hbacked, hsize, hpages⟩ :=
    hw.exec_new p.layout.symbols.size
  rw [finish_eq, hnew]
  have hrun : (Generation.new p).run p.records =
      (p.generated.1, p.generated.2) := rfl
  rw [hrun]
  simp only
  generalize hclean :
    (!(Diagnostic.worst (sortByKey (fun d : Diagnostic => (d.cursor.line : Int))
    (p.generated.2.checkEntries p.layout.entryCursors).diagnostics)).isError) =
      isClean
  have hcontained : (p.generated.2.checkEntries p.layout.entryCursors).Contained
      region.size :=
    hsize ▸ ⟨h.unbroken, h.inside, h.paged⟩
  obtain ⟨texts, a', hexec, hcollects⟩ :=
    exec_collect_ok hbacked hbsize hpages hcontained
      (fun r hr => (hdata r hr).1) isClean
  obtain ⟨hsound, hpage, hbacked'⟩ := sound_collect hbsound hbacked
    (p.generated.2.checkEntries p.layout.entryCursors) isClean
  rw [hexec] at hsound hpage hbacked' ⊢
  refine ⟨_, _, rfl, ⟨hsound, hpage.trans hbsize, ?_⟩, rfl, ?_⟩
  · intro other hother
    obtain rfl := Option.some.inj hother
    exact hbacked'
  · cases isClean with
    | false =>
        exact ⟨rfl, rfl, rfl, by simp, by simp, by simp, by simp, by simp, rfl⟩
    | true =>
        refine ⟨rfl, rfl, rfl, ?_, ?_, ?_, ?_, ?_, rfl⟩
        · intro m _ d hd
          have hmem : d ∈
              sortByKey (fun d : Diagnostic => (d.cursor.line : Int))
              (p.generated.2.checkEntries
                p.layout.entryCursors).diagnostics := by
            rw [(sortByKey_perm _ _).mem_iff]
            exact List.mem_append_left _ hd
          cases herror : d.severity.isError with
          | false => rfl
          | true =>
              rw [Diagnostic.isError_worst hmem herror] at hclean
              simp at hclean
        · intro m hm
          obtain rfl := Option.some.inj hm
          rfl
        · intro m hm
          obtain rfl := Option.some.inj hm
          exact hcollects rfl
        · intro m hm
          obtain rfl := Option.some.inj hm
          rfl
        · intro m hm
          obtain rfl := Option.some.inj hm
          exact ⟨_, rfl⟩

/-- **A program whose code cannot be collected ends in a fault.** -/
theorem finish_fault (hw : w.Sound) (today : Bytes)
    (hready : ∀ r ∈ p.records, Generation.Ready r) (h : ¬ p.Contained) :
    ∃ e w', w.finish today p = (.error (.fault e), w') ∧ w'.Sound ∧
      w'.options = w.options := by
  have hdata := runs_generated hready
  obtain ⟨region, b, hnew, hbsound, hbsize, hbacked, hsize, hpages⟩ :=
    hw.exec_new p.layout.symbols.size
  rw [finish_eq, hnew]
  have hrun : (Generation.new p).run p.records =
      (p.generated.1, p.generated.2) := rfl
  rw [hrun]
  simp only
  generalize (!(Diagnostic.worst
    (sortByKey (fun d : Diagnostic => (d.cursor.line : Int))
    (p.generated.2.checkEntries p.layout.entryCursors).diagnostics)).isError) =
      isClean
  have hcontained : ¬ (p.generated.2.checkEntries
      p.layout.entryCursors).Contained region.size := by
    rw [hsize]
    exact fun hc => h ⟨hc.unbroken, hc.inside, hc.paged⟩
  obtain ⟨e, a', hexec⟩ :=
    exec_collect_fault hbacked hbsize hpages hcontained hdata
  obtain ⟨hsound, hpage, hbacked'⟩ := sound_collect hbsound hbacked
    (p.generated.2.checkEntries p.layout.entryCursors) isClean
  rw [hexec isClean] at hsound hpage hbacked' ⊢
  refine ⟨e, _, rfl, ⟨hsound, hpage.trans hbsize, fun other hother => ?_⟩, rfl⟩
  obtain rfl := Option.some.inj hother
  exact hbacked'

/-- A new workspace is sound. -/
theorem sound_new (options : Options) :
    (Workspace.mk options (Arena.ofPageSize 4096) none).Sound :=
  ⟨⟨Nat.zero_lt_succ
    4095, by simp [Arena.ofPageSize], by simp [Arena.ofPageSize],
    by simp [Arena.ofPageSize]⟩, rfl, by simp⟩

/-- A workspace is sound when it is reset. -/
theorem sound_reset (hw : w.Sound) :
    w.reset.Sound ∧ w.reset.options = w.options := by
  unfold reset
  split
  · exact ⟨hw, rfl⟩
  · rename_i region hregion
    obtain ⟨a', hexec, hsound, hsize⟩ :=
      Region.exec_release hw.arena (hw.region region hregion)
    have hrun : StateT.run (ExceptT.run region.release) w.arena =
        (.ok ⟨[], 0⟩, a') := hexec
    rw [hrun]
    exact ⟨⟨hsound, hsize.trans hw.pageSize, by simp⟩, rfl⟩

end Workspace

end System370
