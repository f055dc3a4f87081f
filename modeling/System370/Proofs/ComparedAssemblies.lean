import System370.Proofs.Assembling
import System370.Proofs.ComparedGenerations
import System370.Proofs.Sorting

/-!
# Two assemblies side by side

Sources whose programs a comparison does not tell apart end in the same failure,
or in assemblies with the same symbols, sizes and, as far as they have one, the
same module.  Whether there is a module depends on the diagnostics alone, and
how far these agree is up to the comparison.

* `Workspace.finish_alike` compares the ends of two assemblies;
* `assemble_alike` compares two assemblies as a whole.
-/

namespace System370

open StorageStep

variable {c : Comparison}

/-- Two assemblies that a comparison does not tell apart.  Each has the one
module, unless its own diagnostics forbid it. -/
structure Assembly.Alike (c : Comparison) (a a' : Assembly) : Prop where
  symbols : a.symbols.Alike c.line a'.symbols
  size : a'.size = a.size
  deckId : a'.deckId = a.deckId
  diagnostics : ∃ ds ds', c.diagnostics ds ds' ∧ a.diagnostics.Perm ds ∧
    a'.diagnostics.Perm ds'
  modules : ∃ m, a.module? = (if a.severity.isError then none else some m) ∧
    a'.module? = (if a'.severity.isError then none else some m)
  deck : a.deck? = a.module?.map (·.emit)
  deck' : a'.deck? = a'.module?.map (·.emit)

/-- Two outcomes that a comparison does not tell apart. -/
inductive Outcome.Alike (c : Comparison) :
    Except Fatal Assembly → Except Fatal Assembly → Prop
  | error (e : Fatal) : Outcome.Alike c (.error e) (.error e)
  | ok {a a' : Assembly} : a.Alike c a' → Outcome.Alike c (.ok a) (.ok a')

namespace Deck

/-- The symbols of a module have no lines. -/
theorem symbolsOf_mapLines (φ : Int → Int) (options : Options)
    (modes : List (Bytes × Modes)) (t : SymbolTable) :
    symbolsOf options modes (t.mapLines φ) = symbolsOf options modes t := by
  have hentry : ∀ e : EntryName, entrySymbol? (t.mapLines φ) (e.mapLine φ) =
      entrySymbol? t e := by
    intro e
    unfold entrySymbol?
    rw [SymbolTable.definition?_mapLines,
      show (e.mapLine φ).name = e.name from rfl]
    cases t.definition? e.name <;> rfl
  unfold symbolsOf
  congr 1
  · congr 1
    · show (t.sections.map (·.mapLine φ)).map _ = _
      rw [List.map_map]
      rfl
    · show (t.externals.map (·.mapLine φ)).filterMap _ = _
      rw [List.filterMap_map]
      rfl
  · show (t.entries.map (·.mapLine φ)).filterMap _ = _
    rw [List.filterMap_map]
    exact List.filterMap_congr fun e _ => hentry e

end Deck

namespace Workspace

/-- The texts of a module are a matter of what was written and whether it
failed. -/
theorem collect_congr (region : Region) {g g' : Generation}
    (hruns : g'.runs = g.runs) (hfault : g'.fault = g.fault) (isClean : Bool) :
    collect region g' isClean = collect region g isClean := by
  rw [collect_eq, collect_eq, hruns, hfault]

variable {p p' : Program}

/-- Programs that are alike have one module. -/
theorem moduleOf_alike (options : Options) (today : Bytes) {l l' : Layout}
    (hl : l.Alike c l')
    {g g' : Generation} (hg : g.Alike c g') (texts : List Deck.Text) :
    moduleOf options today l' g' texts = moduleOf options today l g texts := by
  have hsymbols : Deck.symbolsOf options l.modes g'.symbols =
      Deck.symbolsOf options l.modes g.symbols := by
    rw [← Deck.symbolsOf_mapLines c.line, hg.symbols, Deck.symbolsOf_mapLines]
  simp only [moduleOf, hl.deckId, hl.modes, hsymbols, hg.relocations, hg.ending]

/-- Code is collected whether texts are read back or not, or it is not. -/
theorem exec_collect_cases {region : Region} {b : Arena} {g : Generation}
    (hbacked : region.Backed b) (hpage : b.pageSize = 4096)
    (hpages : region.pages.length = Region.pageCount 4096 region.size)
    (hdata : ∀ r ∈ g.runs, r.data ≠ [] ∧ r.data.length < 2 ^ 63) :
    (∃ e b', ∀ isClean, exec (collect region g isClean) b = (.error e, b')) ∨
      ∃ texts, ∀ isClean, ∃ ts b',
      exec (collect region g isClean) b = (.ok ts, b') ∧
        (isClean = true → ts = texts) := by
  by_cases hcontained : g.Contained region.size
  · have hall :=
      exec_collect_ok hbacked hpage hpages hcontained fun r hr => (hdata r hr).1
    obtain ⟨texts, b', hexec, -⟩ := hall true
    refine Or.inr ⟨texts, fun isClean => ?_⟩
    cases isClean with
    | true => exact ⟨texts, b', hexec, fun _ => rfl⟩
    | false =>
        obtain ⟨ts, b'', hexec', -⟩ := hall false
        exact ⟨ts, b'', hexec', by simp⟩
  · exact Or.inl (exec_collect_fault hbacked hpage hpages hcontained hdata)

/-- **The ends of two assemblies.** -/
theorem finish_alike {w : Workspace} (hw : w.Sound) (today : Bytes)
    (h : p.Alike c p') (hready : ∀ r ∈ p.records, Generation.Ready r) :
    Outcome.Alike c (w.finish today p).1 (w.finish today p').1 := by
  have hdata := runs_generated hready
  have hsame : p'.layout.symbols.size = p.layout.symbols.size := by
    rw [← SymbolTable.size_mapLines c.line, h.layout.symbols,
      SymbolTable.size_mapLines]
  obtain ⟨region, b, hnew, -, hbsize, hbacked, hsize, hpages, -⟩ :=
    Region.exec_new hw.arena p.layout.symbols.size
  rw [hw.pageSize, ← hsize] at hpages
  rw [hw.pageSize] at hbsize
  obtain ⟨-, hran⟩ := (Generation.Alike.new h).run h.records
  have hg := hran.checkEntries h.layout.entryCursors
  rw [finish_eq, finish_eq, hsame, hnew]
  simp only
  have hdata' : ∀ r ∈ (((Generation.new p).run p.records).2.checkEntries
    p.layout.entryCursors).runs, r.data ≠ [] ∧ r.data.length < 2 ^ 63 := hdata
  generalize ((Generation.new p).run p.records).2.checkEntries
    p.layout.entryCursors = g at hg hdata'
  generalize ((Generation.new p').run p'.records).2.checkEntries
    p'.layout.entryCursors = g' at hg
  simp only [collect_congr region hg.runs hg.fault]
  rcases exec_collect_cases hbacked hbsize hpages hdata' with
    ⟨e, b', hfault⟩ | ⟨texts, hok⟩
  · rw [hfault, hfault]
    exact .error _
  · generalize hclean : (!(Diagnostic.worst
      (sortByKey (fun d : Diagnostic => (d.cursor.line : Int))
      g.diagnostics)).isError) = isClean
    generalize hclean' : (!(Diagnostic.worst
      (sortByKey (fun d : Diagnostic => (d.cursor.line : Int))
      g'.diagnostics)).isError) = isClean'
    obtain ⟨ts, b', hexec, hts⟩ := hok isClean
    obtain ⟨ts', b'', hexec', hts'⟩ := hok isClean'
    rw [hexec, hexec']
    refine .ok ⟨hg.symbols, rfl, h.layout.deckId,
      ⟨_, _, hg.diagnostics, sortByKey_perm _ _, sortByKey_perm _ _⟩,
      ⟨moduleOf w.options today p.layout g texts, ?_, ?_⟩, rfl, rfl⟩
    · simp only [Assembly.severity]
      cases isClean with
      | true => simp_all
      | false => simp_all
    · simp only [Assembly.severity]
      cases isClean' with
      | true => simp_all [moduleOf_alike w.options today h.layout hg]
      | false => simp_all

/-- So is the limit of a module no matter of lines. -/
theorem overflow?_mapLines (φ : Int → Int) (options : Options)
    (t : SymbolTable) :
    overflow? options (t.mapLines φ) = overflow? options t := by
  have hfind : ((t.mapLines φ).dummies.find? (options.regionSize < ·.length)) =
      (t.dummies.find? (options.regionSize < ·.length)).map (·.mapLine φ) :=
    SymbolTable.find?_mapLines (f := Section.mapLine φ) (fun _ => rfl) _
  unfold overflow?
  rw [SymbolTable.size_mapLines, hfind, Option.map_map]
  rfl

end Workspace

/-- **Assemblies.**  Sources whose programs cannot be told apart have outcomes
that cannot be told apart. -/
theorem assemble_alike {options : Options} {source source' : Bytes}
    (today : Bytes) {statements statements' : List Statement}
    (hread : Statement.readAll source = .ok statements)
    (hread' : Statement.readAll source' = .ok statements')
    (h : (Program.ofStatements options statements).Alike c
      (Program.ofStatements options statements')) :
    Outcome.Alike c (assemble options source today)
      (assemble options source' today) := by
  have hready : ∀ r ∈ (Program.ofStatements options statements).records,
      Generation.Ready r :=
    fun r hr => (Program.settled_ofStatements options statements r hr).ready
  have hoverflow := Workspace.overflow?_mapLines c.line options
    (Program.ofStatements options statements').layout.symbols
  rw [h.layout.symbols, Workspace.overflow?_mapLines] at hoverflow
  have hsound := Workspace.sound_new options
  unfold assemble
  cases hends : (Program.ofStatements options statements).layout.endless with
  | true =>
      rw [Workspace.run_endless hsound today hread hends, Workspace.run_endless
          hsound today hread' (h.layout.endless.trans hends)]
      exact .error _
  | false =>
      have hends' := h.layout.endless.trans hends
      cases hover : Workspace.overflow? options
          (Program.ofStatements options statements).layout.symbols with
      | some fatal =>
          rw [Workspace.run_overflow hsound today hread hends hover,
            Workspace.run_overflow hsound today hread' hends'
              (hoverflow ▸ hover)]
          exact .error _
      | none =>
          rw [Workspace.run_finish hsound today hread hends hover,
            Workspace.run_finish hsound today hread' hends' (hoverflow ▸ hover)]
          exact Workspace.finish_alike hsound today h hready

end System370
