import System370.Proofs.Assembling

/-!
# Assemblies one after the other

A workspace is used again and again: its arena keeps the pages of earlier
assemblies with whatever was stored on them, and after a fault even the region
stays.  Nothing of this can be seen in later assemblies.

* `Workspace.finish_congr`: the end of an assembly does not depend on the
  storage, as long as the storage is in order;
* `Workspace.run_congr`: nor does an assembly;
* `Workspace.runAll_eq_map`: a sequence of assemblies gives what each of them
  gives alone.
-/

namespace System370

namespace Workspace

variable {w w' : Workspace}

/-- **The end of an assembly does not depend on the storage.** -/
theorem finish_congr (hw : w.Sound) (hw' : w'.Sound)
    (hoptions : w'.options = w.options) (today : Bytes) (p : Program) :
    (w'.finish today p).1 = (w.finish today p).1 := by
  have hpage : w'.arena.pageSize = w.arena.pageSize :=
    hw'.pageSize.trans hw.pageSize.symm
  obtain ⟨region, region', b, b', hnew, hnew', halike, -, -⟩ :=
    Region.alike_new hw.arena hw'.arena hpage p.layout.symbols.size
  rw [finish_eq, finish_eq, hnew, hnew', hoptions]
  simp only
  generalize ((Generation.new p).run p.records).2.checkEntries
    p.layout.entryCursors = g
  generalize (!(Diagnostic.worst
    (sortByKey (fun d : Diagnostic => (d.cursor.line : Int))
    g.diagnostics)).isError) = isClean
  obtain ⟨hsame, -⟩ :=
    blind_collect halike.size halike.count g isClean b b' halike
  generalize StorageStep.exec (collect region g isClean) b = out at hsame
  generalize StorageStep.exec (collect region' g isClean) b' = out' at hsame
  obtain ⟨outcome, c⟩ := out
  obtain ⟨outcome', c'⟩ := out'
  obtain rfl : outcome = outcome' := hsame
  cases outcome with
  | error e => rfl
  | ok texts => rfl

/-- **An assembly does not depend on the storage**, and so not on what was
assembled before. -/
theorem run_congr (hw : w.Sound) (hw' : w'.Sound)
    (hoptions : w'.options = w.options) (today source : Bytes) :
    (w'.run today source).1 = (w.run today source).1 := by
  obtain ⟨hsound, hreset⟩ := sound_reset hw
  obtain ⟨hsound', hreset'⟩ := sound_reset hw'
  have hsame : w'.reset.options = w.reset.options :=
    hreset'.trans (hoptions.trans hreset.symm)
  unfold run
  simp only
  cases Statement.readAll source with
  | error e => rfl
  | ok statements =>
      simp only [hsame]
      split
      · rfl
      · cases overflow? w.reset.options
            (Program.ofStatements w.reset.options statements).layout.symbols
              with
        | some fatal => rfl
        | none => exact finish_congr hsound hsound' hsame today _

/-- **A sequence of assemblies in one workspace** gives for every source what
the source gives on its own, whether the assemblies before ended in a deck, in
errors, in an overflow or in a fault.  The clock may show another day for each
of them. -/
theorem runAll_eq_map (options : Options) (sources : List Bytes)
    (clock : Nat → Bytes) :
    (Workspace.mk options (Arena.ofPageSize 4096) none).runAll sources clock =
      sources.mapIdx fun i source => assemble options source (clock i) := by
  suffices hall : ∀ w : Workspace, w.Sound → w.options = options →
      w.runAll sources clock =
        sources.mapIdx fun i source => assemble options source (clock i) from
    hall _ (sound_new options) rfl
  induction sources generalizing clock with
  | nil => exact fun _ _ _ => rfl
  | cons source rest ih =>
      intro w hw hoptions
      obtain ⟨hsound, hsame⟩ := sound_run hw (clock 0) source
      have hfirst : (w.run (clock 0) source).1 =
          assemble options source (clock 0) :=
        run_congr (sound_new options) hw hoptions (clock 0) source
      have hothers :=
        ih (fun i => clock (i + 1)) (w.run (clock 0) source).2 hsound
          (hsame.trans hoptions)
      rw [List.mapIdx_cons, ← hfirst, ← hothers]
      rfl

end Workspace

end System370
