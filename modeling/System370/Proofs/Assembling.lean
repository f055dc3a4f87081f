import System370.Proofs.AddressConstants
import System370.Proofs.EndlessConversions

/-!
# How an assembly ends

An assembly has a result, or the source cannot be read, or the program is too
big for the region, or there is a fault.  This file says which of them it is, in
a workspace that any sources were assembled in before.

A fault comes from an address that wrapped.  `Program.Contained` is the exact
condition for a result, and `Record.Fits` its part about single records: the
code of a record has to hold its constants.  Where no location wraps, all of it
is fulfilled (`Program.InRange.contained`).

* `Workspace.run_spec`: how one assembly ends;
* `Workspace.sound_after`: the storage of a workspace stays in order.
-/

namespace System370

/-- Whether the code of a record holds its constants. -/
def Record.Fits (pool : LiteralPool) (r : Record) : Prop :=
  0 ≤ r.length.toInt ∧ ∀ c ∈ r.constants pool,
    0 ≤ c.2.toInt ∧ c.2.toInt ≤ r.length.toInt

/-- Whether a record gets code whose length was laid out beforehand. -/
def Record.isMeasured (r : Record) : Bool :=
  match r.body, r.directive with
  | .storage _, some .dc => true
  | .pool _, _ => true
  | .located, some .cnop => true
  | _, _ => false

namespace Generate

/-- Constants have to stand inside the code that they make up. -/
theorem assembleParts_ok_iff {length : Int64} {parts : List (Int64 × Bytes)}
    {constants : List (Constant.Descriptor × Int64)}
    (h : parts.map (·.1) = constants.map (·.2)) :
    (∃ data, assembleParts length parts = .ok data) ↔
      0 ≤ length.toInt ∧ ∀ c ∈ constants,
      0 ≤ c.2.toInt ∧ c.2.toInt ≤ length.toInt := by
  have hoffsets :
      (∀ part ∈ parts, 0 ≤ part.1.toInt ∧ part.1.toInt ≤ length.toInt) ↔
      ∀ c ∈ constants, 0 ≤ c.2.toInt ∧ c.2.toInt ≤ length.toInt := by
    constructor
    · intro hparts c hc
      obtain ⟨part, hpart, heq⟩ :=
        List.mem_map.mp (h ▸ List.mem_map.mpr ⟨c, hc, rfl⟩)
      exact heq ▸ hparts part hpart
    · intro hconstants part hpart
      obtain ⟨c, hc, heq⟩ :=
        List.mem_map.mp (h ▸ List.mem_map.mpr ⟨part, hpart, rfl⟩)
      exact heq ▸ hconstants c hc
  rw [← hoffsets]
  unfold assembleParts
  split
  · rename_i hbad
    constructor
    · rintro ⟨data, hdata⟩
      simp at hdata
    · rintro ⟨hlength, hall⟩
      rcases hbad with hbad | hbad
      · rw [Int64.lt_iff_toInt_lt, Int64.toInt_zero] at hbad
        omega
      · obtain ⟨part, hpart, hout⟩ := List.any_eq_true.mp hbad
        have hin := hall part hpart
        simp only [Int64.lt_iff_toInt_lt, Int64.toInt_zero,
          decide_eq_true_eq] at hout
        omega
  · rename_i hgood
    refine ⟨fun _ => ⟨?_, fun part hpart => ?_⟩, fun _ => ⟨_, rfl⟩⟩
    · have hlength : ¬ length < 0 := fun hlt => hgood (Or.inl hlt)
      rw [Int64.lt_iff_toInt_lt, Int64.toInt_zero] at hlength
      omega
    · have hoffset : ¬ (part.1 < 0 ∨ length < part.1) := fun hout =>
        hgood (Or.inr (List.any_eq_true.mpr ⟨part, hpart, by simpa using hout⟩))
      simp only [Int64.lt_iff_toInt_lt, Int64.toInt_zero] at hoffset
      omega

/-- The offsets of parts do not depend on what they generate. -/
theorem map_fst_mapM {ξ : Type} (f : ξ → Generate (Int64 × Bytes))
    (offset : ξ → Int64) {xs : List ξ}
    (hf : ∀ x ∈ xs, ∀ r g, (exec (f x) r g).1.1 = offset x) (r : Record)
    (g : Generation) : (exec (xs.mapM f) r g).1.map (·.1) = xs.map offset := by
  induction xs generalizing r g with
  | nil => rfl
  | cons x rest ih =>
      rw [List.mapM_cons, exec_bind, exec_bind, exec_pure, List.map_cons,
        hf x List.mem_cons_self,
        ih fun y hy => hf y (List.mem_cons_of_mem _ hy)]
      rfl

/-- The parts of a storage statement stand where its constants do. -/
theorem map_fst_storageParts (parts : List (Constant.Descriptor × Int64))
    (r : Record) (g : Generation) :
    (exec (storageParts parts) r g).1.map (·.1) = parts.map (·.2) := by
  have hmap : parts.zipIdx.map (fun x => x.1.2) = parts.map (·.2) := by
    have hfst : parts.zipIdx.map (·.1) = parts := List.zipIdx_map_fst 0 parts
    calc parts.zipIdx.map (fun x => x.1.2)
        = (parts.zipIdx.map (·.1)).map (·.2) := by rw [List.map_map]; rfl
      _ = parts.map (·.2) := by rw [hfst]
  unfold storageParts
  rw [exec_bind, exec_record, ← hmap]
  refine map_fst_mapM _ _ (fun x _ r' g' => ?_) r g
  rw [exec_bind, exec_pure]

/-- So do the parts of a pool. -/
theorem map_fst_poolParts {r : Record} {g : Generation} {ids : List Nat}
    (hbody : r.body = .pool ids)
    (hpooled : ∀ id ∈ ids, ∃ literal, g.literals.literals[id]? = some literal ∧
      literal.place.isSome ∧ literal.descriptor.isSome) :
    (exec (poolParts ids) r g).1.map (·.1) =
      (r.constants g.literals).map (·.2) := by
  unfold poolParts
  rw [exec_bind, exec_record, exec_bind, exec_generation,
    Record.constants_pool hbody hpooled, List.map_map]
  refine map_fst_mapM _ _ (fun literal hliteral r' g' => ?_) r g
  obtain ⟨d, hd⟩ := LiteralPool.described hpooled literal hliteral
  simp only [hd]
  rw [exec_bind, exec_pure]
  rfl

/-- Emission has no fault of its own. -/
theorem fault_emit (data : Bytes) (r : Record) (g : Generation) :
    (exec (emit data) r g).2.2.fault = g.fault := by
  rw [exec_emit]
  split <;> rfl

/-- Parts are emitted without a fault if they fit into the length of the
record. -/
theorem fault_emitParts (parts : List (Int64 × Bytes)) {r : Record}
    {g : Generation} (hfault : g.fault = none) :
    (exec (emitParts parts) r g).2.2.fault = none ↔
    ∃ data, assembleParts r.length parts = .ok data := by
  unfold emitParts
  rw [exec_bind, exec_record]
  simp only
  cases assembleParts r.length parts with
  | error e => simp
  | ok data => simp [fault_emit, hfault]

/-- A step with the constants of a record ends in a fault if they do not fit. -/
theorem fault_parts {x : Generate (List (Int64 × Bytes))} (hx : Steady x)
    {r : Record} {g : Generation} (hfault : g.fault = none)
    (hoffsets : (exec x r g).1.map (·.1) = (r.constants g.literals).map (·.2)) :
    (exec (x >>= emitParts) r g).2.2.fault = none ↔ r.Fits g.literals := by
  obtain ⟨more, hkept⟩ := hx r g
  have hlength : (exec x r g).2.1.length = r.length := by rw [hkept.record]
  rw [exec_bind, fault_emitParts _ (hkept.fault.trans hfault), hlength,
    assembleParts_ok_iff hoffsets]
  rfl

/-- **Generating a record ends in a fault** if its code does not hold its
constants. -/
theorem fault_generate {t : SymbolTable} {r : Record}
    {g : Generation} (h : r.Settled t g.literals) (hfault : g.fault = none) :
    (exec generate r g).2.2.fault = none ↔
      (r.isMeasured = true → r.Fits g.literals) := by
  have hmild : ∀ {x : Generate Unit}, Mild x → r.isMeasured = false →
      ((exec x r g).2.2.fault = none ↔
        (r.isMeasured = true → r.Fits g.literals)) := by
    intro x hx hmeasured
    rw [(hx r g).fault, hfault]
    simp [hmeasured]
  unfold generate
  rw [exec_bind, exec_record]
  simp only
  split
  · rename_i op bound hbody
    rw [exec_bind, fault_emit, (quiet_instructionOctets op r g).fault, hfault]
    simp [Record.isMeasured, hbody]
  · rename_i parts hbody hdirective
    have hmeasured : r.isMeasured = true := by
      simp [Record.isMeasured, hbody, hdirective]
    rw [fault_parts (steady_storageParts parts) hfault]
    · simp [hmeasured]
    · rw [map_fst_storageParts]
      simp [Record.constants, hbody]
  · rename_i ids hbody
    have hmeasured : r.isMeasured = true := by simp [Record.isMeasured, hbody]
    rw [fault_parts (steady_poolParts ids) hfault
      (map_fst_poolParts hbody (h.pooled ids hbody))]
    simp [hmeasured]
  · rename_i value waiting hbody
    exact hmild (quiet_forM fun _ => quiet_discard (quiet_evaluate _ _)).mild
      (by simp [Record.isMeasured, hbody])
  · rename_i hbody hdirective
    exact hmild mild_useBases (by simp [Record.isMeasured, hbody, hdirective])
  · rename_i hbody hdirective
    exact hmild mild_dropBases (by simp [Record.isMeasured, hbody, hdirective])
  · rename_i hbody hdirective
    exact hmild mild_endProgram (by simp [Record.isMeasured, hbody, hdirective])
  · rename_i hbody hdirective
    have hmeasured : r.isMeasured = true := by
      simp [Record.isMeasured, hbody, hdirective]
    have hconstants : r.constants g.literals = [] := by
      simp [Record.constants, hbody]
    split
    · rename_i hnegative
      rw [Int64.lt_iff_toInt_lt, Int64.toInt_zero] at hnegative
      simp only [exec_fail, hmeasured, Record.Fits, hconstants]
      simp
      omega
    · rename_i hnonneg
      rw [Int64.lt_iff_toInt_lt, Int64.toInt_zero] at hnonneg
      rw [fault_emit, hfault]
      simp only [hmeasured, Record.Fits, hconstants]
      simp
      omega
  · refine hmild (quiet_pure _).mild ?_
    unfold Record.isMeasured
    split <;> simp_all

end Generate

namespace Generation

/-- **A generation ends in a fault** if the code of one of its records does not
hold the constants of the record. -/
theorem fault_run {t : SymbolTable} {records : List Record} {g : Generation}
    (h : ∀ r ∈ records, r.Settled t g.literals) (hfault : g.fault = none) :
    (g.run records).2.fault = none ↔
      ∀ r ∈ records, r.errored = false → r.isMeasured = true →
        r.Fits g.literals := by
  induction records generalizing g with
  | nil => simp [run, hfault]
  | cons r rest ih =>
      have hfirst := h r List.mem_cons_self
      obtain ⟨-, hadds⟩ := step_spec g hfirst.ready
      have hstep : (g.step r).2.fault = none ↔
          (r.errored = false → r.isMeasured = true → r.Fits g.literals) := by
        unfold step
        split
        · rename_i hskip
          simp only [hfault, Option.isSome_none, Bool.false_eq_true,
            or_false] at hskip
          simp [hfault, hskip]
        · rename_i hrun
          have herrored : r.errored = false := by
            cases herrored : r.errored with
            | false => rfl
            | true => exact absurd (Or.inl herrored) hrun
          have hgenerate := Generate.fault_generate hfirst hfault
          simp only [herrored, forall_const]
          exact hgenerate
      cases hsecond : (g.step r).2.fault with
      | some e =>
          have hend : (g.run (r :: rest)).2.fault = some e := by
            show ((g.step r).2.run rest).2.fault = some e
            rw [run_of_fault (by simp [hsecond]), hsecond]
          rw [hend]
          simp only [reduceCtorEq, false_iff]
          intro hall
          rw [hstep.mpr (hall r List.mem_cons_self)] at hsecond
          simp at hsecond
      | none =>
          show ((g.step r).2.run rest).2.fault = none ↔ _
          rw [ih (fun r' hr' => hadds.literals ▸
            h r' (List.mem_cons_of_mem _ hr')) hsecond, hadds.literals]
          simp only [List.mem_cons, forall_eq_or_imp]
          exact ⟨fun hall => ⟨hstep.mp hsecond, hall⟩, fun hall => hall.2⟩

end Generation

/-! ### Programs whose locations do not wrap -/

namespace Record

/-- The code of a record for a text, as a run. -/
theorem write?_eq_some_iff {r : Record} {run : Run} :
    r.write? = some run ↔ ∃ data,
    r.object = some data ∧ 0 < r.sectionId ∧ data ≠ [] ∧
      run = ⟨r.sectionId, r.loc, data⟩ := by
  unfold write?
  cases r.object with
  | none => simp
  | some data =>
      simp only [Option.ite_none_right_eq_some, Option.some.injEq]
      constructor
      · rintro ⟨⟨hpos, hdata⟩, rfl⟩
        exact ⟨data, rfl, hpos, hdata, rfl⟩
      · rintro ⟨_, rfl, hpos, hdata, rfl⟩
        exact ⟨⟨hpos, hdata⟩, rfl⟩

end Record

namespace Program

variable {p : Program}

/-- The runs of a program, by its records. -/
theorem runs_generated_eq (h : ∀ r ∈ p.records, Generation.Ready r) :
    p.generated.2.runs = p.generated.1.filterMap Record.write? :=
  (Generation.run_spec (Generation.new p) h).2.runs

/-- **Every run lies inside its section**, if no location wrapped. -/
theorem InRange.runs_inside (h : p.InRange) (hwf : p.layout.WellFormed)
    (hplaced : ∀ r ∈ p.records, r.Placed p.layout) :
    ∀ run ∈ p.normalize.generated.2.runs, 0 < run.sectionId ∧
      ∃ s, p.normalize.layout.symbols.section? run.sectionId = some s ∧
        s.base.toInt ≤ run.start.toInt ∧
        run.start.toInt + run.data.length ≤ s.base.toInt + s.length.toInt := by
  have hready : ∀ r ∈ p.normalize.records, Generation.Ready r :=
    fun r hr => (settled_records hwf hplaced r hr).ready
  intro run hrun
  rw [runs_generated_eq hready] at hrun
  obtain ⟨r', hr', hwrite⟩ := List.mem_filterMap.mp hrun
  obtain ⟨data, hobject, hpos, -, rfl⟩ := Record.write?_eq_some_iff.mp hwrite
  obtain ⟨r, hr, hgenerated⟩ :=
    (Generation.run_spec (Generation.new p.normalize) hready).1 r' hr'
  obtain ⟨r₀, hr₀, rfl⟩ := List.mem_map.mp hr
  have hsection : r'.sectionId = r₀.sectionId := by
    rw [hgenerated.place]
    rfl
  have hloc : r'.loc = (moveRecord p.normalize.layout.symbols r₀).loc := by
    rw [hgenerated.place]
    rfl
  have hlength : (data.length : Int) = r₀.length.toInt :=
    hgenerated.length data hobject
  obtain ⟨s, hs, hlow, hhigh⟩ :=
    h.inside hwf hr₀ (hplaced r₀ hr₀) (hsection ▸ hpos)
  refine ⟨hpos, s, ?_, ?_, ?_⟩
  · rw [hsection]
    exact hs
  · rw [hloc]
    exact hlow
  · show r'.loc.toInt + data.length ≤ _
    rw [hloc, hlength]
    exact hhigh

/-- **No record ends the generation in a fault**, if no location wrapped. -/
theorem InRange.unbroken (h : p.InRange)
    (hwf : p.layout.WellFormed) (hplaced : ∀ r ∈ p.records, r.Placed p.layout) :
    p.normalize.generated.2.fault = none := by
  refine (Generation.fault_run (settled_records hwf hplaced) rfl).mpr
    fun r hr _ hmeasured => ?_
  obtain ⟨r₀, hr₀, rfl⟩ := List.mem_map.mp hr
  refine ⟨(h.records r₀ hr₀).2.1, ?_⟩
  show ∀ c ∈ (moveRecord p.normalize.layout.symbols r₀).constants
    p.normalize.layout.literals, _
  rw [normalize_constants (hplaced r₀ hr₀)]
  by_cases hconstants : r₀.isConstants = true
  · exact h.constants_inside hr₀ (hplaced r₀ hr₀) hconstants
  · simp [Record.constants_eq_nil (Bool.eq_false_iff.mpr hconstants)]

/-- **The code of a program can be collected**, if no location wrapped. -/
theorem InRange.contained (h : p.InRange)
    (hwf : p.layout.WellFormed) (hplaced : ∀ r ∈ p.records, r.Placed p.layout)
    (hsize : p.normalize.layout.symbols.size.toInt ≤ 2 ^ 63 - 4096) :
    p.normalize.Contained := by
  refine ⟨h.unbroken hwf hplaced, fun run hrun => ?_, fun _ => hsize⟩
  obtain ⟨hpos, s, hs, hlow, hhigh⟩ := h.runs_inside hwf hplaced run hrun
  have hmem :=
    List.mem_of_getElem? (SymbolTable.Numbered.getElem?_of_section? hpos hs)
  have hbase := h.bases s hmem
  have hend := hwf.symbols.numbered.high_le_size h.bases hmem
  constructor
  · omega
  · exact Int.le_trans hhigh hend

end Program

/-! ### Assemblies that pass a check -/

/-- A source whose assembly passes a check. -/
theorem exists_assemble_of_any (options : Options) (source : Bytes)
    (check : List Statement → Assembly → Bool)
    (h : ((Statement.readAll source).toOption.any fun statements =>
      (assemble options source).toOption.any (check statements)) = true) :
    ∃ statements a, Statement.readAll source = .ok statements ∧
      assemble options source = .ok a ∧ check statements a = true := by
  obtain ⟨statements, hread, h⟩ := exists_ok_of_any h
  obtain ⟨a, hrun, h⟩ := exists_ok_of_any h
  exact ⟨statements, a, hread, hrun, h⟩

/-! ### The end of an assembly -/

/-- A program whose records hold their constants and whose code lies in a region
of its size, so that neither a location nor a number of pages wrapped on the
way. -/
structure Program.Storable (p : Program) : Prop where
  fits : ∀ r ∈ p.records, r.errored = false → r.isMeasured = true →
    r.Fits p.layout.literals
  inside : ∀ r ∈ p.generated.1, ∀ run, r.write? = some run →
    0 ≤ run.start.toInt ∧
      run.start.toInt + run.data.length ≤ p.layout.symbols.size.toInt
  paged : (∃ r ∈ p.generated.1, r.write?.isSome) →
    p.layout.symbols.size.toInt ≤ 2 ^ 63 - 4096

/-- The octets of a program can be stored if its constants stay within their
records. -/
theorem Program.storable_iff {p : Program}
    (h : ∀ r ∈ p.records, r.Settled p.layout.symbols p.layout.literals) :
    p.Storable ↔ p.Contained := by
  have hfault := Generation.fault_run (g := Generation.new p) h rfl
  have hruns := runs_generated_eq fun r hr => (h r hr).ready
  have hwrites : p.generated.2.runs ≠ [] ↔ ∃ r ∈ p.generated.1,
      r.write?.isSome := by
    rw [hruns, ne_eq, List.filterMap_eq_nil_iff]
    simp [Option.isSome_iff_ne_none]
  constructor
  · intro hp
    refine ⟨hfault.mpr hp.fits, fun run hrun => ?_,
      fun hsome => hp.paged (hwrites.mp hsome)⟩
    rw [hruns] at hrun
    obtain ⟨r, hr, hwrite⟩ := List.mem_filterMap.mp hrun
    exact hp.inside r hr run hwrite
  · intro hp
    refine ⟨hfault.mp hp.unbroken, fun r hr run hwrite => ?_,
      fun hsome => hp.paged (hwrites.mpr hsome)⟩
    refine hp.inside run ?_
    rw [hruns]
    exact List.mem_filterMap.mpr ⟨r, hr, hwrite⟩

namespace Workspace

variable {w : Workspace}

/-- A program that is too big for the region is refused as that, and for no
other reason. -/
theorem overflow?_cases {options : Options} {t : SymbolTable} {fatal : Fatal}
    (h : overflow? options t = some fatal) :
    ∃ required, fatal = .regionOverflow required options.regionSize := by
  unfold overflow? at h
  split at h
  · exact ⟨_, (Option.some.inj h).symm⟩
  · obtain ⟨s, -, rfl⟩ := Option.map_eq_some_iff.mp h
    exact ⟨_, rfl⟩

/-- A program that comes to an end and fits into the region is generated. -/
theorem run_finish (hw : w.Sound) (today : Bytes) {source : Bytes}
    {statements : List Statement}
    (hread : Statement.readAll source = .ok statements)
    (hends : (Program.ofStatements w.options statements).layout.endless = false)
    (hfits : overflow? w.options
      (Program.ofStatements w.options statements).layout.symbols = none) :
    w.run today source =
      w.reset.finish today (Program.ofStatements w.options statements) := by
  unfold run
  simp only [hread, (sound_reset hw).2, hends, hfits,
    Bool.false_eq_true, if_false]

/-- How an assembly ends, in a workspace whose storage is in order. -/
theorem run_spec (hw : w.Sound) (today : Bytes) {source : Bytes}
    {statements : List Statement}
    (hread : Statement.readAll source = .ok statements)
    (hends : (Program.ofStatements w.options statements).layout.endless = false)
    (hfits : overflow? w.options
      (Program.ofStatements w.options statements).layout.symbols = none) :
    ((Program.ofStatements w.options statements).Contained →
        ∃ a, (w.run today source).1 = .ok a ∧
          a.Made w.options (Program.ofStatements w.options statements)) ∧
      (¬ (Program.ofStatements w.options statements).Contained →
        ∃ e, (w.run today source).1 = .error (.fault e)) ∧
      (w.run today source).2.Sound ∧
      (w.run today source).2.options = w.options := by
  obtain ⟨hsound, hoptions⟩ := sound_reset hw
  have hsettled := Program.settled_ofStatements w.options statements
  have hready : ∀ r ∈ (Program.ofStatements w.options statements).records,
      Generation.Ready r := fun r hr => (hsettled r hr).ready
  rw [run_finish hw today hread hends hfits]
  by_cases hcontained : (Program.ofStatements w.options statements).Contained
  · obtain ⟨a, w', hfinish, hw', hoptions', hmade⟩ :=
      finish_ok hsound today hready hcontained
    rw [hfinish]
    refine ⟨fun _ => ⟨a, rfl, hoptions ▸ hmade⟩,
      fun hnot => absurd hcontained hnot, hw', ?_⟩
    exact hoptions'.trans hoptions
  · obtain ⟨e, w', hfinish, hw', hoptions'⟩ :=
      finish_fault hsound today hready hcontained
    rw [hfinish]
    exact ⟨fun h => absurd h hcontained, fun _ => ⟨e, rfl⟩, hw',
      hoptions'.trans hoptions⟩

/-- A source that cannot be read is not assembled. -/
theorem run_unreadable (today : Bytes) {source : Bytes} {e : ReadError}
    (hread : Statement.readAll source = .error e) :
    w.run today source = (.error (.unreadable e), w.reset) := by
  unfold run
  simp only [hread]

/-- A constant whose conversion never ends keeps the assembly from an end. -/
theorem run_endless (hw : w.Sound) (today : Bytes)
    {source : Bytes} {statements : List Statement}
    (hread : Statement.readAll source = .ok statements)
    (hendless : (Program.ofStatements w.options statements).layout.endless =
      true) :
    w.run today source = (.error .endless, w.reset) := by
  unfold run
  simp only [hread, (sound_reset hw).2, hendless, if_true]

/-- A program that needs more than the region is not generated. -/
theorem run_overflow (hw : w.Sound) (today : Bytes) {source : Bytes}
    {statements : List Statement} {fatal : Fatal}
    (hread : Statement.readAll source = .ok statements)
    (hends : (Program.ofStatements w.options statements).layout.endless = false)
    (hover : overflow? w.options
      (Program.ofStatements w.options statements).layout.symbols = some fatal) :
    w.run today source = (.error fatal, w.reset) := by
  unfold run
  simp only [hread, (sound_reset hw).2, hends, hover,
    Bool.false_eq_true, if_false]

/-- **The ways in which an assembly can end** before it comes to the
generation. -/
theorem run_cases (hw : w.Sound) (today source : Bytes) :
    (∃ fatal, w.run today source = (.error fatal, w.reset)) ∨
      ∃ statements, Statement.readAll source = .ok statements ∧
        (Program.ofStatements w.options statements).layout.endless = false ∧
        overflow? w.options
          (Program.ofStatements w.options statements).layout.symbols =
            none := by
  cases hread : Statement.readAll source with
  | error e => exact Or.inl ⟨_, run_unreadable today hread⟩
  | ok statements =>
      cases hends :
        (Program.ofStatements w.options statements).layout.endless with
      | true => exact Or.inl ⟨_, run_endless hw today hread hends⟩
      | false =>
          cases hover : overflow? w.options
              (Program.ofStatements w.options statements).layout.symbols with
          | some fatal =>
              exact Or.inl ⟨_, run_overflow hw today hread hends hover⟩
          | none => exact Or.inr ⟨statements, rfl, hends, hover⟩

/-- **A workspace can be used again** after any assembly. -/
theorem sound_run (hw : w.Sound) (today source : Bytes) :
    (w.run today source).2.Sound ∧
      (w.run today source).2.options = w.options := by
  rcases run_cases hw today source with
    ⟨fatal, hrun⟩ | ⟨statements, hread, hends, hover⟩
  · rw [hrun]
    exact sound_reset hw
  · exact (run_spec hw today hread hends hover).2.2

/-- A source that has an assembly can be read, and its code can be collected. -/
theorem run_eq_ok (hw : w.Sound) {today source : Bytes} {a : Assembly}
    (h : (w.run today source).1 = .ok a) :
    ∃ statements, Statement.readAll source = .ok statements ∧
      (Program.ofStatements w.options statements).Contained ∧
      a.Made w.options (Program.ofStatements w.options statements) := by
  rcases run_cases hw today source with
    ⟨fatal, hrun⟩ | ⟨statements, hread, hends, hover⟩
  · rw [hrun] at h
    cases h
  · obtain ⟨hok, hfault, -⟩ := run_spec hw today hread hends hover
    by_cases hcontained : (Program.ofStatements w.options statements).Contained
    · obtain ⟨a', ha', hmade⟩ := hok hcontained
      rw [h] at ha'
      obtain rfl := Except.ok.inj ha'
      exact ⟨statements, hread, hcontained, hmade⟩
    · obtain ⟨e, he⟩ := hfault hcontained
      rw [h] at he
      cases he

/-- The workspace of some options, behind the assemblies of some sources, each
on some day. -/
def after (options : Options) (earlier : List (Bytes × Bytes)) : Workspace :=
  earlier.foldl (fun w (today, source) => (w.run today source).2)
    ⟨options, Arena.ofPageSize 4096, none⟩

/-- The storage of a workspace stays in order, whatever is assembled. -/
theorem sound_after (options : Options) (earlier : List (Bytes × Bytes)) :
    (after options earlier).Sound ∧
      (after options earlier).options = options := by
  suffices hfold : ∀ (earlier : List (Bytes × Bytes)) (w : Workspace),
      w.Sound → w.options = options →
      (earlier.foldl
        (fun w (today, source) => (w.run today source).2) w).Sound ∧
        (earlier.foldl (fun w (today, source) => (w.run today source).2)
          w).options =
          options from
    hfold earlier _ (sound_new options) rfl
  intro earlier
  induction earlier with
  | nil =>
      intro w hw hoptions
      exact ⟨hw, hoptions⟩
  | cons first rest ih =>
      intro w hw hoptions
      obtain ⟨hsound, hsame⟩ := sound_run hw first.1 first.2
      exact ih _ hsound (hsame.trans hoptions)

/-- The outcome of an assembly that comes to the generation, by its program. -/
theorem run_generated (options : Options) (earlier : List (Bytes × Bytes))
    (today : Bytes) {source : Bytes} {statements : List Statement}
    (hread : Statement.readAll source = .ok statements)
    (hends : (Program.ofStatements options statements).layout.endless = false)
    (hfits : overflow? options
      (Program.ofStatements options statements).layout.symbols = none) :
    ((Program.ofStatements options statements).Storable →
        ∃ a, ((after options earlier).run today source).1 = .ok a) ∧
      (¬ (Program.ofStatements options statements).Storable →
        ∃ e,
        ((after options earlier).run today source).1 = .error (.fault e)) := by
  obtain ⟨hw, hoptions⟩ := sound_after options earlier
  obtain ⟨hok, hfault, -⟩ :=
    run_spec hw today hread (hoptions.symm ▸ hends) (hoptions.symm ▸ hfits)
  rw [hoptions] at hok hfault
  rw [Program.storable_iff (Program.settled_ofStatements options statements)]
  exact ⟨fun hcontained => (hok hcontained).imp fun _ h => h.1, hfault⟩

/-- **How an assembly ends**, whatever was assembled before and on whatever day.
It never ends if the layout comes to a constant whose conversion never does, and
then one of the statements has such a constant.  Otherwise a source that can be
read and does not need more than the region ends in a fault just if its program
is not storable, and it is storable if no location wrapped.  All accesses to a
region are then inside of it. -/
theorem run_faults_iff (options : Options) (earlier : List (Bytes × Bytes))
    (today source : Bytes) :
    let outcome := ((after options earlier).run today source).1
    match Statement.readAll source with
    | .error e => outcome = .error (.unreadable e)
    | .ok statements =>
      let p := Program.ofStatements options statements
      (outcome = .error .endless ↔ p.layout.endless = true) ∧
      (p.layout.endless = true → ∃ s ∈ statements, s.HasEndless) ∧
      (p.layout.endless = false →
        match overflow? options p.layout.symbols with
        | some fatal => outcome = .error fatal
        | none =>
          ((∃ a, outcome = .ok a) ↔ p.Storable) ∧
          ((∃ e, outcome = .error (.fault e)) ↔ ¬ p.Storable) ∧
          (p.Storable → ∀ e ∈ Extent.ofRuns p.generated.2.runs,
            0 ≤ e.start.toInt ∧ e.start.toInt < e.stop.toInt ∧
              e.stop.toInt ≤ p.layout.symbols.size.toInt) ∧
          ((Program.unplaced options statements).InRange →
            p.layout.symbols.size.toInt ≤ 2 ^ 63 - 4096 → p.Storable)) := by
  obtain ⟨hw, hoptions⟩ := sound_after options earlier
  intro outcome
  split
  · rename_i e hread
    exact congrArg Prod.fst (run_unreadable today hread)
  · rename_i statements hread
    intro p
    have hoverflow : ∀ fatal, p.layout.endless = false →
        overflow? options p.layout.symbols = some fatal →
          outcome = .error fatal :=
      fun fatal hends hover => congrArg Prod.fst
        (run_overflow hw today hread (hoptions.symm ▸ hends)
          (hoptions.symm ▸ hover))
    have hgenerated : p.layout.endless = false →
        overflow? options p.layout.symbols = none →
        (p.Storable → ∃ a, outcome = .ok a) ∧
          (¬ p.Storable → ∃ e, outcome = .error (.fault e)) :=
      run_generated options earlier today hread
    refine ⟨⟨fun hnever => ?_, fun hendless => ?_⟩,
      Program.endless_ofStatements options statements, fun hends => ?_⟩
    · -- every other way out gives an outcome of its own
      by_contra hnot
      have hends := Bool.eq_false_iff.mpr hnot
      cases hover : overflow? options p.layout.symbols with
      | some fatal =>
          obtain ⟨required, rfl⟩ := overflow?_cases hover
          cases hnever.symm.trans (hoverflow _ hends hover)
      | none =>
          obtain ⟨hok, hfault⟩ := hgenerated hends hover
          by_cases hstorable : p.Storable
          · obtain ⟨a, ha⟩ := hok hstorable
            cases hnever.symm.trans ha
          · obtain ⟨e, he⟩ := hfault hstorable
            cases hnever.symm.trans he
    · exact congrArg Prod.fst
        (run_endless hw today hread (hoptions.symm ▸ hendless))
    · cases hover : overflow? options p.layout.symbols with
      | some fatal => exact hoverflow fatal hends hover
      | none =>
          obtain ⟨hok, hfault⟩ := hgenerated hends hover
          have hsettled := Program.settled_ofStatements options statements
          refine ⟨⟨?_, hok⟩, ⟨?_, hfault⟩, fun hstorable => ?_,
            fun hrange hsize => ?_⟩
          · rintro ⟨a, ha⟩
            by_contra hnot
            obtain ⟨e, he⟩ := hfault hnot
            cases ha.symm.trans he
          · rintro ⟨e, he⟩ hstorable
            obtain ⟨a, ha⟩ := hok hstorable
            cases ha.symm.trans he
          · have hcontained := (Program.storable_iff hsettled).mp hstorable
            exact extents_inside hcontained.inside fun run hrun =>
              (runs_generated (fun r hr => (hsettled r hr).ready) run hrun).1
          · obtain ⟨hwf, hplaced⟩ := Program.unplaced_spec options statements
            exact (Program.storable_iff hsettled).mpr
              (hrange.contained hwf hplaced hsize)

/-- A start close to the greatest location makes a program that is not storable,
an infinite value one whose layout never ends; other programs have no location
that wraps. -/
theorem run_faults_iff_start :
    (∃ statements, Statement.readAll
        (bytes
          "A START 2147483647*2147483647*2+2147483647*4+1\n LR 1,2\n END\n") =
          .ok statements ∧ ¬ (Program.ofStatements {} statements).Storable) ∧
      ((after {} []).run (bytes "26001")
        (bytes "A CSECT\n DC E'1,-Infinity'\n END\n")).1 =
        .error .endless ∧
      ∃ statements,
      Statement.readAll (bytes "A START 8\n LR 1,2\n DC A(A)\n END\n") =
        .ok statements ∧ (Program.unplaced {} statements).InRange ∧
          (Program.ofStatements {} statements).Storable := by
  have hread : ∀ (source : Bytes) (check : List Statement → Bool),
      (Statement.readAll source).toOption.any check = true →
      ∃ statements, Statement.readAll source = .ok statements ∧
        check statements = true :=
    fun _ _ => exists_ok_of_any
  refine ⟨?_, ?_, ?_⟩
  · obtain ⟨statements, hstatements, hplain⟩ := hread
      (bytes "A START 2147483647*2147483647*2+2147483647*4+1\n LR 1,2\n END\n")
      (fun statements => decide
        ((Program.ofStatements {} statements).layout.endless = false ∧
          overflow? {}
            (Program.ofStatements {} statements).layout.symbols = none))
      (by decide +kernel)
    obtain ⟨hends, hover⟩ := of_decide_eq_true hplain
    have hfault : (match ((after {} []).run [] (bytes
        "A START 2147483647*2147483647*2+2147483647*4+1\n LR 1,2\n END\n")).1
          with
        | .error (.fault _) => true
        | _ => false) = true := by decide +kernel
    have hcases := run_faults_iff {} [] [] (bytes
      "A START 2147483647*2147483647*2+2147483647*4+1\n LR 1,2\n END\n")
    simp only [hstatements, hover] at hcases
    refine ⟨statements, hstatements, fun hstorable => ?_⟩
    obtain ⟨a, ha⟩ := (hcases.2.2 hends).1.mpr hstorable
    rw [ha] at hfault
    cases hfault
  · obtain ⟨statements, hstatements, hendless⟩ := hread
      (bytes "A CSECT\n DC E'1,-Infinity'\n END\n")
      (fun statements => (Program.ofStatements {} statements).layout.endless)
      (by decide +kernel)
    have hcases := run_faults_iff {} [] (bytes "26001")
      (bytes "A CSECT\n DC E'1,-Infinity'\n END\n")
    simp only [hstatements] at hcases
    exact hcases.1.mpr hendless
  · obtain ⟨statements, hstatements, hsmall⟩ := hread
      (bytes "A START 8\n LR 1,2\n DC A(A)\n END\n")
      (fun statements => decide ((Program.unplaced {} statements).InRange ∧
        (Program.ofStatements {} statements).layout.endless = false ∧
        overflow? {}
          (Program.ofStatements {} statements).layout.symbols = none ∧
        (Program.ofStatements {} statements).layout.symbols.size.toInt ≤
          2 ^ 63 - 4096))
      (by decide +kernel)
    obtain ⟨hrange, hends, hover, hsize⟩ := of_decide_eq_true hsmall
    have hcases := run_faults_iff {} [] []
      (bytes "A START 8\n LR 1,2\n DC A(A)\n END\n")
    simp only [hstatements, hover] at hcases
    exact ⟨statements, hstatements, hrange,
      (hcases.2.2 hends).2.2.2 hrange hsize⟩

end Workspace

end System370
