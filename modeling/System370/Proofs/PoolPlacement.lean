import System370.Proofs.Placement
import System370.Proofs.Sorting

/-!
# The place of a pool

A pool holds the literals of its section that waited, the long ones first, one
behind the other and each on the boundary of its group
(`LiteralPool.flush_spec`).  Flushing a pool moves no literal that has its place
already (`Layout.keeps_flush`), and a literal that an instruction asks for joins
the pool or is found there (`Layout.grows_intern`).
-/

namespace System370

namespace Literal

/-- The boundaries of groups are eight, four, two and one. -/
theorem group_dvd (length : Nat) : group length ∣ 8 := by
  unfold group
  repeat' split
  all_goals decide

/-- The length of a literal is a multiple of the boundary of its group. -/
theorem group_dvd_length (length : Nat) : group length ∣ length := by
  unfold group
  repeat' split
  all_goals omega

/-- The group has the greatest boundary that the length is a multiple of. -/
theorem dvd_group {b length : Nat} (hb : b ∣ 8) (h : b ∣ length)
    (hne : length ≠ 0) :
    b ∣ group length := by
  have hboundaries : ∀ b ≤ 8, b ∣ 8 → b = 1 ∨ b = 2 ∨ b = 4 ∨ b = 8 := by decide
  unfold group
  rw [if_neg hne]
  rcases hboundaries b (Nat.le_of_dvd (by decide) hb) hb with
    rfl | rfl | rfl | rfl <;> grind

end Literal

namespace LiteralPool

/-- What placing does to a single literal. -/
theorem mem_placeFrom {literals : List Literal} {loc : Int64}
    {placed : Literal} (h : placed ∈ (placeFrom loc literals).1) :
    ∃ literal ∈ literals, ∃ spot,
    placed = { literal with place := some spot } := by
  induction literals generalizing loc with
  | nil => simp [placeFrom] at h
  | cons first rest ih =>
      rcases List.mem_cons.mp h with rfl | h
      · exact ⟨first, List.mem_cons_self, _, rfl⟩
      · obtain ⟨literal, hliteral, hspot⟩ := ih h
        exact ⟨literal, List.mem_cons_of_mem _ hliteral, hspot⟩

/-- Literals keep their numbers when they are placed. -/
theorem map_id_placeFrom (literals : List Literal) (loc : Int64) :
    (placeFrom loc literals).1.map (·.id) = literals.map (·.id) := by
  induction literals generalizing loc with
  | nil => rfl
  | cons first rest ih => simp [placeFrom, ih]

/-- Placed literals stand one behind the other. -/
theorem chain_placeFrom {literals : List Literal}
    {start loc : Int64} (h : ∀ literal ∈ literals, literal.descriptor.isSome) :
    Chain (loc - start)
      ((placeFrom loc literals).1.filterMap (constantFrom start))
      ((placeFrom loc literals).2 - start) := by
  induction literals generalizing loc with
  | nil => exact rfl
  | cons first rest ih =>
      obtain ⟨d, hd⟩ := Option.isSome_iff_exists.mp (h first List.mem_cons_self)
      have hrest := @ih (loc + Int64.ofNat first.length)
        fun literal hl => h literal (List.mem_cons_of_mem _ hl)
      have hlength : first.length = d.size := by simp [Literal.length, hd]
      have hhead :
          (placeFrom loc (first :: rest)).1.filterMap (constantFrom start) =
          (d, loc - start) ::
            (placeFrom (loc + Int64.ofNat first.length) rest).1.filterMap
              (constantFrom start) := by
        simp [placeFrom, constantFrom, hd]
      rw [hhead]
      refine ⟨⟨0, by simp, by simp, by simp⟩, ?_⟩
      have hnext : loc - start + Int64.ofNat d.size =
          loc + Int64.ofNat first.length - start := by
        rw [hlength]
        grind
      rw [hnext]
      exact hrest

/-- Grouped literals have different numbers if the literals have. -/
theorem grouped_pairwise {literals : List Literal}
    (h : literals.Pairwise fun a b => a.id ≠ b.id)
    (hinj : ∀ a ∈ literals, ∀ b ∈ literals, a.id = b.id → a = b) :
    (grouped literals).Pairwise fun a b => a.id ≠ b.id := by
  have hgroups : ∀ m n,
      m ≠ n → ∀ a ∈ literals.filter (Literal.group ·.length = m),
      ∀ b ∈ literals.filter (Literal.group ·.length = n), a.id ≠ b.id := by
    intro m n hne a ha b hb heq
    simp only [List.mem_filter, decide_eq_true_eq] at ha hb
    have hab := hinj a ha.1 b hb.1 heq
    subst hab
    exact hne (ha.2.symm.trans hb.2)
  unfold grouped
  rw [List.pairwise_flatMap]
  refine ⟨fun _ _ => h.filter _, ?_⟩
  simp only [List.pairwise_cons, List.mem_cons, List.not_mem_nil, or_false,
    forall_eq_or_imp, forall_eq, List.Pairwise.nil, and_true]
  exact ⟨⟨hgroups 8 4 (by decide), hgroups 8 2 (by decide),
    hgroups 8 1 (by decide)⟩,
    ⟨hgroups 4 2 (by decide), hgroups 4 1 (by decide)⟩,
    hgroups 2 1 (by decide), by simp⟩

/-- A literal is found by its number. -/
theorem find?_of_pairwise {literals : List Literal} {literal : Literal}
    (h : literals.Pairwise fun a b => a.id ≠ b.id) (hmem : literal ∈ literals) :
    literals.find? (·.id = literal.id) = some literal := by
  induction literals with
  | nil => simp at hmem
  | cons first rest ih =>
      obtain ⟨hfirst, hrest⟩ := List.pairwise_cons.mp h
      rcases List.mem_cons.mp hmem with rfl | hmem
      · simp
      · rw [List.find?_cons_of_neg (by simpa using hfirst literal hmem)]
        exact ih hrest hmem

/-- The groups come one after the other, those of the greatest boundary
first. -/
theorem grouped_sorted (literals : List Literal) :
    (grouped literals).Pairwise fun a b =>
      Literal.group b.length ∣ Literal.group a.length := by
  have hgroup : ∀ m, ∀ a ∈ literals.filter (Literal.group ·.length = m),
      Literal.group a.length = m := by
    intro m a ha
    simpa using (List.mem_filter.mp ha).2
  unfold grouped
  rw [List.pairwise_flatMap]
  constructor
  · intro m _
    refine List.Pairwise.imp_of_mem (fun ha hb _ => ?_)
      (List.pairwise_of_forall fun _ _ => trivial)
    have hsame := (hgroup m _ hb).trans (hgroup m _ ha).symm
    exact hsame ▸ Nat.dvd_refl _
  · have hdvd : ([8, 4, 2, 1] : List Nat).Pairwise fun m n => n ∣ m := by decide
    refine hdvd.imp fun hmn a ha b hb => ?_
    rwa [hgroup _ a ha, hgroup _ b hb]

/-- **Literals sorted by their groups need no gaps**: every one of them is
placed on the boundary of its group, if all boundaries fit the first
location. -/
theorem aligned_placeFrom {literals : List Literal} {loc : Int64}
    (hsorted : literals.Pairwise fun a b =>
      Literal.group b.length ∣ Literal.group a.length)
    (hloc : ∀ literal ∈ literals,
      OnBoundary (Literal.group literal.length) loc) :
    ∀ literal ∈ (placeFrom loc literals).1, ∀ spot, literal.place = some spot →
      spot.boundary = Int64.ofNat (Literal.group literal.length) ∧
        OnBoundary (Literal.group literal.length) spot.address := by
  induction literals generalizing loc with
  | nil => simp [placeFrom]
  | cons first rest ih =>
      obtain ⟨hfirst, hrest⟩ := List.pairwise_cons.mp hsorted
      intro literal hl spot hspot
      rcases List.mem_cons.mp hl with rfl | hl
      · obtain rfl := Option.some.inj hspot
        exact ⟨rfl, hloc first List.mem_cons_self⟩
      · refine ih hrest (fun other hother => ?_) literal hl spot hspot
        have hlength : Literal.group other.length ∣ first.length :=
          Nat.dvd_trans (hfirst other hother) (Literal.group_dvd_length _)
        exact (hloc other (List.mem_cons_of_mem _ hother)).add
          (Literal.group_dvd _)
          (OnBoundary.of_ofNat (Literal.group_dvd _) hlength)

/-- The literals of a section that wait, each of them once. -/
structure Pending (p : LiteralPool) (sectionId : Int)
    (ids : List Nat) : Prop where
  nodup : ids.Nodup
  waiting : ∀ id ∈ ids, ∃ literal,
    p.literals[id]? = some literal ∧ literal.place = none ∧
    literal.sectionId = sectionId
  complete : ∀ literal ∈ p.literals,
    literal.place = none → literal.sectionId = sectionId →
    literal.id ∈ ids

/-- What flushing gives: every placed literal is in the new pool, and the other
literals are as before. -/
structure Flushes (p : LiteralPool) (sectionId : Int) (f : Flushed) : Prop where
  mem : ∀ literal ∈ f.placed, f.pool.literals[literal.id]? = some literal ∧
    literal.sectionId = sectionId ∧ literal.place.isSome
  keeps : ∀ (i : Nat) literal,
    p.literals[i]? = some literal → literal.place.isSome →
    f.pool.literals[i]? = some literal
  moved : ∀ (i : Nat) literal, p.literals[i]? = some literal →
    ∃ place, f.pool.literals[i]? = some { literal with place }
  fresh : ∀ literal ∈ f.pool.literals, literal.place.isSome →
    literal ∈ p.literals ∨ literal ∈ f.placed
  complete : ∀ literal ∈ f.pool.literals, literal.sectionId = sectionId →
    literal.place.isSome
  length : f.pool.literals.length = p.literals.length
  aligned : ∀ literal ∈ f.placed, ∀ spot, literal.place = some spot →
    spot.boundary = Int64.ofNat (Literal.group literal.length) ∧
      OnBoundary (Literal.group literal.length) spot.address
  pending : Pending p sectionId (f.placed.map (·.id))

/-- A flush changes nothing but places. -/
theorem Flushes.described {p : LiteralPool} {sectionId : Int}
    {f : Flushed} (h : Flushes p sectionId f) :
    ∀ literal ∈ f.pool.literals, ∃ old ∈ p.literals,
    literal = { old with place := literal.place } := by
  intro literal hl
  obtain ⟨i, hi⟩ := List.getElem?_of_mem hl
  have hlt : i < p.literals.length :=
    h.length ▸ (List.getElem?_eq_some_iff.mp hi).1
  obtain ⟨place, hplace⟩ := h.moved i _ (List.getElem?_eq_getElem hlt)
  refine ⟨p.literals[i], List.getElem_mem hlt, ?_⟩
  rw [Option.some.inj (hi.symm.trans hplace)]

/-- No literal of the section waits any more, and what had its place has it
still. -/
theorem Flushes.places_section {p : LiteralPool} {sectionId : Int}
    {f : Flushed} (h : Flushes p sectionId f) :
    ∀ literal ∈ f.pool.literals, ∃ old ∈ p.literals,
    literal.sectionId = old.sectionId ∧
      (old.place.isSome ∨ old.sectionId = sectionId →
        literal.place.isSome) := by
  intro literal hl
  obtain ⟨i, hi⟩ := List.getElem?_of_mem hl
  have hlt : i < p.literals.length :=
    h.length ▸ (List.getElem?_eq_some_iff.mp hi).1
  have hold := List.getElem?_eq_getElem hlt
  obtain ⟨place, hmoved⟩ := h.moved i _ hold
  have hsection : literal.sectionId = p.literals[i].sectionId := by
    rw [Option.some.inj (hi.symm.trans hmoved)]
  refine ⟨p.literals[i], List.getElem_mem hlt, hsection, ?_⟩
  rintro (hplace | hid)
  · rw [Option.some.inj (hi.symm.trans (h.keeps i _ hold hplace))]
    exact hplace
  · exact h.complete literal hl (hsection.trans hid)

/-- If nothing was placed, nothing waited. -/
theorem Flushes.isSome_of_nil {p : LiteralPool} {sectionId : Int} {f : Flushed}
    (h : Flushes p sectionId f) (hnil : f.placed = []) {literal : Literal}
    (hl : literal ∈ p.literals) (hsection : literal.sectionId = sectionId) :
    literal.place.isSome := by
  cases hplace : literal.place with
  | some spot => rfl
  | none =>
      have hmem := h.pending.complete literal hl hplace hsection
      simp [hnil] at hmem

/-- What is placed are the literals of a section that waited, each of them
once. -/
structure Places (p : LiteralPool) (sectionId : Int)
    (placed : List Literal) : Prop where
  waited : ∀ literal ∈ placed, ∃ old ∈ p.literals,
    old.place = none ∧ old.sectionId = sectionId ∧
    ∃ spot, literal = { old with place := some spot }
  complete : ∀ old ∈ p.literals, old.place = none → old.sectionId = sectionId →
    old.id ∈ placed.map (·.id)
  distinct : placed.Pairwise fun a b => a.id ≠ b.id

variable {p : LiteralPool}

/-- Literals have different ids. -/
theorem pairwise_id (p : LiteralPool) :
    p.literals.Pairwise fun a b => a.id ≠ b.id := by
  rw [List.pairwise_iff_getElem]
  intro i j hi hj hlt heq
  have := p.inStep.numbered i _ (List.getElem?_eq_getElem hi)
  have := p.inStep.numbered j _ (List.getElem?_eq_getElem hj)
  omega

/-- The literals that wait in a section. -/
theorem mem_waiting {sectionId : Int} {l : Literal} :
    l ∈ p.waiting sectionId ↔ l ∈ p.literals ∧ l.place = none ∧
      l.sectionId = sectionId := by
  rw [waiting_eq]
  simp [Literal.waitsIn]

/-- **A flush places** the literals of its section, each at its boundary. -/
theorem places_placeFrom (p : LiteralPool) (sectionId : Int) (loc : Int64) :
    Places p sectionId (placeFrom loc (grouped (p.waiting sectionId))).1 := by
  refine ⟨fun literal hl => ?_, fun old hold hnone hsection => ?_, ?_⟩
  · obtain ⟨old, hold, spot, rfl⟩ := mem_placeFrom hl
    obtain ⟨hmem, hnone, hsection⟩ := mem_waiting.mp (mem_grouped.mp hold)
    exact ⟨old, hmem, hnone, hsection, spot, rfl⟩
  · rw [map_id_placeFrom]
    exact List.mem_map_of_mem
      (mem_grouped.mpr (mem_waiting.mpr ⟨hold, hnone, hsection⟩))
  · have hfilter : (p.waiting sectionId).Pairwise fun a b => a.id ≠ b.id := by
      rw [waiting_eq]
      exact (pairwise_id p).filter _
    rw [← List.pairwise_map (f := fun literal : Literal => literal.id),
      map_id_placeFrom, List.pairwise_map]
    exact grouped_pairwise hfilter fun a ha b hb =>
      p.inStep.eq_of_id (mem_waiting.mp ha).1 (mem_waiting.mp hb).1

variable {sectionId : Int} {placed : List Literal}

/-- A literal stays as it is, or it waited and got its place. -/
theorem Places.replace_cases (h : Places p sectionId placed)
    {old : Literal} (hold : old ∈ p.literals) :
    (replace placed old = old ∧ old.id ∉ placed.map (·.id)) ∨
      replace placed old ∈ placed ∧ old.place = none ∧
      old.sectionId = sectionId ∧
        ∃ spot, replace placed old = { old with place := some spot } := by
  unfold replace
  cases hfound : placed.find? (·.id = old.id) with
  | none =>
      refine Or.inl ⟨rfl, fun hid => ?_⟩
      obtain ⟨q, hq, heq⟩ := List.mem_map.mp hid
      exact absurd heq (by simpa using List.find?_eq_none.mp hfound q hq)
  | some q =>
      have hq := List.mem_of_find?_eq_some hfound
      have hid : q.id = old.id := by simpa using List.find?_some hfound
      obtain ⟨first, hfirst, hnone, hsection, spot, rfl⟩ := h.waited q hq
      obtain rfl := p.inStep.eq_of_id hfirst hold hid
      exact Or.inr ⟨hq, hnone, hsection, spot, rfl⟩

/-- Literals that are replaced by placed ones. -/
theorem Places.flushes (h : Places p sectionId placed)
    (haligned : ∀ literal ∈ placed, ∀ spot, literal.place = some spot →
      spot.boundary = Int64.ofNat (Literal.group literal.length) ∧
        OnBoundary (Literal.group literal.length) spot.address)
        {pool : LiteralPool}
    (hpool : pool.literals = p.literals.map (replace placed)) (behind : Int64) :
    Flushes p sectionId ⟨pool, placed, behind⟩ := by
  have hget : ∀ {i : Nat} {old : Literal}, p.literals[i]? = some old →
      pool.literals[i]? = some (replace placed old) := by
    intro i old hold
    rw [hpool, List.getElem?_map, hold, Option.map_some]
  have hmem : ∀ {literal}, literal ∈ pool.literals ↔
      ∃ old ∈ p.literals, replace placed old = literal := by
    intro literal
    rw [hpool, List.mem_map]
  refine ⟨fun literal hl => ?_, fun i literal hl hplace => ?_,
    fun i literal hl => ?_, fun literal hl hplace => ?_,
    fun literal hl hsection => ?_, by simp [hpool], haligned,
    ⟨List.pairwise_map.mpr h.distinct, fun id hid => ?_, h.complete⟩⟩
  · obtain ⟨old, hold, -, hsection, spot, rfl⟩ := h.waited literal hl
    obtain ⟨i, hi⟩ := List.getElem?_of_mem hold
    have hreplace : replace placed old = { old with place := some spot } := by
      unfold replace
      rw [find?_of_pairwise h.distinct hl]
      rfl
    have hmoved := (hget hi).trans (congrArg some hreplace)
    rw [← p.inStep.numbered i old hi] at hmoved
    exact ⟨hmoved, hsection, rfl⟩
  · rcases h.replace_cases (List.mem_of_getElem? hl) with
      ⟨hsame, -⟩ | ⟨-, hnone, -⟩
    · exact (hget hl).trans (congrArg some hsame)
    · simp [hnone] at hplace
  · rcases h.replace_cases (List.mem_of_getElem? hl) with
      ⟨hsame, -⟩ | ⟨-, -, -, spot, hmoved⟩
    · exact ⟨literal.place, (hget hl).trans (congrArg some hsame)⟩
    · exact ⟨some spot, (hget hl).trans (congrArg some hmoved)⟩
  · obtain ⟨old, hold, rfl⟩ := hmem.mp hl
    rcases h.replace_cases hold with ⟨hsame, -⟩ | ⟨hmem, -⟩
    · exact Or.inl (hsame.symm ▸ hold)
    · exact Or.inr hmem
  · obtain ⟨old, hold, rfl⟩ := hmem.mp hl
    rcases h.replace_cases hold with ⟨hsame, hnot⟩ | ⟨-, -, -, spot, hmoved⟩
    · rw [hsame] at hsection ⊢
      cases hplace : old.place with
      | some place => rfl
      | none => exact absurd (h.complete old hold hplace hsection) hnot
    · rw [hmoved]
      rfl
  · obtain ⟨literal, hl, rfl⟩ := List.mem_map.mp hid
    obtain ⟨old, hold, hnone, hsection, spot, rfl⟩ := h.waited literal hl
    obtain ⟨i, hi⟩ := List.getElem?_of_mem hold
    exact ⟨old, by rw [p.inStep.numbered i old hi]; exact hi, hnone, hsection⟩

/-- The sections with waiting literals. -/
theorem mem_waitingSections_iff {sectionId : Int} :
    sectionId ∈ p.waitingSections ↔ p.waiting sectionId ≠ [] := by
  have hids : p.waiting sectionId ≠ [] ↔
      (p.pending.get? sectionId).getD [] ≠ [] := by
    rw [p.inStep.waiting, ne_eq, ne_eq, List.map_eq_nil_iff,
      waiting_eq, waitingOf]
  have hentry : ∀ ids, p.pending.get? sectionId = some ids ↔
      (sectionId, ids) ∈ p.pending :=
    fun _ => KeyedList.get?_eq_some_iff p.inStep.once
  unfold waitingSections
  rw [(sortByKey_perm id _).mem_iff, List.mem_map, hids]
  constructor
  · rintro ⟨⟨_, ids⟩, hmem, rfl⟩
    obtain ⟨hmem, hsome⟩ := List.mem_filter.mp hmem
    rw [(hentry ids).mpr hmem]
    simpa using hsome
  · intro hne
    cases hfound : p.pending.get? sectionId with
    | none => simp [hfound] at hne
    | some ids =>
        rw [hfound] at hne
        exact ⟨(sectionId, ids),
          List.mem_filter.mpr ⟨(hentry ids).mp hfound, by simpa using hne⟩, rfl⟩

/-- Each section with waiting literals is listed once, and in increasing
order. -/
theorem pairwise_waitingSections (p : LiteralPool) :
    p.waitingSections.Pairwise (· < ·) :=
  sortByKey_pairwise_lt id Function.injective_id
    (p.inStep.once.sublist (List.filter_sublist.map _))

/-- A section without waiting literals has no tables. -/
theorem settle_of_nil {sectionId : Int} (h : p.waiting sectionId = [])
    (loc : Int64) :
    p.settle sectionId loc = p := by
  have hnone : p.literals.filter (·.waitsIn sectionId) = [] := by
    rw [← waiting_eq, h]
  have hpending : p.pending.get? sectionId = none := by
    have hempty := p.inStep.waiting sectionId
    rw [waitingOf, hnone, List.map_nil] at hempty
    exact KeyedList.get?_eq_none_of_getD p.inStep.busy.1 hempty
  have hindex : p.index.get? sectionId = none := by
    refine KeyedList.get?_eq_none_of_getD p.inStep.busy.2 ?_
    cases htexts : (p.index.get? sectionId).getD [] with
    | nil => rfl
    | cons first rest =>
        have hfound := p.inStep.found sectionId first.1
        rw [waitingOf, hnone, htexts, KeyedList.get?_cons, if_pos rfl] at hfound
        cases hfound
  have hliterals :
      p.literals.map (replace
        (placeFrom loc (grouped (p.waiting sectionId))).1) = p.literals := by
    rw [h]
    exact List.map_id _
  ext1
  · rfl
  · exact hliterals
  · exact KeyedList.erase_of_get? hpending
  · exact KeyedList.erase_of_get? hindex
  · rfl

/-- Flushing a section without waiting literals changes nothing. -/
theorem flush_of_nil {sectionId : Int} (h : p.waiting sectionId = [])
    (loc : Int64) :
    p.flush sectionId loc = ⟨p, [], loc⟩ := by
  unfold flush
  simp only [settle_of_nil h]
  rw [h]
  rfl

/-- Otherwise its literals are placed from the next doubleword on. -/
theorem flush_of_ne {sectionId : Int} (h : p.waiting sectionId ≠ [])
    (loc : Int64) :
    p.flush sectionId loc =
      ⟨p.settle sectionId (alignUp loc 8),
        (placeFrom (alignUp loc 8) (grouped (p.waiting sectionId))).1,
        (placeFrom (alignUp loc 8) (grouped (p.waiting sectionId))).2⟩ := by
  unfold flush
  simp [h]

/-- **Flushing a section places its literals and nothing else.** -/
theorem flush_spec (p : LiteralPool) (sectionId : Int) (loc : Int64) :
    Flushes p sectionId (p.flush sectionId loc) := by
  by_cases hnil : p.waiting sectionId = []
  · have hplaces := places_placeFrom p sectionId loc
    rw [flush_of_nil hnil]
    rw [hnil] at hplaces
    exact hplaces.flushes (by simp [placeFrom, grouped])
      (List.map_id _).symm loc
  · have haligned := aligned_placeFrom (grouped_sorted (p.waiting sectionId))
      fun literal _ => (OnBoundary.of_alignUp (Nat.dvd_refl 8) loc).mono
        (Literal.group_dvd _)
    rw [flush_of_ne hnil]
    exact (places_placeFrom p sectionId (alignUp loc 8)).flushes haligned rfl _

/-- The constants of the pool record that flushing makes. -/
theorem flush_constants {p : LiteralPool} {sectionId : Int} {loc : Int64}
    (hdescribed : ∀ literal ∈ p.literals, literal.descriptor.isSome)
    (hplaced : (p.flush sectionId loc).placed ≠ []) :
    Chain 0
      ((p.flush sectionId loc).placed.filterMap (constantFrom (alignUp loc 8)))
      ((p.flush sectionId loc).behind - alignUp loc 8) := by
  by_cases hnil : p.waiting sectionId = []
  · simp [flush_of_nil hnil] at hplaced
  · rw [flush_of_ne hnil]
    have hchain := @chain_placeFrom (grouped (p.waiting sectionId))
      (alignUp loc 8) (alignUp loc 8)
      fun literal hl =>
        hdescribed literal (mem_waiting.mp (mem_grouped.mp hl)).1
    have hzero : alignUp loc 8 - alignUp loc 8 = 0 := by grind
    rw [hzero] at hchain
    exact hchain

/-- Constants of placed literals, by their numbers. -/
theorem constants_of_placed {f : Flushed} {start : Int64}
    {placed : List Literal}
    (h : ∀ literal ∈ placed, f.pool.literals[literal.id]? = some literal) :
    ((placed.map (·.id)).filterMap fun id =>
      (f.pool.literals[id]?).bind (constantFrom start)) =
      placed.filterMap (constantFrom start) := by
  rw [List.filterMap_map]
  refine List.filterMap_congr fun literal hl => ?_
  rw [Function.comp_apply, h literal hl, Option.bind_some]

end LiteralPool

namespace Layout

/-- Flushing the literals of a section. -/
theorem keeps_flush {l : Layout} (h : l.WellFormed) (sectionId : Int)
    (loc : Int64) :
    WellFormed { l with literals := (l.literals.flush sectionId loc).pool } ∧
      Keeps l { l with literals := (l.literals.flush sectionId loc).pool } := by
  have hflush := LiteralPool.flush_spec l.literals sectionId loc
  refine ⟨⟨h.symbols, fun literal hl => ?_, fun literal hl => ?_, h.modes,
    fun literal hl => ?_⟩, SymbolTable.Extends.refl _, hflush.keeps,
    hflush.moved⟩
  · obtain ⟨old, hold, heq⟩ := hflush.described literal hl
    rw [heq]
    exact h.described old hold
  · obtain ⟨old, hold, heq⟩ := hflush.described literal hl
    rw [heq]
    exact h.housed old hold
  · obtain ⟨old, hold, heq⟩ := hflush.described literal hl
    have hlength : literal.length = old.length := by rw [heq]; rfl
    refine ⟨hlength ▸ (h.aligned old hold).sized, fun spot hspot => ?_⟩
    rcases hflush.fresh literal hl (by simp [hspot]) with hbefore | hnew
    · exact (h.aligned literal hbefore).placed spot hspot
    · exact hflush.aligned literal hnew spot hspot

/-- The id of a literal is the position of one. -/
theorem id_lt {l : Layout} {literal : Literal}
    (hl : literal ∈ l.literals.literals) :
    literal.id < l.literals.literals.length :=
  (List.getElem?_eq_some_iff.mp (l.literals.inStep.getElem?_id hl)).1

/-- What has its place after flushing has had it before, or got it. -/
theorem placed_flush {l : Layout} {sectionId : Int}
    {loc : Int64} {literal : Literal}
    (hl : literal ∈ (l.literals.flush sectionId loc).pool.literals)
    (hplace : literal.place.isSome) :
    l.literals.literals[literal.id]? = some literal ∨
    literal.id ∈ (l.literals.flush sectionId loc).placed.map (·.id) := by
  have hflush := LiteralPool.flush_spec l.literals sectionId loc
  exact (hflush.fresh literal hl hplace).imp l.literals.inStep.getElem?_id
    List.mem_map_of_mem

theorem getElem?_concat_eq_some {α : Type} {as : List α} {a b : α}
    {i : Nat} (h : (as ++ [a])[i]? = some b) :
    as[i]? = some b ∨ i = as.length ∧ b = a := by
  rcases Nat.lt_trichotomy i as.length with hlt | rfl | hgt
  · rw [List.getElem?_append_left hlt] at h
    exact Or.inl h
  · rw [List.getElem?_concat_length] at h
    exact Or.inr ⟨rfl, (Option.some.inj h).symm⟩
  · rw [List.getElem?_eq_none_iff.mpr (by simp; omega)] at h
    simp at h

/-- A new literal stands behind the others and waits for its place. -/
theorem grows_addLiteral {l : Layout} (hwf : l.WellFormed) {new : Literal}
    {pool : LiteralPool} (hpool : pool.literals = l.literals.literals ++ [new])
    (hplace : new.place = none)
    (hdescribed : ∃ d, new.descriptor = some d ∧ d.Sound ∧ d.Accepted l.symbols)
    (hhoused : ∃ s, l.symbols.section? new.sectionId = some s)
    (hsized : new.length ≠ 0) :
    WellFormed { l with literals := pool } ∧
      Adds l { l with literals := pool } := by
  have hold : ∀ (i : Nat) (other : Literal),
      l.literals.literals[i]? = some other →
      pool.literals[i]? = some other := fun i other ho => by
    rw [hpool, List.getElem?_append_left (List.getElem?_eq_some_iff.mp ho).1]
    exact ho
  have hmem : ∀ {other}, other ∈ pool.literals →
      other ∈ l.literals.literals ∨ other = new := by simp [hpool]
  refine ⟨⟨hwf.symbols, fun other ho => ?_, fun other ho => ?_, hwf.modes,
      fun other ho => ?_⟩,
    ⟨⟨SymbolTable.Extends.refl _, fun i other ho _ => hold i other ho,
      fun i other ho => ⟨other.place, hold i other ho⟩⟩, rfl,
      fun i other ho hother => ?_⟩⟩
  · rcases hmem ho with ho | rfl
    · exact hwf.described other ho
    · exact hdescribed
  · rcases hmem ho with ho | rfl
    · exact hwf.housed other ho
    · exact hhoused
  · rcases hmem ho with ho | rfl
    · exact hwf.aligned other ho
    · exact ⟨hsized, by simp [hplace]⟩
  · rcases getElem?_concat_eq_some (hpool ▸ ho) with ho | ⟨rfl, rfl⟩
    · exact ho
    · simp [hplace] at hother

/-- The literals that a flush places were in the layout before, and so are
constants. -/
theorem WellFormed.described_flush {l : Layout} (h : l.WellFormed)
    {sectionId : Int} {loc : Int64} {literal : Literal}
    (hl : literal ∈ (l.literals.flush sectionId loc).placed) :
    ∃ d, literal.descriptor = some d ∧ d.Sound ∧ d.Accepted l.symbols := by
  have hflush := LiteralPool.flush_spec l.literals sectionId loc
  obtain ⟨old, hold, heq⟩ :=
    hflush.described literal (List.mem_of_getElem? (hflush.mem literal hl).1)
  rw [heq]
  exact h.described old hold

/-- Adding or finding a literal, which then is the one of its text.  One that
was added is the constant that was given. -/
theorem grows_intern {l : Layout} {sectionId line : Int} {text : Bytes}
    {d : Constant.Descriptor} {pool : LiteralPool} {literal : Literal}
    (hwf : l.WellFormed) (hsound : d.Sound)
    (haccepted : d.Accepted l.symbols) (hsize : d.size ≠ 0)
    (hsection : sectionId ≠ 0 → ∃ s, l.symbols.section? sectionId = some s)
    (h : l.literals.intern sectionId text (some d) line = .ok (pool, literal)) :
    WellFormed { l with literals := pool } ∧
      Adds l { l with literals := pool } ∧
      pool.literals[literal.id]? = some literal ∧ literal.text = text ∧
      literal.sectionId = sectionId ∧ literal.place = none ∧
      ∀ other ∈ pool.literals, other ∈ l.literals.literals ∨
        other = literal ∧ literal.descriptor = some d := by
  unfold LiteralPool.intern at h
  split at h
  · simp at h
  · rename_i hpos
    split at h
    · rename_i found hfound
      obtain ⟨rfl, rfl⟩ := Prod.mk.inj (Except.ok.inj h)
      rw [LiteralPool.find?_eq] at hfound
      obtain ⟨hmem, hnone, hsame⟩ :=
        LiteralPool.mem_waiting.mp (List.mem_of_find?_eq_some hfound)
      exact ⟨hwf, (Extends.refl l).toAdds, l.literals.inStep.getElem?_id hmem,
        by simpa using List.find?_some hfound, hsame, hnone,
        fun _ ho => .inl ho⟩
    · rename_i hnew
      split at h
      · simp at h
      · obtain ⟨rfl, rfl⟩ := Prod.mk.inj (Except.ok.inj h)
        have hliterals :
            (l.literals.add sectionId text (some d) line hnew).literals =
            l.literals.literals ++
              [l.literals.fresh sectionId text (some d) line] := rfl
        obtain ⟨hwf', hext⟩ :=
          grows_addLiteral hwf hliterals rfl ⟨d, rfl, hsound, haccepted⟩
            (hsection (by omega))
            (by simpa [Literal.length, LiteralPool.fresh] using hsize)
        refine ⟨hwf', hext, ?_, rfl, rfl, rfl, fun other ho => ?_⟩
        · exact LiteralPool.InStep.getElem?_id (LiteralPool.inStep _)
            (List.mem_append_right _ (List.mem_singleton_self _))
        · exact (List.mem_append.mp ho).imp_right fun hlast =>
            ⟨List.mem_singleton.mp hlast, rfl⟩

end Layout

end System370
