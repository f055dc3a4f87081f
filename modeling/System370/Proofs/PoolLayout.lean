import System370.Proofs.LiteralCalls
import System370.Proofs.SectionLayout

/-!
# The layout of a pool

A pool begins on a doubleword, and its literals stand one behind the other
without a gap, those of the greatest boundary first.  No literal needs a gap:
whatever stands in front of it is as long as a multiple of its own boundary
(`LiteralPool.aligned_placeFrom`).

The boundary of a literal comes from its length alone (`Literal.BoundaryOf`).
The boundary of the constant that it is made of is another matter, and it
divides that of the literal, because a parsed constant is as long as a multiple
of its own.

* `LiteralPool.pool_layout`: how a flush lays out the literals that wait.
-/

namespace System370

namespace Constant

/-- Whether a descriptor is that of an operand, whatever its expressions
mean. -/
def Descriptor.Parsed (d : Descriptor) : Prop :=
  ∃ (ε : Type) (eval : Bytes → Traced ε Int64) (text : Bytes),
    (parse eval text).result = .ok d

end Constant

namespace Literal

/-- The boundary of so many octets: the largest of eight, four, two and one that
divides their number, and one if there are none. -/
def BoundaryOf (length boundary : Nat) : Prop :=
  if length = 0 then boundary = 1
  else boundary ∈ [8, 4, 2, 1] ∧ boundary ∣ length ∧
    ∀ other ∈ [8, 4, 2, 1], other ∣ length → other ≤ boundary

instance (length boundary : Nat) : Decidable (BoundaryOf length boundary) := by
  unfold BoundaryOf
  infer_instance

/-- **A literal is in the group of its boundary.** -/
theorem boundaryOf_iff {length boundary : Nat} : BoundaryOf length boundary ↔
    boundary = group length := by
  unfold BoundaryOf
  split
  · rename_i hzero
    rw [hzero]
    rfl
  · rename_i hne
    have hdvd : ∀ other ∈ [8, 4, 2, 1], other ∣ 8 := by decide
    have hlargest : ∀ other ∈ [8, 4, 2, 1],
        other ∣ length → other ≤ group length :=
      fun other hother h =>
        Nat.le_of_dvd (Nat.pos_of_dvd_of_pos (group_dvd length) (by decide))
        (dvd_group (hdvd other hother) h hne)
    constructor
    · rintro ⟨hmem, h, hmax⟩
      exact Nat.le_antisymm (hlargest boundary hmem h)
        (hmax _ (group_mem length) (group_dvd_length length))
    · rintro rfl
      exact ⟨group_mem length, group_dvd_length length, hlargest⟩

end Literal

namespace LiteralPool

/-- Literals that stand one behind the other from a location on, up to another
one. -/
def Consecutive (start : Int) : List Literal → Int → Prop
  | [], stop => stop = start
  | l :: rest,
    stop => (∃ spot, l.place = some spot ∧ spot.address.toInt = start) ∧
      Consecutive (start + l.length) rest stop

/-- How the literals that waited are laid out from a location on. -/
structure LaidOut (waiting : List Literal) (start : Int)
    (f : Flushed) : Prop where
  perm : (f.placed.map fun l => { l with place := none }).Perm waiting
  /-- The greatest boundary comes first. -/
  descending : f.placed.Pairwise fun a b => ∀ m n,
    Literal.BoundaryOf a.length m →
    Literal.BoundaryOf b.length n → n ≤ m
  /-- Literals of one boundary are in the order of their first use. -/
  firstUse : ∀ boundary,
    ((f.placed.filter (Literal.BoundaryOf ·.length boundary)).map
      fun l => { l with place := none }) =
        waiting.filter (Literal.BoundaryOf ·.length boundary)
  consecutive : Consecutive start f.placed f.behind.toInt
  behind : f.behind.toInt = start + ((waiting.map Literal.length).sum : Nat)
  aligned : ∀ l ∈ f.placed, ∀ spot, l.place = some spot → ∃ boundary : Nat,
    spot.boundary = Int64.ofNat boundary ∧
      Literal.BoundaryOf l.length boundary ∧
      (boundary : Int) ∣ spot.address.toInt ∧
      ∀ d, l.descriptor = some d → d.Parsed → 0 < d.size →
        (d.alignment : Int) ∣ spot.address.toInt

/-! ### Placing -/

/-- **Placed literals stand one behind the other**, as long as the last one ends
in range. -/
theorem consecutive_placeFrom {literals : List Literal} {loc : Int64}
    (hloc : 0 ≤ loc.toInt)
    (hroom : loc.toInt + ((literals.map Literal.length).sum : Nat) < 2 ^ 63) :
    Consecutive loc.toInt (placeFrom loc literals).1
      (placeFrom loc literals).2.toInt ∧
      (placeFrom loc literals).2.toInt = loc.toInt +
        ((literals.map Literal.length).sum : Nat) := by
  induction literals generalizing loc with
  | nil => simp [placeFrom, Consecutive]
  | cons first rest ih =>
      rw [List.map_cons, List.sum_cons] at hroom
      have hlength : (Int64.ofNat first.length).toInt = first.length :=
        Int64.toInt_ofNat_of_lt (by omega)
      have hnext : (loc + Int64.ofNat first.length).toInt =
          loc.toInt + first.length := by
        rw [toInt_add_of_range (by omega) (by omega), hlength]
      obtain ⟨hrest, hbehind⟩ :=
        @ih (loc + Int64.ofNat first.length) (by omega) (by omega)
      rw [hnext] at hrest hbehind
      refine ⟨⟨⟨_, rfl, rfl⟩, hrest⟩, ?_⟩
      rw [List.map_cons, List.sum_cons]
      show (placeFrom (loc + Int64.ofNat first.length) rest).2.toInt = _
      omega

/-- A group holds its literals in the order that they had. -/
theorem filter_grouped (boundary : Nat) (literals : List Literal) :
    (grouped literals).filter (Literal.group ·.length = boundary) =
      literals.filter (Literal.group ·.length = boundary) := by
  have hgroup : ∀ m, (literals.filter (Literal.group ·.length = m)).filter
      (Literal.group ·.length = boundary) =
        if m = boundary then
          literals.filter (Literal.group ·.length = boundary) else [] := by
    intro m
    rw [List.filter_filter]
    split
    · rename_i hsame
      rw [hsame]
      simp
    · rename_i hne
      rw [List.filter_eq_nil_iff]
      intro l _ hboth
      simp only [Bool.and_eq_true, decide_eq_true_eq] at hboth
      exact hne (hboth.2.symm.trans hboth.1)
  unfold grouped
  rw [List.filter_flatMap]
  simp only [hgroup, List.flatMap_cons, List.flatMap_nil]
  by_cases hmem : boundary ∈ [8, 4, 2, 1]
  · simp only [List.mem_cons, List.not_mem_nil, or_false] at hmem
    rcases hmem with rfl | rfl | rfl | rfl <;> simp
  · have hnone : literals.filter (Literal.group ·.length = boundary) = [] := by
      rw [List.filter_eq_nil_iff]
      intro l _ hl
      exact hmem ((of_decide_eq_true hl) ▸ Literal.group_mem l.length)
    simp [hnone]

/-- A pool ends behind its last literal. -/
theorem behind_flush_eq (p : LiteralPool) (sectionId : Int) (loc : Int64)
    (hne : p.waiting sectionId ≠ []) :
    (p.flush sectionId loc).behind =
      (placeFrom (alignUp loc 8) (grouped (p.waiting sectionId))).2 := by
  rw [flush_of_ne hne]

/-! ### Flushing -/

variable {p : LiteralPool} {sectionId : Int} {loc : Int64}

/-- A placed literal is on the boundary of its group, and on that of its
constant. -/
theorem aligned_flush {l : Literal} (hl : l ∈ (p.flush sectionId loc).placed)
    {spot : Literal.Place} (hspot : l.place = some spot) :
    spot.boundary = Int64.ofNat (Literal.group l.length) ∧
      OnBoundary (Literal.group l.length) spot.address ∧
      ∀ d, l.descriptor = some d → d.Parsed → 0 < d.size →
        OnBoundary d.alignment spot.address := by
  rw [placed_flush_eq] at hl
  obtain ⟨hboundary, haddress⟩ :=
    aligned_placeFrom (grouped_sorted (p.waiting sectionId))
      (fun _ _ => (OnBoundary.of_alignUp (Nat.dvd_refl 8) loc).mono
        (Literal.group_dvd _)) l hl spot hspot
  refine ⟨hboundary, haddress, fun d hd hparsed hsize => haddress.mono ?_⟩
  -- the boundary of a constant divides its size, so the group has at least that
  -- boundary
  obtain ⟨ε, eval, text, hparse⟩ := hparsed
  have hlength : l.length = d.size := by simp [Literal.length, hd]
  rw [hlength]
  exact Literal.dvd_group d.alignment_dvd
    (Constant.parse_sound hparse).whole (by omega)

/-- **The layout of a pool.**  Flushing a section without waiting literals
changes nothing.  Otherwise the literals that waited stand one behind the other
from the next doubleword on, in the order of their boundaries and, within a
boundary, of their first use, and each of them is on its boundary and on that of
its constant. -/
theorem pool_layout (p : LiteralPool) (sectionId : Int) (loc : Int64) :
    (p.waiting sectionId = [] → p.flush sectionId loc = ⟨p, [], loc⟩) ∧
      (p.waiting sectionId ≠ [] → 0 ≤ loc.toInt →
        roundUp loc.toInt +
          (((p.waiting sectionId).map Literal.length).sum : Nat) < 2 ^ 63 →
        LaidOut (p.waiting sectionId) (roundUp loc.toInt)
          (p.flush sectionId loc)) := by
  refine ⟨fun hnil => flush_of_nil hnil loc, fun hne hloc hroom => ?_⟩
  have hstart : (alignUp loc 8).toInt = roundUp loc.toInt :=
    toInt_alignUp hloc (by omega)
  have hsum : ((grouped (p.waiting sectionId)).map Literal.length).sum =
      ((p.waiting sectionId).map Literal.length).sum :=
    ((perm_grouped _).map _).sum_eq
  obtain ⟨hconsecutive, hbehind⟩ := @consecutive_placeFrom
    (grouped (p.waiting sectionId)) (alignUp loc 8)
    (by have := (roundUp_bounds loc.toInt).1; omega) (by omega)
  have hunplaced := unplaced_placed p sectionId loc
  refine ⟨perm_placed p sectionId loc, ?_, fun boundary => ?_, ?_, ?_,
    fun l hl spot hspot => ?_⟩
  · -- the groups of the placed literals are those of the grouped ones
    have hsorted := grouped_sorted (p.waiting sectionId)
    rw [← hunplaced, List.pairwise_map] at hsorted
    refine hsorted.imp fun {a b} hdvd m n hm hn => ?_
    rw [Literal.boundaryOf_iff.mp hm, Literal.boundaryOf_iff.mp hn]
    exact Nat.le_of_dvd
      (Nat.pos_of_dvd_of_pos (Literal.group_dvd _) (by decide)) hdvd
  · have hgroup : ∀ l : Literal, decide (Literal.BoundaryOf l.length boundary) =
        decide (Literal.group l.length = boundary) := fun l =>
      decide_eq_decide.mpr (Literal.boundaryOf_iff.trans eq_comm)
    simp only [hgroup]
    rw [← filter_grouped boundary (p.waiting sectionId), ← hunplaced,
      List.filter_map]
    rfl
  · rw [placed_flush_eq, behind_flush_eq p sectionId loc hne, ← hstart]
    exact hconsecutive
  · rw [behind_flush_eq p sectionId loc hne, hbehind, hstart, hsum]
  · obtain ⟨hboundary, haddress, hconstant⟩ := aligned_flush hl hspot
    exact ⟨_, hboundary, Literal.boundaryOf_iff.mpr rfl, haddress, hconstant⟩

/-- A pool in which some texts wait as literals of the first section. -/
def ofTexts (texts : List Bytes) : LiteralPool :=
  after { limit := texts.length } (texts.map fun text =>
    .intern 1 text (Constant.parseClosed text.tail).toOption 1)

/-- Flushed at 13, a pool begins at 16.  Two copies of a word make a doubleword,
and three octets need no boundary. -/
theorem pool_layout_mixed :
    let p := ofTexts [bytes "=C'A'", bytes "=H'1'", bytes "=F'1'",
      bytes "=2F'1'", bytes "=XL3'1'"]
    (p.waiting 1).length = 5 ∧
      (∀ l ∈ p.waiting 1, ∃ d, l.descriptor = some d ∧ d.Parsed) ∧
      LaidOut (p.waiting 1) 16 (p.flush 1 13) ∧
      (p.flush 1 13).placed.map (fun l => (l.text, l.place)) =
        [(bytes "=2F'1'", some ⟨16, 8⟩), (bytes "=F'1'", some ⟨24, 4⟩),
          (bytes "=H'1'", some ⟨28, 2⟩), (bytes "=C'A'", some ⟨30, 1⟩),
          (bytes "=XL3'1'", some ⟨31, 1⟩)] ∧
      (p.flush 1 13).behind = 34 := by
  intro p
  have hlength : (p.waiting 1).length = 5 := by decide +kernel
  have hdescribed : ∀ l ∈ p.waiting 1,
      (Constant.parseClosed l.text.tail).toOption.isSome = true ∧
      l.descriptor = (Constant.parseClosed l.text.tail).toOption := by
    decide +kernel
  refine ⟨hlength, fun l hl => ?_, ?_, by decide +kernel, by decide +kernel⟩
  · obtain ⟨hsome, hdescriptor⟩ := hdescribed l hl
    cases hparse : Constant.parseClosed l.text.tail with
    | error e => simp [hparse, Except.toOption] at hsome
    | ok d => exact ⟨d, by rw [hdescriptor, hparse]; rfl, _, _, _, hparse⟩
  · have hne : p.waiting 1 ≠ [] := fun hnil => by simp [hnil] at hlength
    exact (pool_layout p 1 13).2 hne (by decide) (by decide +kernel)

end LiteralPool

end System370
