import Mathlib.Algebra.BigOperators.Ring.List
import Mathlib.Algebra.Order.BigOperators.Group.List
import System370.Proofs.LinkedTable

/-!
# The layout of the sections

Placing a table puts its control sections one behind the other.  Rounding up is
written with integers here (`roundUp`), so that the layout can be said without
wrapping: as long as the rounded lengths of all sections together stay in the
range of a word, `alignUp` is `roundUp`, and the base of a section is the sum of
the rounded lengths in front of it.

* `SymbolTable.toInt_base_layOut`: where a section is placed;
* `SymbolTable.ids_numberExternals`: external names that are no sections are
  numbered in order;
* `SymbolTable.WellFormed.arranged`: what placing makes of sections, external
  names and symbols;
* `Program.sections_arranged`: so it is for every table that the statements of a
  program leave.
-/

namespace System370

/-! ### Rounding up -/

/-- The first multiple of eight from `n` upwards. -/
def roundUp (n : Int) : Int := (n + 7) / 8 * 8

/-- Rounding up to a doubleword adds less than eight. -/
theorem roundUp_bounds (n : Int) : n ≤ roundUp n ∧ roundUp n < n + 8 ∧
    (8 : Int) ∣ roundUp n := by
  unfold roundUp
  exact ⟨by omega, by omega, Int.dvd_mul_left _ _⟩

/-- A multiple of eight in front stays as it is. -/
theorem roundUp_add {n : Int} (h : (8 : Int) ∣ n) (m : Int) :
    roundUp (n + m) = n + roundUp m := by
  unfold roundUp
  omega

/-- **Aligning is rounding up**, if the multiple of eight is in range. -/
theorem toInt_alignUp {n : Int64} (hn : 0 ≤ n.toInt)
    (hroom : roundUp n.toInt < 2 ^ 63) :
    (alignUp n 8).toInt = roundUp n.toInt := by
  have height : (8 : Int64).toInt = 8 := by decide
  have hrem : (n % 8).toInt = n.toInt % 8 := by
    rw [Int64.toInt_mod, height, Int.tmod_eq_emod_of_nonneg hn]
  unfold alignUp roundUp at *
  rw [if_neg (by decide)]
  split
  · rename_i hzero
    rw [hzero, Int64.toInt_zero] at hrem
    omega
  · rename_i hne
    have hpos : n.toInt % 8 ≠ 0 :=
      fun h => hne (by rw [← Int64.toInt_inj, hrem, h, Int64.toInt_zero])
    have hgap : (8 - n % 8).toInt = 8 - n.toInt % 8 := by
      rw [toInt_sub_of_range (by omega) (by omega), hrem, height]
    have hsum : n + 8 - n % 8 = n + (8 - n % 8) := by grind
    rw [hsum, toInt_add_of_range (by omega) (by omega), hgap]
    omega

/-- The room that a section takes in front of another one. -/
def Section.room (s : Section) : Int := roundUp s.length.toInt

namespace SymbolTable

variable {t : SymbolTable}

/-! ### Bases -/

section Bases

variable {base : Int64} {sections : List Section}

/-- Sections take room. -/
theorem room_nonneg (hlengths : ∀ s ∈ sections, 0 ≤ s.length.toInt) :
    0 ≤ (sections.map Section.room).sum := by
  refine List.sum_nonneg fun room hroom => ?_
  obtain ⟨s, hs, rfl⟩ := List.mem_map.mp hroom
  exact Int.le_trans (hlengths s hs) (roundUp_bounds _).1

/-- Sections take doublewords. -/
theorem dvd_room (sections : List Section) :
    (8 : Int) ∣ (sections.map Section.room).sum := by
  refine List.dvd_sum fun room hroom => ?_
  obtain ⟨s, -, rfl⟩ := List.mem_map.mp hroom
  exact (roundUp_bounds _).2.2

/-- The room of the sections up to one of them. -/
theorem room_take_succ {i : Nat} {s : Section} (hs : sections[i]? = some s) :
    ((sections.take (i + 1)).map Section.room).sum =
      ((sections.take i).map Section.room).sum + s.room := by
  rw [List.take_add_one, hs]
  simp

/-- The sections up to one of them do not take more room than all. -/
theorem room_take_le (hlengths : ∀ s ∈ sections, 0 ≤ s.length.toInt) (i : Nat) :
    ((sections.take i).map Section.room).sum ≤
      (sections.map Section.room).sum := by
  have hrest := room_nonneg fun s (hs : s ∈ sections.drop i) =>
    hlengths s (List.mem_of_mem_drop hs)
  conv => rhs; rw [← List.take_append_drop i sections, List.map_append,
    List.sum_append]
  omega

/-- **The base of a section** is the sum of the rounded lengths in front of it,
if they are all in range together. -/
theorem toInt_base_layOut (hbase : 0 ≤ base.toInt)
    (haligned : (8 : Int) ∣ base.toInt)
    (hlengths : ∀ s ∈ sections, 0 ≤ s.length.toInt)
    (hroom : base.toInt + (sections.map Section.room).sum < 2 ^ 63) {i : Nat}
    {s : Section} (hs : (layOut base sections)[i]? = some s) :
    s.base.toInt = base.toInt + ((sections.take i).map Section.room).sum := by
  induction sections generalizing base i with
  | nil => simp [layOut] at hs
  | cons first rest ih =>
      obtain ⟨hfirst, hrest⟩ := List.forall_mem_cons.mp hlengths
      have hothers := room_nonneg hrest
      rw [List.map_cons, List.sum_cons] at hroom
      cases i with
      | zero =>
          obtain rfl : { first with base } = s := by simpa [layOut] using hs
          simp
      | succ i =>
          -- the next base is the rounded end of the first section
          have hbounds := roundUp_bounds first.length.toInt
          have hend : (base + first.length).toInt =
              base.toInt + first.length.toInt := by
            have hroom' : first.room = roundUp first.length.toInt := rfl
            exact toInt_add_of_range (by omega) (by omega)
          have hnext : (alignUp (base + first.length) 8).toInt =
              base.toInt + first.room := by
            have hround : roundUp (base + first.length).toInt =
                base.toInt + first.room := by
              rw [hend, roundUp_add haligned, Section.room]
            rw [toInt_alignUp (by omega) (by omega), hround]
          have hpos : 0 ≤ first.room := Int.le_trans hfirst hbounds.1
          have hmultiple : (8 : Int) ∣ first.room := hbounds.2.2
          rw [ih (by omega) (hnext ▸ Int.dvd_add haligned hmultiple)
            hrest (by omega)
            (by simpa [layOut] using hs), hnext, List.take_succ_cons,
            List.map_cons, List.sum_cons]
          omega

end Bases

/-! ### External names -/

/-- **External names without a section of their name** are numbered one after
the other. -/
theorem ids_numberExternals (hcontrol : ∀ s ∈ t.sections, 0 < s.id)
    (hdummy : ∀ s ∈ t.dummies, ¬ 0 < s.id) {externals : List ExternalName}
    (hnamed : ∀ e ∈ externals, e.name ≠ []) (next : Int) :
    ((t.numberExternals next externals).filter fun e =>
      (t.namesake? e.name).isNone).map (·.id) =
      (List.range (externals.countP fun e => (t.namesake? e.name).isNone)).map
        fun i : Nat => next + i := by
  induction externals generalizing next with
  | nil => rfl
  | cons first rest ih =>
      obtain ⟨hname, hrest⟩ := List.forall_mem_cons.mp hnamed
      have hfilter := filter_sectionOfLabel? hcontrol hdummy hname
      unfold numberExternals
      rw [hfilter]
      cases hs : t.namesake? first.name with
      | some s => simp [hs, ih hrest]
      | none =>
          have hshift : (fun i : Nat => next + 1 + i) =
              (fun i : Nat => next + i) ∘ Nat.succ := by
            funext i
            simp only [Function.comp_apply, Nat.succ_eq_add_one,
              Int.natCast_add]
            omega
          simp [hs, ih hrest, List.range_succ_eq_map, hshift]

/-! ### The placed table -/

/-- What placing makes of a table. -/
structure Arranged (t u : SymbolTable) : Prop where
  /-- The sections keep their order, their numbers and everything else but their
  bases. -/
  kept : u.sections.length = t.sections.length ∧ ∀ (i : Nat) s,
    u.sections[i]? = some s →
    s.id = i + 1 ∧ ∃ s₀, t.sections[i]? = some s₀ ∧
      s = { s₀ with base := s.base }
  first : ∀ s, u.sections[0]? = some s → s.base = 0
  next : ∀ (i : Nat) s s',
    u.sections[i]? = some s → u.sections[i + 1]? = some s' →
    s'.base.toInt = roundUp (s.base.toInt + s.length.toInt)
  aligned : ∀ s ∈ u.sections, (8 : Int) ∣ s.base.toInt
  /-- The octets of a section come before those of the sections behind it. -/
  apart : u.sections.Pairwise fun s s' => s.base.toInt + s.length.toInt ≤
    s'.base.toInt
  inside : ∀ s ∈ u.sections, 0 ≤ s.base.toInt ∧ 0 ≤ s.length.toInt ∧
    s.base.toInt + s.length.toInt ≤ u.size.toInt
  /-- Fewer than eight octets between two sections belong to none. -/
  dense : ∀ (i : Nat) s s',
    u.sections[i]? = some s → u.sections[i + 1]? = some s' →
    s'.base.toInt < s.base.toInt + s.length.toInt + 8
  names : u.externals.map (·.name) = t.externals.map (·.name)
  inner : ∀ e ∈ u.externals, ∀ s, u.namesake? e.name = some s → e.id = s.id ∧
    e.sectionId = s.id
  /-- The other external names have the numbers behind those of the sections, in
  their order. -/
  outer : (u.externals.filter fun e => (u.namesake? e.name).isNone).map (·.id) =
    (List.range (u.externals.countP fun e => (u.namesake? e.name).isNone)).map
      fun i : Nat => (u.sections.length + 1 : Int) + i
  /-- A value is moved by the bases of its sections, each as often as the value
  has it. -/
  moved : ∀ name,
    u.definition? name = (t.definition? name).map fun d => { d with
    value := ⟨d.value.number +
      Value.sumAt (fun target => u.offset target.sectionId) d.value.terms,
      d.value.terms⟩ }
  again : u.normalize = u

/-- Sections are arranged once. -/
theorem Numbered.normalize_normalize (h : t.Numbered) :
    t.normalize.normalize = t.normalize := by
  have hnormalized : t.normalize.normalized = true := by rw [h.normalize_eq]
  conv => lhs; rw [normalize, if_pos hnormalized]

theorem Numbered.length_nonneg (h : t.Numbered) {s : Section}
    (hs : s ∈ t.sections) :
    0 ≤ s.length.toInt :=
  (nonneg_iff _).mp (h.bounded _ s (h.section?_of_mem hs).2).1

/-- Placing changes the base of a section, and no more. -/
theorem Numbered.getElem?_sections (h : t.Numbered) {i : Nat} {s : Section}
    (hs : t.normalize.sections[i]? = some s) :
    ∃ s₀, t.sections[i]? = some s₀ ∧ s = { s₀ with base := s.base } :=
  getElem?_layOut (h.sections_normalize ▸ hs)

section Room

variable (h : t.Numbered) (hroom : (t.sections.map Section.room).sum < 2 ^ 63)
variable {i : Nat} {s s' : Section}
include h hroom

/-- A section begins behind the room of those in front. -/
theorem Numbered.toInt_base (hs : t.normalize.sections[i]? = some s) :
    s.base.toInt = ((t.sections.take i).map Section.room).sum := by
  have hbase :=
    toInt_base_layOut (by decide) (by decide) (fun _ => h.length_nonneg)
      (by simpa using hroom) (h.sections_normalize ▸ hs)
  simpa using hbase

theorem Numbered.dvd_base (hs : t.normalize.sections[i]? = some s) :
    (8 : Int) ∣ s.base.toInt :=
  h.toInt_base hroom hs ▸ dvd_room _

/-- A section begins at the doubleword behind the one in front. -/
theorem Numbered.toInt_base_succ (hs : t.normalize.sections[i]? = some s)
    (hs' : t.normalize.sections[i + 1]? = some s') :
    s'.base.toInt = roundUp (s.base.toInt + s.length.toInt) := by
  obtain ⟨s₀, hs₀, heq⟩ := h.getElem?_sections hs
  have hlength : s.room = s₀.room := by rw [heq]; rfl
  rw [roundUp_add (h.dvd_base hroom hs), h.toInt_base hroom hs',
    room_take_succ hs₀, h.toInt_base hroom hs, ← hlength]
  rfl

theorem Numbered.basesInRange : t.normalize.BasesInRange := by
  intro s hs
  obtain ⟨i, hi⟩ := List.getElem?_of_mem hs
  obtain ⟨s₀, hs₀, heq⟩ := h.getElem?_sections hi
  have hlength : s.length = s₀.length := by rw [heq]
  have hbefore := room_nonneg fun s (hs : s ∈ t.sections.take i) =>
    h.length_nonneg (List.mem_of_mem_take hs)
  have hbehind := room_take_le (fun _ => h.length_nonneg) (i + 1)
  have hroom₀ : s₀.length.toInt ≤ s₀.room := (roundUp_bounds _).1
  rw [room_take_succ hs₀] at hbehind
  rw [h.toInt_base hroom hi, hlength]
  exact ⟨hbefore, by omega⟩

/-- Every section is inside the program. -/
theorem Numbered.section_inside (hs : s ∈ t.normalize.sections) :
    0 ≤ s.base.toInt ∧ 0 ≤ s.length.toInt ∧
      s.base.toInt + s.length.toInt ≤ t.normalize.size.toInt := by
  have hrange := h.basesInRange hroom
  obtain ⟨i, hi⟩ := List.getElem?_of_mem hs
  obtain ⟨s₀, hs₀, heq⟩ := h.getElem?_sections hi
  have hlength : s.length = s₀.length := by rw [heq]
  refine ⟨(hrange s hs).1, ?_, h.high_le_size hrange hs⟩
  rw [hlength]
  exact h.length_nonneg (List.mem_of_getElem? hs₀)

end Room

/-- An external name with a section of its name has the number of that
section. -/
theorem WellFormed.id_of_namesake (h : t.WellFormed)
    {e : ExternalName} (he : e ∈ t.normalize.externals)
    {s : Section} (hs : t.normalize.namesake? e.name = some s) :
    e.id = s.id ∧ e.sectionId = s.id := by
  obtain ⟨u, hexternals, hsame, hcontrol, hdummy⟩ := h.externals_normalize
  rw [hexternals] at he
  rw [namesake?, hsame] at hs
  rcases mem_numberExternals hcontrol hdummy h.linked.named he with
    ⟨s', hs', hid, hsection⟩ | ⟨hnone, -⟩
  · obtain rfl := Option.some.inj (hs.symm.trans hs')
    exact ⟨hid, hsection⟩
  · rw [namesake?, hs] at hnone
    cases hnone

/-- The external names without one are numbered behind the sections. -/
theorem WellFormed.ids_of_not_namesake (h : t.WellFormed) :
    (t.normalize.externals.filter fun e =>
      (t.normalize.namesake? e.name).isNone).map (·.id) =
      (List.range (t.normalize.externals.countP fun e =>
        (t.normalize.namesake? e.name).isNone)).map
        fun i : Nat => (t.normalize.sections.length + 1 : Int) + i := by
  obtain ⟨u, hexternals, hsame, hcontrol, hdummy⟩ := h.externals_normalize
  have hnamesake : ∀ name, t.normalize.namesake? name = u.namesake? name := by
    intro name
    rw [namesake?, namesake?, hsame]
  -- whether a name is that of a section does not depend on the numbers
  have hcount : ∀ names : List ExternalName,
      names.countP (fun e => (u.namesake? e.name).isNone) =
      (names.map (·.name)).countP fun name => (u.namesake? name).isNone := by
    intro names
    rw [List.countP_map]
    rfl
  simp only [hnamesake]
  rw [hexternals,
    ids_numberExternals hcontrol hdummy fun e he => (h.linked.named e he).1,
    h.numbered.sections_normalize, length_layOut, hcount,
    hcount (u.numberExternals _ _), names_numberExternals]

/-- **Placing arranges a table**, if its sections fit the range of a word. -/
theorem WellFormed.arranged (h : t.WellFormed)
    (hroom : (t.sections.map Section.room).sum < 2 ^ 63) :
    t.Arranged t.normalize where
  kept := ⟨by rw [h.numbered.sections_normalize, length_layOut], fun i s hs =>
      ⟨h.numbered.control_normalize i s hs, h.numbered.getElem?_sections hs⟩⟩
  first := fun s hs => by
    rw [← Int64.toInt_inj, h.numbered.toInt_base hroom hs]
    rfl
  next := fun _ _ _ => h.numbered.toInt_base_succ hroom
  aligned := fun s hs => by
    obtain ⟨i, hi⟩ := List.getElem?_of_mem hs
    exact h.numbered.dvd_base hroom hi
  apart := h.numbered.sections_pairwise (h.numbered.basesInRange hroom)
  inside := fun _ => h.numbered.section_inside hroom
  dense := fun i s s' hs hs' => by
    rw [h.numbered.toInt_base_succ hroom hs hs']
    exact (roundUp_bounds _).2.1
  names := by
    obtain ⟨u, hexternals, -⟩ := h.externals_normalize
    rw [hexternals, names_numberExternals]
  inner := fun _ he _ => h.id_of_namesake he
  outer := h.ids_of_not_namesake
  moved := fun name => by
    rw [definition?_normalize h.numbered.unplaced]
    congr 1
    funext d
    rw [← number_relocate]
    rfl
  again := h.numbered.normalize_normalize

end SymbolTable

namespace Program

/-- **The layout of the sections of a program.**  When the statements are laid
out, and the lengths of the control sections, each rounded up to doublewords,
are in the range of a word together, the sections are placed on doublewords one
behind the other, without more room between them than the rounding takes.
External names have the number of the section of their name or a number of their
own behind the sections, and every definition moves with its sections, once. -/
theorem sections_arranged (options : Options) (statements : List Statement)
    (hroom : ((unplaced options statements).layout.symbols.sections.map
      Section.room).sum < 2 ^ 63) :
    (unplaced options statements).layout.symbols.Arranged
      (unplaced options statements).layout.symbols.normalize :=
  (unplaced_spec options statements).1.symbols.arranged hroom

/-- Three sections, the last one empty, and a difference across sections.  One
of the external names is a section after all. -/
theorem sections_arranged_three :
    ∃ statements, Statement.readAll
      (bytes (String.append
        "A CSECT\n DS CL13\nA1 EQU *-1\nB CSECT\n DS CL3\nB1 EQU *\n"
        "DIFF EQU B1-A1\n EXTRN X\n DC V(B,Y)\nC CSECT\n END\n")) = .ok statements ∧
      ((unplaced {} statements).layout.symbols.sections.map Section.room).sum =
        16 + 16 + 0 ∧
      (unplaced {} statements).layout.symbols.Arranged
        (unplaced {} statements).layout.symbols.normalize ∧
      (unplaced {} statements).layout.symbols.normalize.sections.map
        (fun s => (s.base, s.length)) =
        [(0, 13), (16, 12), (32, 0)] ∧
      (unplaced {} statements).layout.symbols.normalize.externals.map
        (fun e => (e.name, e.id)) =
        [(bytes "X", 4), (bytes "B", 2), (bytes "Y", 5)] ∧
      [bytes "A1", bytes "B1", bytes "DIFF"].map (fun name =>
        ((unplaced {} statements).layout.symbols.normalize.definition? name).map
            (·.value.number)) =
          [some 12, some 19, some 7] := by
  have hcheck : (Statement.readAll (bytes (String.append
      "A CSECT\n DS CL13\nA1 EQU *-1\nB CSECT\n DS CL3\nB1 EQU *\n"
      "DIFF EQU B1-A1\n EXTRN X\n DC V(B,Y)\nC CSECT\n END\n"))
      |>.toOption.any fun statements =>
        decide (((unplaced {} statements).layout.symbols.sections.map
          Section.room).sum = 16 + 16 + 0 ∧
        (unplaced {} statements).layout.symbols.normalize.sections.map
          (fun s => (s.base, s.length)) =
          [(0, 13), (16, 12), (32, 0)] ∧
        (unplaced {} statements).layout.symbols.normalize.externals.map
          (fun e => (e.name, e.id)) =
          [(bytes "X", 4), (bytes "B", 2), (bytes "Y", 5)] ∧
        [bytes "A1", bytes "B1", bytes "DIFF"].map (fun name =>
          ((unplaced {} statements).layout.symbols.normalize.definition?
              name).map (·.value.number)) =
            [some 12, some 19, some 7])) = true := by
    decide +kernel
  obtain ⟨statements, hread, hcheck⟩ := exists_ok_of_any hcheck
  obtain ⟨hroom, hbases, hids, hnumbers⟩ := of_decide_eq_true hcheck
  exact ⟨statements, hread, hroom,
    sections_arranged {} statements (by rw [hroom]; decide), hbases, hids,
    hnumbers⟩

end Program

end System370
