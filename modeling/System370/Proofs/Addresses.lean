import System370.Proofs.ProgramLayout

/-!
# Addresses

When all statements are laid out, the control sections are placed one behind the
other, and records, literals and symbols move along with their sections.  This
file says what becomes of a record:

* `Program.normalize_constants`: its constants keep their offsets;
* `Program.InRange.inside`: it stays inside its section, if no location wrapped;
* `SymbolTable.Numbered.apart`: sections do not overlap, if no base wrapped.

Sums of locations wrap at 64 bits, and a wrapped location is negative, because
every step forward is short.  `Program.InRange` therefore says of the locations
themselves that none of them wrapped.
-/

namespace System370

/-! ### Moved literals -/

/-- A literal moved by a base, once it has its place. -/
def Literal.moved (literal : Literal) (base : Int64) : Literal :=
  { literal with
    place := literal.place.map fun spot =>
      { spot with address := spot.address + base } }

section

variable (literal : Literal) (base : Int64)

@[simp] theorem Literal.place_moved : (literal.moved base).place =
    literal.place.map fun spot =>
      { spot with address := spot.address + base } := rfl

@[simp] theorem Literal.descriptor_moved :
    (literal.moved base).descriptor = literal.descriptor := rfl

@[simp] theorem Literal.length_moved :
    (literal.moved base).length = literal.length := rfl

@[simp] theorem Literal.moved_zero : literal.moved 0 = literal := by
  simp [moved]

end

/-- Each literal moves with its section. -/
theorem LiteralPool.getElem?_relocate (p : LiteralPool) (base : Int → Int64)
    (id : Nat) :
    (p.relocate base).literals[id]? =
      (p.literals[id]?).map fun literal =>
        literal.moved (base literal.sectionId) :=
  List.getElem?_map ..

/-! ### Chains of constants as integers -/

/-- **Constants stand one behind the other**, if no offset is negative.  Each of
them is too short to wrap around into the positive range. -/
theorem Chain.bounds {start stop : Int64}
    {parts : List (Constant.Descriptor × Int64)} (h : Chain start parts stop)
    (hstart : 0 ≤ start.toInt)
    (hstop : 0 ≤ stop.toInt) (hparts : ∀ c ∈ parts, 0 ≤ c.2.toInt)
    (hsizes : ∀ c ∈ parts, c.1.size ≤ Constant.maxSize) :
    start.toInt ≤ stop.toInt ∧
      (∀ c ∈ parts,
        start.toInt ≤ c.2.toInt ∧ c.2.toInt + (c.1.size : Int) ≤ stop.toInt) ∧
      parts.Pairwise fun c c' => c.2.toInt + (c.1.size : Int) ≤ c'.2.toInt := by
  induction parts generalizing start with
  | nil =>
      rw [Chain] at h
      subst h
      exact ⟨Int.le_refl _, by simp, List.Pairwise.nil⟩
  | cons part rest ih =>
      obtain ⟨d, offset⟩ := part
      obtain ⟨⟨gap, hlow, hhigh, hgap⟩, hrest⟩ := h
      have hoffset : 0 ≤ offset.toInt := hparts (d, offset) List.mem_cons_self
      have hsize : d.size ≤ 2 ^ 31 := hsizes (d, offset) List.mem_cons_self
      have hword : (Int64.ofNat d.size).toInt = d.size :=
        Int64.toInt_ofNat_of_lt (by omega)
      have hfirst : offset.toInt = start.toInt + gap.toInt := by
        rw [hgap] at hoffset ⊢
        exact toInt_add_of_nonneg hstart hlow hoffset
      -- the end of the first constant is where the rest begins, or before it
      have hend : 0 ≤ (offset + Int64.ofNat d.size).toInt := by
        have hoffset' := offset.toInt_lt
        cases rest with
        | nil =>
            rw [Chain] at hrest
            rw [← hrest]
            exact hstop
        | cons part' rest' =>
            obtain ⟨⟨gap', hlow', hhigh', hgap'⟩, -⟩ := hrest
            have hnext : 0 ≤ part'.2.toInt := hparts part' (by simp)
            have hnext' := part'.2.toInt_lt
            have hleast := (offset + Int64.ofNat d.size).le_toInt
            rw [hgap'] at hnext hnext'
            rcases toInt_add_cases offset (Int64.ofNat d.size) with
              h | h | h <;>
              rcases toInt_add_cases (offset + Int64.ofNat d.size) gap' with
                h' | h' | h' <;> omega
      have hsum : (offset + Int64.ofNat d.size).toInt =
          offset.toInt + d.size := by
        rw [toInt_add_of_nonneg hoffset (by omega) hend, hword]
      obtain ⟨hle, hbounds, hpairwise⟩ := ih hrest hend
        (fun c hc => hparts c (List.mem_cons_of_mem _ hc))
        fun c hc => hsizes c (List.mem_cons_of_mem _ hc)
      rw [hsum] at hle hbounds
      refine ⟨by omega, fun c hc => ?_,
        List.pairwise_cons.mpr ⟨fun c hc => ?_, hpairwise⟩⟩
      · rcases List.mem_cons.mp hc with rfl | hc
        · exact ⟨by simp only; omega, hle⟩
        · have := hbounds c hc
          omega
      · exact (hbounds c hc).1

/-- Constants seen from another location. -/
theorem Chain.shift {start stop : Int64}
    {parts : List (Constant.Descriptor × Int64)} (h : Chain start parts stop)
    (loc : Int64) :
    Chain (loc + start) (parts.map fun c => (c.1, loc + c.2)) (loc + stop) := by
  induction parts generalizing start with
  | nil =>
      rw [Chain] at h
      subst h
      rfl
  | cons part rest ih =>
      obtain ⟨⟨gap, hlow, hhigh, hgap⟩, hrest⟩ := h
      refine ⟨⟨gap, hlow, hhigh, by rw [hgap]; grind⟩, ?_⟩
      have hnext : loc + part.2 + Int64.ofNat part.1.size =
          loc + (part.2 + Int64.ofNat part.1.size) := by grind
      rw [hnext]
      exact ih hrest

/-! ### Placing sections -/

namespace SymbolTable

variable {t : SymbolTable}

/-- Between two statements the length of a section is its highest location. -/
theorem Numbered.freeze_eq (h : t.Numbered) : t.freeze = t := by
  have hfreeze : ∀ s : Section, s.loc ≤ s.length → s.freeze = s := by
    intro s hs
    have hnot : ¬ s.length < s.loc := Int64.not_lt.mpr hs
    simp [Section.freeze, Section.setLoc, hnot]
  have hmodify : ∀ (sections : List Section) (i : Nat),
      (∀ s, sections[i]? = some s → s.loc ≤ s.length) →
        sections.modify i Section.freeze = sections := by
    intro sections i hs
    apply List.ext_getElem?
    intro j
    rw [List.getElem?_modify]
    by_cases hij : i = j
    · subst hij
      cases hi : sections[i]? with
      | none => rfl
      | some s => simp [hfreeze s (hs s hi)]
    · simp [hij]
  unfold freeze modifyCurrent
  cases hcurrent : t.current with
  | none => rfl
  | some id =>
      have hbounded := h.bounded id
      unfold section? at hbounded
      simp only [modifySection]
      split
      · rename_i hpos
        rw [hmodify _ _ fun s hs =>
          (hbounded s (by rw [if_pos hpos]; exact hs)).2]
      · rename_i hpos
        split
        · rename_i hneg
          rw [hmodify _ _ fun s hs =>
            (hbounded s (by rw [if_neg hpos, if_pos hneg]; exact hs)).2]
        · rfl

/-- Sections are moved and none is lost. -/
theorem length_layOut (base : Int64) (sections : List Section) :
    (layOut base sections).length = sections.length := by
  induction sections generalizing base with
  | nil => rfl
  | cons s rest ih => simp [layOut, ih]

/-- A placed section differs from the section in its base only. -/
theorem getElem?_layOut {base : Int64} {sections : List Section} {i : Nat}
    {s : Section} (h : (layOut base sections)[i]? = some s) :
    ∃ s₀, sections[i]? = some s₀ ∧ s = { s₀ with base := s.base } := by
  induction sections generalizing base i with
  | nil => simp [layOut] at h
  | cons first rest ih =>
      cases i with
      | zero =>
          simp only [layOut, List.getElem?_cons_zero, Option.some.injEq] at h
          exact ⟨first, rfl, h ▸ rfl⟩
      | succ i => exact ih (by simpa [layOut] using h)

/-- **Placed sections come one behind the other**, if no base wrapped. -/
theorem layOut_pairwise {base : Int64} {sections : List Section}
    (h : ∀ s ∈ layOut base sections, 0 ≤ s.base.toInt ∧ 0 ≤ s.length.toInt ∧
      s.base.toInt + s.length.toInt < 2 ^ 63) :
    (∀ s ∈ layOut base sections, base.toInt ≤ s.base.toInt) ∧
      (layOut base sections).Pairwise fun s s' =>
        s.base.toInt + s.length.toInt ≤ s'.base.toInt := by
  induction sections generalizing base with
  | nil => exact ⟨by simp [layOut], List.Pairwise.nil⟩
  | cons first rest ih =>
      obtain ⟨hbase, hlength, hrange⟩ :=
        h { first with base } List.mem_cons_self
      simp only at hbase hlength hrange
      have hsum : (base + first.length).toInt =
          base.toInt + first.length.toInt :=
        toInt_add_of_range (by omega) (by omega)
      have hrest : ∀ s ∈ layOut (alignUp (base + first.length) 8) rest,
          0 ≤ s.base.toInt ∧
          0 ≤ s.length.toInt ∧ s.base.toInt + s.length.toInt < 2 ^ 63 :=
        fun s hs => h s (List.mem_cons_of_mem _ hs)
      obtain ⟨hlow, hpairwise⟩ := ih hrest
      -- the base of the next section is the aligned end of the first
      have hbehind : ∀ s ∈ layOut (alignUp (base + first.length) 8) rest,
          base.toInt + first.length.toInt ≤ s.base.toInt := by
        intro s hs
        cases rest with
        | nil => simp [layOut] at hs
        | cons second others =>
            have hup : 0 ≤ (alignUp (base + first.length) 8).toInt :=
              (hrest { second with base := alignUp (base + first.length) 8 }
                List.mem_cons_self).1
            have hle := le_alignUp (by decide) (by omega) hup
            have := hlow s hs
            omega
      refine ⟨fun s hs => ?_, List.pairwise_cons.mpr ⟨hbehind, hpairwise⟩⟩
      rcases List.mem_cons.mp hs with rfl | hs
      · exact Int.le_refl _
      · have := hbehind s hs
        omega

/-! ### The placed table -/

/-- A placed table, but for its external names and symbols. -/
theorem Numbered.normalize_eq (h : t.Numbered) :
    t.normalize = { t with
      normalized := true
      sections := layOut 0 t.sections
      externals :=
        ({ t with normalized := true, sections := layOut 0 t.sections } :
          SymbolTable).numberExternals (t.sections.length + 1) t.externals
      symbols :=
        t.symbols.map fun s => { s with definition := s.definition.map fun d =>
        { d with value :=
            ({ t with normalized := true, sections := layOut 0 t.sections } :
          SymbolTable).relocate d.value } } } := by
  rw [normalize, h.unplaced, h.freeze_eq]
  simp [length_layOut]

/-- External names are numbered and none is lost. -/
theorem names_numberExternals (t : SymbolTable) (next : Int)
    (externals : List ExternalName) :
    (t.numberExternals next externals).map (·.name) =
      externals.map (·.name) := by
  induction externals generalizing next with
  | nil => rfl
  | cons e rest ih =>
      unfold numberExternals
      split <;> simp [ih]

/-- Placing the sections keeps the external names. -/
theorem Numbered.isSome_external?_normalize (h : t.Numbered) (name : Bytes) :
    (t.normalize.external? name).isSome ↔ (t.external? name).isSome := by
  rw [external?_isSome_iff, external?_isSome_iff, h.normalize_eq]
  simp only
  rw [names_numberExternals]

@[simp] theorem Numbered.sections_normalize (h : t.Numbered) :
    t.normalize.sections = layOut 0 t.sections := by
  rw [h.normalize_eq]

/-- The sections keep their numbers when they are placed. -/
theorem Numbered.control_normalize (h : t.Numbered) (i : Nat) (s : Section)
    (hs : t.normalize.sections[i]? = some s) : s.id = i + 1 := by
  rw [h.sections_normalize] at hs
  obtain ⟨s₀, hs₀, heq⟩ := getElem?_layOut hs
  rw [heq]
  exact h.control i s₀ hs₀

/-- A section after placing is the same section at its base. -/
theorem Numbered.section?_normalize (h : t.Numbered) {id : Int} {s : Section}
    (hs : t.normalize.section? id = some s) :
    ∃ s₀, t.section? id = some s₀ ∧ s = { s₀ with base := s.base } := by
  have hdummies : t.normalize.dummies = t.dummies := by rw [h.normalize_eq]
  unfold section? at hs ⊢
  rw [h.sections_normalize, hdummies] at hs
  split
  · rename_i hpos
    rw [if_pos hpos] at hs
    exact getElem?_layOut hs
  · rename_i hpos
    rw [if_neg hpos] at hs
    exact ⟨s, hs, rfl⟩

/-- Every section is there after placing. -/
theorem Numbered.exists_section?_normalize (h : t.Numbered) {id : Int}
    {s₀ : Section} (hs₀ : t.section? id = some s₀) :
    ∃ s, t.normalize.section? id = some s ∧
    s = { s₀ with base := s.base } := by
  have hdummies : t.normalize.dummies = t.dummies := by rw [h.normalize_eq]
  have hexists : ∃ s, t.normalize.section? id = some s := by
    unfold section? at hs₀ ⊢
    rw [h.sections_normalize, hdummies]
    split
    · rename_i hpos
      rw [if_pos hpos] at hs₀
      have hlt := (List.getElem?_eq_some_iff.mp hs₀).1
      rw [← length_layOut 0] at hlt
      exact ⟨_, List.getElem?_eq_getElem hlt⟩
    · rename_i hpos
      rw [if_neg hpos] at hs₀
      exact ⟨s₀, hs₀⟩
  obtain ⟨s, hs⟩ := hexists
  obtain ⟨s₁, hs₁, heq⟩ := h.section?_normalize hs
  rw [hs₀] at hs₁
  obtain rfl := Option.some.inj hs₁
  exact ⟨s, hs, heq⟩

/-- The bounds of a control section; other numbers have none. -/
def low (t : SymbolTable) (id : Int) : Int := (t.offset id).toInt

/-- The address behind a control section. -/
def high (t : SymbolTable) (id : Int) : Int :=
  if 0 < id then
    ((t.section? id).map fun s => s.base.toInt + s.length.toInt).getD 0 else 0

/-- No base of a section wrapped. -/
def BasesInRange (t : SymbolTable) : Prop :=
  ∀ s ∈ t.sections, 0 ≤ s.base.toInt ∧ s.base.toInt + s.length.toInt < 2 ^ 63

instance (t : SymbolTable) : Decidable t.BasesInRange :=
  inferInstanceAs (Decidable (∀ s ∈ t.sections,
    0 ≤ s.base.toInt ∧ s.base.toInt + s.length.toInt < 2 ^ 63))

/-- The addresses of a section are those from its base on. -/
theorem low_eq {id : Int} {s : Section} (hpos : 0 < id)
    (hs : t.section? id = some s) :
    t.low id = s.base.toInt ∧ t.high id = s.base.toInt + s.length.toInt := by
  simp [low, high, offset, hpos, hs]

/-- Bounds between which something is are those of a section. -/
theorem exists_section?_of_low_lt {id : Int} (h : t.low id < t.high id) :
    0 < id ∧ ∃ s, t.section? id = some s := by
  by_cases hpos : 0 < id
  · refine ⟨hpos, ?_⟩
    cases hs : t.section? id with
    | some s => exact ⟨s, rfl⟩
    | none => simp [low, high, offset, hpos, hs] at h
  · simp [low, high, offset, hpos] at h

/-- The sections of a placed table, one behind the other. -/
theorem Numbered.sections_pairwise (h : t.Numbered)
    (hrange : t.normalize.BasesInRange) :
    t.normalize.sections.Pairwise fun s s' => s.base.toInt + s.length.toInt ≤
      s'.base.toInt := by
  have hall : ∀ s ∈ layOut 0 t.sections, 0 ≤ s.base.toInt ∧ 0 ≤ s.length.toInt ∧
      s.base.toInt + s.length.toInt < 2 ^ 63 := by
    intro s hs
    obtain ⟨hlow, hhigh⟩ := hrange s (h.sections_normalize ▸ hs)
    obtain ⟨i, hi⟩ := List.getElem?_of_mem hs
    obtain ⟨s₀, hs₀, heq⟩ := getElem?_layOut hi
    obtain ⟨-, hsection⟩ := h.section?_of_mem (List.mem_of_getElem? hs₀)
    have hlength := (nonneg_iff _).mp (h.bounded _ s₀ hsection).1
    rw [heq] at hhigh ⊢
    exact ⟨heq ▸ hlow, hlength, heq ▸ hhigh⟩
  rw [h.sections_normalize]
  exact (layOut_pairwise hall).2

/-- The section at a position, by its number. -/
theorem Numbered.getElem?_of_section? {id : Int} {s : Section} (hpos : 0 < id)
    (hs : t.section? id = some s) : t.sections[id.toNat - 1]? = some s := by
  rw [section?, if_pos hpos] at hs
  exact hs

/-- **Sections do not overlap**, if no base wrapped. -/
theorem Numbered.apart (h : t.Numbered) (hrange : t.normalize.BasesInRange)
    (i j : Int) (hne : i ≠ j) :
    t.normalize.high i ≤ t.normalize.low j ∨
      t.normalize.high j ≤ t.normalize.low i := by
  have hpairwise := h.sections_pairwise hrange
  -- a number without a section has the empty range at zero
  have hnone : ∀ id, ¬ (0 < id ∧ (t.normalize.section? id).isSome) →
      t.normalize.low id = 0 ∧ t.normalize.high id = 0 := by
    intro id hid
    by_cases hpos : 0 < id
    · have hs : t.normalize.section? id = none := by
        cases hs : t.normalize.section? id with
        | none => rfl
        | some s => simp [hpos, hs] at hid
      simp [low, high, offset, hpos, hs]
    · simp [low, high, offset, hpos]
  have hsome : ∀ id s, 0 < id → t.normalize.section? id = some s →
      0 ≤ t.normalize.low id := by
    intro id s hpos hs
    rw [(low_eq hpos hs).1]
    exact (hrange s
      (List.mem_of_getElem? (Numbered.getElem?_of_section? hpos hs))).1
  have hlow : ∀ id, 0 ≤ t.normalize.low id := by
    intro id
    by_cases hid : 0 < id ∧ (t.normalize.section? id).isSome
    · obtain ⟨s, hs⟩ := Option.isSome_iff_exists.mp hid.2
      exact hsome id s hid.1 hs
    · exact Int.le_of_eq (hnone id hid).1.symm
  by_cases hi : 0 < i ∧ (t.normalize.section? i).isSome
  · by_cases hj : 0 < j ∧ (t.normalize.section? j).isSome
    · obtain ⟨s, hs⟩ := Option.isSome_iff_exists.mp hi.2
      obtain ⟨s', hs'⟩ := Option.isSome_iff_exists.mp hj.2
      have hget := Numbered.getElem?_of_section? hi.1 hs
      have hget' := Numbered.getElem?_of_section? hj.1 hs'
      rw [(low_eq hi.1 hs).1, (low_eq hi.1 hs).2, (low_eq hj.1 hs').1,
        (low_eq hj.1 hs').2]
      obtain ⟨hilt, hieq⟩ := List.getElem?_eq_some_iff.mp hget
      obtain ⟨hjlt, hjeq⟩ := List.getElem?_eq_some_iff.mp hget'
      rw [List.pairwise_iff_getElem] at hpairwise
      rcases Nat.lt_or_gt_of_ne (show i.toNat - 1 ≠ j.toNat - 1 by omega)
        with hlt | hgt
      · left
        rw [← hieq, ← hjeq]
        exact hpairwise _ _ hilt hjlt hlt
      · right
        rw [← hieq, ← hjeq]
        exact hpairwise _ _ hjlt hilt hgt
    · right
      rw [(hnone j hj).2]
      exact hlow i
  · left
    rw [(hnone i hi).2]
    exact hlow j

/-- Every section ends where the program ends, or before. -/
theorem Numbered.high_le_size (h : t.Numbered)
    (hrange : t.normalize.BasesInRange)
    {s : Section} (hs : s ∈ t.normalize.sections) :
    s.base.toInt + s.length.toInt ≤ t.normalize.size.toInt := by
  have hpairwise := h.sections_pairwise hrange
  obtain ⟨last, hlast⟩ : ∃ last, t.normalize.sections.getLast? = some last := by
    cases hlast : t.normalize.sections.getLast? with
    | none => simp [List.getLast?_eq_none_iff.mp hlast] at hs
    | some last => exact ⟨last, rfl⟩
  obtain ⟨init, hinit⟩ := List.getLast?_eq_some_iff.mp hlast
  have hmem : last ∈ t.normalize.sections := by simp [hinit]
  obtain ⟨hbase, hend⟩ := hrange last hmem
  have hlength : 0 ≤ last.length.toInt := by
    rw [h.sections_normalize] at hmem
    obtain ⟨i, hi⟩ := List.getElem?_of_mem hmem
    obtain ⟨s₀, hs₀, heq⟩ := getElem?_layOut hi
    obtain ⟨-, hsection⟩ := h.section?_of_mem (List.mem_of_getElem? hs₀)
    rw [heq]
    exact (nonneg_iff _).mp (h.bounded _ s₀ hsection).1
  have hsize : t.normalize.size.toInt =
      last.base.toInt + last.length.toInt := by
    simp only [size, hlast]
    exact toInt_add_of_range (by omega) (by omega)
  rw [hsize]
  rw [hinit] at hs hpairwise
  rcases List.mem_append.mp hs with hs | hs
  · have hbefore :=
      (List.pairwise_append.mp hpairwise).2.2 s hs last List.mem_cons_self
    omega
  · obtain rfl := List.mem_singleton.mp hs
    exact Int.le_refl _

/-- The base of a section that exists. -/
theorem offset_eq {id : Int} {s : Section} (hpos : 0 < id)
    (hs : t.section? id = some s) :
    t.offset id = s.base := by
  simp [offset, hpos, hs]

end SymbolTable

/-! ### Records -/

namespace Program

/-- No location that the layout of a program computed wrapped.  A location that
does is negative. -/
structure InRange (p : Program) : Prop where
  records : ∀ r ∈ p.records, 0 ≤ r.loc.toInt ∧ 0 ≤ r.length.toInt ∧
    r.loc.toInt + r.length.toInt < 2 ^ 63
  constants : ∀ r ∈ p.records, ∀ c ∈ r.constants p.layout.literals,
    0 ≤ (r.loc + c.2).toInt
  bases : p.normalize.layout.symbols.BasesInRange

instance (p : Program) : Decidable p.InRange :=
  decidable_of_iff
    ((∀ r ∈ p.records, 0 ≤ r.loc.toInt ∧ 0 ≤ r.length.toInt ∧
        r.loc.toInt + r.length.toInt < 2 ^ 63) ∧
      (∀ r ∈ p.records, ∀ c ∈ r.constants p.layout.literals,
        0 ≤ (r.loc + c.2).toInt) ∧
      p.normalize.layout.symbols.BasesInRange)
    ⟨fun h => ⟨h.1, h.2.1, h.2.2⟩, fun h => ⟨h.records, h.constants, h.bases⟩⟩

/-! ### What placing sections moves -/

/-- A record moves by the base of its section, which is zero if that is no
control section. -/
theorem loc_moveRecord (t : SymbolTable) (r : Record) :
    (moveRecord t r).loc = r.loc + t.offset r.sectionId := by
  by_cases hpos : 0 < r.sectionId
  · simp [moveRecord, hpos]
  · simp [moveRecord, hpos, SymbolTable.offset]

section

variable {t : SymbolTable} {r : Record}

@[simp] theorem body_moveRecord_eq_pool {ids : List Nat} :
    (moveRecord t r).body = .pool ids ↔ r.body = .pool ids := by
  unfold moveRecord
  cases r.body <;> simp

@[simp] theorem body_moveRecord_eq_instruction {op : Instruction}
    {bound : List (Nat × Nat)} :
    (moveRecord t r).body = .instruction op bound ↔
      r.body = .instruction op bound := by
  unfold moveRecord
  cases r.body <;> simp

@[simp] theorem body_moveRecord_eq_storage
    {parts : List (Constant.Descriptor × Int64)} :
    (moveRecord t r).body = .storage parts ↔ r.body = .storage parts := by
  unfold moveRecord
  cases r.body <;> simp

@[simp] theorem body_moveRecord_eq_located :
    (moveRecord t r).body = .located ↔ r.body = .located := by
  unfold moveRecord
  cases r.body <;> simp

end

/-- A literal moves by the base of its section. -/
theorem getElem?_normalize {p : Program} {id : Nat}
    {literal : Literal} (h : p.layout.literals.literals[id]? = some literal) :
    p.normalize.layout.literals.literals[id]? =
      some (literal.moved
        (p.normalize.layout.symbols.offset literal.sectionId)) := by
  show (p.layout.literals.relocate _).literals[id]? = _
  rw [LiteralPool.getElem?_relocate, h]
  rfl

/-- **Constants keep their offsets** when the sections are placed. -/
theorem normalize_constants {p : Program} {r : Record} (h : r.Placed p.layout) :
    (moveRecord p.normalize.layout.symbols r).constants
      p.normalize.layout.literals =
      r.constants p.layout.literals := by
  cases hbody : r.body with
  | pool ids =>
      rw [Record.constants_of_pool (body_moveRecord_eq_pool.mpr hbody),
        Record.constants_of_pool hbody]
      refine List.filterMap_congr fun id hid => ?_
      obtain ⟨literal, hliteral, hsection, hplace, -⟩ :=
        h.pooled ids hbody id hid
      obtain ⟨spot, hspot⟩ := Option.isSome_iff_exists.mp hplace
      have hloc : spot.address + p.normalize.layout.symbols.offset r.sectionId -
          (moveRecord p.normalize.layout.symbols r).loc =
            spot.address - r.loc := by
        rw [loc_moveRecord]
        grind
      rw [getElem?_normalize hliteral, hliteral]
      simp only [Option.bind_some, LiteralPool.constantFrom,
        Literal.descriptor_moved,
        Literal.place_moved, hspot, Option.map_some, hsection, hloc]
  | comment | located | storage | equate | instruction =>
      simp only [Record.constants, moveRecord, hbody]

variable {p : Program}

/-- **What lies in a record moves along with it**, if no location wrapped. -/
theorem InRange.toInt_moved (h : p.InRange) (hwf : p.layout.WellFormed)
    {r : Record} (hr : r ∈ p.records) (hplaced : r.Placed p.layout)
    {address : Int64} (hlow : r.loc.toInt ≤ address.toInt)
    (hhigh : address.toInt ≤ r.loc.toInt + r.length.toInt) :
    (address + p.normalize.layout.symbols.offset r.sectionId).toInt =
      address.toInt +
        (p.normalize.layout.symbols.offset r.sectionId).toInt := by
  by_cases hpos : 0 < r.sectionId
  · obtain ⟨s₀, hs₀⟩ := hplaced.anchored (by omega)
    obtain ⟨s, hs, heq⟩ := hwf.symbols.numbered.exists_section?_normalize hs₀
    obtain ⟨hloc, hlength, hrange⟩ := h.records r hr
    have hbase := h.bases s
      (List.mem_of_getElem? (SymbolTable.Numbered.getElem?_of_section? hpos hs))
    have hfits := hplaced.fits s₀ hs₀
    rw [Int64.le_iff_toInt_le, toInt_add_of_range (by omega) hrange] at hfits
    have hsame : s.length = s₀.length := by rw [heq]
    have hoffset : p.normalize.layout.symbols.offset r.sectionId = s.base :=
      SymbolTable.offset_eq hpos hs
    rw [hoffset]
    rw [hsame] at hbase
    exact toInt_add_of_range (by omega) (by omega)
  · simp [SymbolTable.offset, hpos]

/-- **A record stays inside its section**, if no location wrapped. -/
theorem InRange.inside (h : p.InRange) (hwf : p.layout.WellFormed)
    {r : Record} (hr : r ∈ p.records)
    (hplaced : r.Placed p.layout) (hpos : 0 < r.sectionId) :
    ∃ s, p.normalize.layout.symbols.section? r.sectionId = some s ∧
      s.base.toInt ≤ (moveRecord p.normalize.layout.symbols r).loc.toInt ∧
      (moveRecord p.normalize.layout.symbols r).loc.toInt + r.length.toInt ≤
        s.base.toInt + s.length.toInt := by
  obtain ⟨s₀, hs₀⟩ := hplaced.anchored (by omega)
  obtain ⟨s, hs, heq⟩ := hwf.symbols.numbered.exists_section?_normalize hs₀
  obtain ⟨hloc, hlength, hrange⟩ := h.records r hr
  have hfits := hplaced.fits s₀ hs₀
  rw [Int64.le_iff_toInt_le, toInt_add_of_range (by omega) hrange] at hfits
  have hsame : s.length = s₀.length := by rw [heq]
  have hmoved := h.toInt_moved hwf hr hplaced (Int.le_refl _) (by omega)
  have hoffset : p.normalize.layout.symbols.offset r.sectionId = s.base :=
    SymbolTable.offset_eq hpos hs
  rw [hoffset] at hmoved
  refine ⟨s, hs, ?_, ?_⟩ <;> rw [loc_moveRecord, hoffset, hmoved]
  · omega
  · rw [hsame]
    omega

/-- **The constants of a record lie inside it, one behind the other**, if no
location wrapped. -/
theorem InRange.constants_bounds (h : p.InRange) {r : Record}
    (hr : r ∈ p.records) (hplaced : r.Placed p.layout)
    (hconstants : r.isConstants) :
    (∀ c ∈ r.constants p.layout.literals, r.loc.toInt ≤ (r.loc + c.2).toInt ∧
      (r.loc + c.2).toInt + (c.1.size : Int) ≤ r.loc.toInt + r.length.toInt) ∧
    (r.constants p.layout.literals).Pairwise fun c c' =>
      (r.loc + c.2).toInt + (c.1.size : Int) ≤ (r.loc + c'.2).toInt := by
  obtain ⟨hloc, hlength, hrange⟩ := h.records r hr
  have hend : (r.loc + r.length).toInt = r.loc.toInt + r.length.toInt :=
    toInt_add_of_range (by omega) hrange
  have hchain := (hplaced.chained hconstants).shift r.loc
  have hzero : r.loc + 0 = r.loc := by simp
  rw [hzero] at hchain
  obtain ⟨-, hbounds, hpairwise⟩ := hchain.bounds hloc (by omega)
    (by
      intro c hc
      obtain ⟨c₀, hc₀, rfl⟩ := List.mem_map.mp hc
      exact h.constants r hr c₀ hc₀)
    (by
      intro c hc
      obtain ⟨c₀, hc₀, rfl⟩ := List.mem_map.mp hc
      exact (hplaced.sound c₀ hc₀).bounded)
  rw [hend] at hbounds
  rw [List.pairwise_map] at hpairwise
  refine ⟨fun c hc => ?_, hpairwise⟩
  have hmem : ((c.1, r.loc + c.2) : Constant.Descriptor × Int64) ∈
      (r.constants p.layout.literals).map fun c => (c.1, r.loc + c.2) :=
    List.mem_map.mpr ⟨c, hc, rfl⟩
  have hinside := hbounds _ hmem
  exact hinside

/-- The offsets of constants are not negative, and not behind the end of their
record. -/
theorem InRange.constants_inside (h : p.InRange) {r : Record}
    (hr : r ∈ p.records) (hplaced : r.Placed p.layout)
    (hconstants : r.isConstants) :
    ∀ c ∈ r.constants p.layout.literals,
    0 ≤ c.2.toInt ∧ c.2.toInt ≤ r.length.toInt := by
  obtain ⟨hloc, hlength, hrange⟩ := h.records r hr
  intro c hc
  obtain ⟨hlow, hhigh⟩ := (h.constants_bounds hr hplaced hconstants).1 c hc
  have hlt := (r.loc + c.2).toInt_lt
  have hoffset : c.2 = r.loc + c.2 - r.loc := by grind
  have hdifference : c.2.toInt = (r.loc + c.2).toInt - r.loc.toInt := by
    conv => lhs; rw [hoffset]
    exact toInt_sub_of_range (by omega) (by omega)
  omega

end Program

end System370
