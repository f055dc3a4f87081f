import System370.Proofs.Labels
import System370.Proofs.Word
import System370.SymbolTable

/-!
# The invariant of the symbol table

While statements are laid out, sections and names are only added.  `Extends`
says what stays: a section keeps its number and gets no shorter, an external
name stays known, a name keeps its definition.  `WellFormed` says what holds all
the time:

* `Numbered`: sections have the numbers of their positions, and no location
  counter is beyond the length of its section;
* `Linked`: values only name sections and external symbols that the table has,
  and a name is not both a control section and an external symbol;
* `Spelled`: the names that a module shows are labels.

`Grows t t'` is the step from one well-formed table to the next, and every
operation of the table is such a step, apart from `SymbolTable.move`: a name may
get another value only as long as nothing has read it (`Extends.move`).
-/

namespace System370

namespace SymbolTable

variable {t t' : SymbolTable}

/-! ### The invariant -/

/-- Sections are numbered by their positions, the current one exists, and the
location counters are not beyond the lengths. -/
structure Numbered (t : SymbolTable) : Prop where
  control : ∀ (i : Nat) s, t.sections[i]? = some s → s.id = i + 1
  dummy : ∀ (i : Nat) s, t.dummies[i]? = some s → s.id = -(i + 1 : Int)
  current : ∀ id, t.current = some id → ∃ s, t.section? id = some s
  bounded : ∀ id s, t.section? id = some s → 0 ≤ s.length ∧ s.loc ≤ s.length
  unplaced : t.normalized = false

/-- Whether the table has what a target stands for. -/
def Knows (t : SymbolTable) : Target → Prop
  | .origin id => ∃ s, t.section? id = some s
  | .external name id =>
      id = 0 ∧ (t.external? name).isSome ∧
        ∃ d, t.definition? name = some d ∧ d.kind = Definition.externalKind

/-- Whether the table has all targets of a value. -/
def KnowsValue (t : SymbolTable) (v : Value) : Prop := ∀ term ∈ v.terms,
  t.Knows term.target

/-- Values name what the table has; control sections and external symbols have
different names. -/
structure Linked (t : SymbolTable) : Prop where
  targets : ∀ name d, t.definition? name = some d → t.KnowsValue d.value
  labels : ∀ s ∈ t.sections, s.label ≠ [] →
    ∃ d, t.definition? s.label = some d ∧ d.kind = Definition.sectionKind
  externals : (t.externals.map (·.name)).Nodup
  named : ∀ e ∈ t.externals, e.name ≠ [] ∧ e.sectionId = 0

/-- The names of control sections, external names and names for other assemblies
are labels. -/
structure Spelled (t : SymbolTable) : Prop where
  sections : ∀ s ∈ t.sections, IsLabel s.label
  externals : ∀ e ∈ t.externals, IsLabel e.name
  entries : ∀ e ∈ t.entries, IsLabel e.name

/-- What holds of the table between two statements. -/
structure WellFormed (t : SymbolTable) : Prop where
  numbered : t.Numbered
  linked : t.Linked
  spelled : t.Spelled

/-- What stays of a table. -/
structure Extends (t t' : SymbolTable) : Prop where
  sections : ∀ id s, t.section? id = some s →
    ∃ s', t'.section? id = some s' ∧ s.length ≤ s'.length
  externals : ∀ name, (t.external? name).isSome → (t'.external? name).isSome
  definitions : ∀ name d, t.definition? name = some d →
    t'.definition? name = some d

theorem Extends.refl (t : SymbolTable) : Extends t t :=
  ⟨fun _ s h => ⟨s, h, Int64.le_refl _⟩, fun _ h => h, fun _ _ h => h⟩

theorem Extends.trans {t'' : SymbolTable} (h : Extends t t')
    (h' : Extends t' t'') :
    Extends t t'' := by
  refine ⟨fun id s hs => ?_,
    fun name he => h'.externals name (h.externals name he),
    fun name d hd => h'.definitions name d (h.definitions name d hd)⟩
  obtain ⟨s', hs', hle⟩ := h.sections id s hs
  obtain ⟨s'', hs'', hle'⟩ := h'.sections id s' hs'
  exact ⟨s'', hs'', Int64.le_trans hle hle'⟩

/-- A table that extends another one has its targets. -/
theorem Extends.knows (h : Extends t t') {target : Target}
    (hk : t.Knows target) :
    t'.Knows target := by
  cases target with
  | origin id =>
      obtain ⟨s, hs⟩ := hk
      obtain ⟨s', hs', -⟩ := h.sections id s hs
      exact ⟨s', hs'⟩
  | external name id =>
      obtain ⟨hid, he, d, hd, hkind⟩ := hk
      exact ⟨hid, h.externals name he, d, h.definitions name d hd, hkind⟩

/-- A table that extends another one has the targets of its values. -/
theorem Extends.knowsValue (h : Extends t t') {v : Value}
    (hk : t.KnowsValue v) :
    t'.KnowsValue v := fun term hterm => h.knows (hk term hterm)

/-- From a well-formed table to one that extends it and is well-formed as
well. -/
def Grows (t t' : SymbolTable) : Prop := t.WellFormed → t'.WellFormed ∧
  t.Extends t'

theorem Grows.refl (t : SymbolTable) : Grows t t := fun h => ⟨h, Extends.refl t⟩

theorem Grows.trans {t'' : SymbolTable} (h : Grows t t') (h' : Grows t' t'') :
    Grows t t'' := by
  intro hwf
  obtain ⟨hwf', hext⟩ := h hwf
  obtain ⟨hwf'', hext'⟩ := h' hwf'
  exact ⟨hwf'', hext.trans hext'⟩

/-- The section of a number has that number. -/
theorem Numbered.id_of_section? (h : t.Numbered) {id : Int} {s : Section}
    (hs : t.section? id = some s) : s.id = id := by
  unfold section? at hs
  split at hs
  · rw [h.control _ s hs]
    omega
  · split at hs
    · rw [h.dummy _ s hs]
      omega
    · simp at hs

/-- Sections have numbers other than zero. -/
theorem ne_zero_of_section? {id : Int} {s : Section}
    (hs : t.section? id = some s) : id ≠ 0 := by
  rintro rfl
  simp [section?] at hs

/-- The current section has the current number. -/
theorem Numbered.currentSection? (h : t.Numbered)
    {s : Section} (hs : t.currentSection? = some s) :
    t.current = some s.id ∧ t.section? s.id = some s := by
  obtain ⟨id, hid, hs⟩ := Option.bind_eq_some_iff.mp hs
  have := h.id_of_section? hs
  subst this
  exact ⟨hid, hs⟩

/-- A control section is the section of its number. -/
theorem Numbered.section?_of_mem (h : t.Numbered) {s : Section}
    (hs : s ∈ t.sections) :
    0 < s.id ∧ t.section? s.id = some s := by
  obtain ⟨i, hi⟩ := List.getElem?_of_mem hs
  have hid := h.control i s hi
  refine ⟨by omega, ?_⟩
  rw [section?, if_pos (by omega), hid, ← hi]
  congr 1

/-- A table with the same sections is numbered in the same way. -/
theorem Numbered.congr (h : t.Numbered) (hsections : t'.sections = t.sections)
    (hdummies : t'.dummies = t.dummies) (hcurrent : t'.current = t.current)
    (hnormalized : t'.normalized = t.normalized) : t'.Numbered := by
  have hsection : ∀ id, t'.section? id = t.section? id := fun id => by
    simp only [section?, hsections, hdummies]
  exact
    { control := by rw [hsections]; exact h.control
      dummy := by rw [hdummies]; exact h.dummy
      current := fun id hid => by
        rw [hsection]
        exact h.current id (hcurrent ▸ hid)
      bounded := fun id s hs => h.bounded id s (hsection id ▸ hs)
      unplaced := hnormalized.trans h.unplaced }

/-- A table that extends a linked one is linked, if what is new in it is. -/
theorem Linked.extend (h : t.Linked) (hext : Extends t t')
    (htargets : ∀ name d, t'.definition? name = some d →
      (∃ d₀, t.definition? name = some d₀ ∧ d.value = d₀.value) ∨
      t'.KnowsValue d.value)
    (hlabels : ∀ s ∈ t'.sections, (∃ s₀ ∈ t.sections, s₀.label = s.label) ∨
      s.label = [] ∨
      ∃ d, t'.definition? s.label = some d ∧ d.kind = Definition.sectionKind)
    (hexternals : (t'.externals.map (·.name)).Nodup)
    (hnamed : ∀ e ∈ t'.externals, e.name ≠ [] ∧ e.sectionId = 0) :
    t'.Linked := by
  refine ⟨fun name d hd => ?_, fun s hs hne => ?_, hexternals, hnamed⟩
  · rcases htargets name d hd with ⟨d₀, hd₀, heq⟩ | hknown
    · rw [heq]
      exact hext.knowsValue (h.targets name d₀ hd₀)
    · exact hknown
  · rcases hlabels s hs with ⟨s₀, hs₀, heq⟩ | hnil | hdef
    · obtain ⟨d, hd, hkind⟩ := h.labels s₀ hs₀ (heq ▸ hne)
      exact ⟨d, heq ▸ hext.definitions _ d hd, hkind⟩
    · exact absurd hnil hne
    · exact hdef

/-! ### Symbols -/

/-- Looking a name up after changing the symbol of a name. -/
theorem find?_alterSymbol (name other : Bytes) {f : Symbol → Symbol}
    (hf : ∀ s, (f s).name = s.name) (symbols : List Symbol) :
    (alterSymbol name f symbols).find? (·.name = other) =
      if other = name then
        some (f ((symbols.find? (·.name = name)).getD { name }))
      else symbols.find? (·.name = other) := by
  induction symbols with
  | nil =>
      by_cases heq : other = name
      · simp [alterSymbol, hf, heq]
      · simp [alterSymbol, hf, heq, Ne.symm heq]
  | cons s rest ih =>
      unfold alterSymbol
      by_cases hs : s.name = name
      · by_cases heq : other = name
        · simp [hs, hf, heq]
        · simp [hs, hf, heq, Ne.symm heq]
      · rw [if_neg hs, List.find?_cons]
        by_cases hother : s.name = other
        · have hne : ¬ other = name := fun h => hs (hother.trans h)
          simp [hother, hne]
        · simp [hother, ih, hs]

/-- A reference leaves definitions alone. -/
@[simp] theorem definition?_reference (t : SymbolTable) (name other : Bytes)
    (r : Reference) :
    (t.reference name r).definition? other = t.definition? other := by
  unfold definition? symbol? reference
  simp only [find?_alterSymbol name other
    (f := fun s => { s with references := s.references ++ [r] })
    (fun _ => rfl)]
  split
  · rename_i heq
    subst heq
    cases t.symbols.find? (·.name = other) <;> rfl
  · rfl

/-- A defined name has its definition, and the others have theirs. -/
theorem definition?_define {name : Bytes} {d : Definition}
    (h : t.define name d = .ok t') (other : Bytes) :
    t.definition? name = none ∧
      t'.definition? other = if other = name then some d else
        t.definition? other := by
  unfold define at h
  split at h
  · simp at h
  · rename_i hnone
    obtain rfl := Except.ok.inj h
    refine ⟨hnone, ?_⟩
    unfold definition? symbol?
    simp only [find?_alterSymbol name other
      (f := fun s => { s with definition := some d })
      (fun _ => rfl)]
    split <;> rfl

/-- Defining a name changes nothing but its symbol. -/
theorem eq_of_define {name : Bytes} {d : Definition}
    (h : t.define name d = .ok t') :
    t' = { t with symbols := t'.symbols } := by
  unfold define at h
  split at h
  · simp at h
  · obtain rfl := Except.ok.inj h
    rfl

/-- A moved name has its new value, and the others have theirs. -/
theorem definition?_move (t : SymbolTable) (name other : Bytes)
    (value : Value) :
    (t.move name value).definition? other =
      if other = name then (t.definition? other).map fun d => { d with value }
      else t.definition? other := by
  unfold definition? symbol? move
  simp only
  induction t.symbols with
  | nil => simp
  | cons s rest ih =>
      by_cases hs : s.name = other
      · by_cases heq : other = name
        · simp [hs, heq]
        · simp [hs, heq]
      · by_cases hname : s.name = name
        · simp [hname, show ¬ name = other from fun h => hs (hname.trans h),
            List.find?_map] at ih ⊢
          exact ih
        · simp [hs, hname] at ih ⊢
          exact ih

/-- A table that differs only in what no invariant mentions. -/
theorem grows_of_eq (hsections : t'.sections = t.sections)
    (hdummies : t'.dummies = t.dummies) (hcurrent : t'.current = t.current)
    (hnormalized : t'.normalized = t.normalized)
    (hexternals : t'.externals = t.externals)
    (hdefinition : ∀ name, t'.definition? name = t.definition? name)
    (hentries : ∀ e ∈ t'.entries, e ∈ t.entries ∨ IsLabel e.name) :
    Grows t t' := by
  intro h
  have hext : Extends t t' := by
    refine ⟨fun id s hs => ⟨s, ?_, Int64.le_refl _⟩, fun name he => ?_,
      fun name d hd => ?_⟩
    · simpa only [section?, hsections, hdummies] using hs
    · simpa only [external?, hexternals] using he
    · rw [hdefinition, hd]
  refine ⟨⟨h.numbered.congr hsections hdummies hcurrent hnormalized, ?_, ?_⟩,
    hext⟩
  · refine h.linked.extend hext
      (fun name d hd => Or.inl ⟨d, hdefinition name ▸ hd, rfl⟩) ?_ ?_ ?_
    · exact fun s hs => Or.inl ⟨s, hsections ▸ hs, rfl⟩
    · rw [hexternals]
      exact h.linked.externals
    · rw [hexternals]
      exact h.linked.named
  · refine ⟨hsections ▸ h.spelled.sections, hexternals ▸ h.spelled.externals,
      fun e he => ?_⟩
    rcases hentries e he with he | hlabel
    · exact h.spelled.entries e he
    · exact hlabel

/-- Recording a use. -/
theorem grows_reference (t : SymbolTable) (name : Bytes) (r : Reference) :
    Grows t (t.reference name r) :=
  grows_of_eq rfl rfl rfl rfl rfl
    (fun other => definition?_reference t name other r)
    fun _ he => Or.inl he

/-- Recording uses one after the other. -/
theorem grows_references (names : List Bytes) (r : Reference)
    (t : SymbolTable) :
    Grows t (names.foldl (fun t name => t.reference name r) t) := by
  induction names generalizing t with
  | nil => exact Grows.refl t
  | cons name rest ih => exact (grows_reference t name r).trans (ih _)

/-- Offering a name. -/
theorem grows_addEntry (t : SymbolTable) {name : Bytes} (hname : IsLabel name)
    (line : Int) :
    Grows t (t.addEntry name line) := by
  unfold addEntry
  split
  · exact Grows.refl t
  · refine grows_of_eq rfl rfl rfl rfl rfl (fun _ => rfl) fun e he => ?_
    rcases List.mem_append.mp he with he | he
    · exact Or.inl he
    · rw [List.mem_singleton.mp he]
      exact Or.inr hname

/-- Defining a name by a value that the table then knows. -/
theorem grows_define {name : Bytes} {d : Definition}
    (h : t.define name d = .ok t')
    (hvalue : t.WellFormed → t.Extends t' → t'.KnowsValue d.value) :
    Grows t t' := by
  intro hwf
  have heq := eq_of_define h
  have hdef := definition?_define h
  have hext : Extends t t' := by
    rw [heq]
    refine ⟨fun id s hs => ⟨s, hs, Int64.le_refl _⟩, fun name he => he,
      fun other e he => ?_⟩
    obtain ⟨hnone, hsome⟩ := hdef other
    have hne : other ≠ name := by
      rintro rfl
      simp [hnone] at he
    rw [if_neg hne, he] at hsome
    exact heq ▸ hsome
  refine ⟨⟨?_, ?_, ?_⟩, hext⟩
  · rw [heq]
    exact hwf.numbered.congr rfl rfl rfl rfl
  · refine hwf.linked.extend hext (fun other e he => ?_) ?_ ?_ ?_
    · rw [(hdef other).2] at he
      split at he
      · obtain rfl := Option.some.inj he
        exact Or.inr (hvalue hwf hext)
      · exact Or.inl ⟨e, he, rfl⟩
    · rw [heq]
      exact fun s hs => Or.inl ⟨s, hs, rfl⟩
    · rw [heq]
      exact hwf.linked.externals
    · rw [heq]
      exact hwf.linked.named
  · rw [heq]
    exact ⟨hwf.spelled.sections, hwf.spelled.externals, hwf.spelled.entries⟩

/-- Giving a name another value that the table knows. -/
theorem wellFormed_move (h : t.WellFormed) (name : Bytes) {value : Value}
    (hvalue : t.KnowsValue value) : (t.move name value).WellFormed := by
  have hdef := definition?_move t name
  have hkind : ∀ other e, t.definition? other = some e →
      ∃ e', (t.move name value).definition? other = some e' ∧
        e'.kind = e.kind := by
    intro other e he
    rw [hdef, he]
    split
    · exact ⟨_, rfl, rfl⟩
    · exact ⟨e, rfl, rfl⟩
  have hknows : ∀ v, t.KnowsValue v → (t.move name value).KnowsValue v := by
    intro v hv term hterm
    have hknown := hv term hterm
    generalize term.target = target at hknown ⊢
    cases target with
    | origin id => exact hknown
    | external other id =>
        obtain ⟨hid, he, e, hd, hexternal⟩ := hknown
        obtain ⟨e', hd', hsame⟩ := hkind other e hd
        exact ⟨hid, he, e', hd', hsame.trans hexternal⟩
  refine ⟨h.numbered.congr rfl rfl rfl rfl,
    ⟨fun other e he => ?_, fun s hs hne => ?_,
    h.linked.externals, h.linked.named⟩, h.spelled.sections,
    h.spelled.externals, h.spelled.entries⟩
  · rw [hdef] at he
    split at he
    · obtain ⟨e₀, -, rfl⟩ := Option.map_eq_some_iff.mp he
      exact hknows value hvalue
    · exact hknows _ (h.linked.targets other e he)
  · obtain ⟨e, he, hsection⟩ := h.linked.labels s hs hne
    obtain ⟨e', he', hsame⟩ := hkind _ e he
    exact ⟨e', he', hsame.trans hsection⟩

/-- A name that is new to a table may get another value. -/
theorem Extends.move (h : Extends t t') {name : Bytes}
    (hnew : t.definition? name = none) (value : Value) :
    Extends t (t'.move name value) := by
  refine ⟨h.sections, h.externals, fun other e he => ?_⟩
  have hne : other ≠ name := by
    rintro rfl
    simp [hnew] at he
  rw [definition?_move, if_neg hne]
  exact h.definitions other e he

/-! ### Sections -/

/-- Changing a section changes the section of that number and no other. -/
theorem section?_modifySection (t : SymbolTable) (id other : Int)
    (f : Section → Section) :
    (t.modifySection id f).section? other =
      if other = id then (t.section? other).map f else t.section? other := by
  unfold modifySection section?
  by_cases hpos : 0 < id
  · rw [if_pos hpos]
    by_cases hother : 0 < other
    · by_cases heq : other = id
      · simp [heq, hpos]
      · have hne : id.toNat - 1 ≠ other.toNat - 1 := by omega
        simp [heq, hother, List.getElem?_modify_ne f _ hne]
    · have hne : other ≠ id := by omega
      simp [hother, hne]
  · rw [if_neg hpos]
    by_cases hneg : id < 0
    · rw [if_pos hneg]
      by_cases hother : other < 0
      · have hnot : ¬ 0 < other := by omega
        by_cases heq : other = id
        · simp [heq, hpos, hneg]
        · have hne : (-id).toNat - 1 ≠ (-other).toNat - 1 := by omega
          simp [heq, hother, hnot, List.getElem?_modify_ne f _ hne]
      · have hne : other ≠ id := by omega
        simp [hother, hne]
    · have hzero : id = 0 := by omega
      subst hzero
      by_cases heq : other = 0
      · simp [heq]
      · simp [heq]

/-- Changing a section leaves everything but the sections alone. -/
theorem modifySection_frame (t : SymbolTable) (id : Int)
    (f : Section → Section) :
    (t.modifySection id f).current = t.current ∧
      (t.modifySection id f).normalized = t.normalized ∧
      (t.modifySection id f).externals = t.externals ∧
      (t.modifySection id f).symbols = t.symbols ∧
      (t.modifySection id f).entries = t.entries := by
  unfold modifySection
  split
  · exact ⟨rfl, rfl, rfl, rfl, rfl⟩
  · split <;> exact ⟨rfl, rfl, rfl, rfl, rfl⟩

/-- A change of a section that moves its location counter at most. -/
structure Moves (f : Section → Section) : Prop where
  id : ∀ s, (f s).id = s.id
  label : ∀ s, (f s).label = s.label
  length : ∀ s, s.length ≤ (f s).length
  bounded : ∀ s, s.loc ≤ s.length → (f s).loc ≤ (f s).length

/-- The location counter moves within a section. -/
theorem moves_setLoc (loc : Int64) : Moves (·.setLoc loc) := by
  refine ⟨fun _ => rfl, fun _ => rfl, fun s => ?_, fun s _ => ?_⟩
  · simp only [Section.setLoc]
    split
    · exact Int64.le_of_lt ‹_›
    · exact Int64.le_refl _
  · simp only [Section.setLoc]
    split
    · exact Int64.le_refl _
    · exact Int64.not_lt.mp ‹_›

theorem moves_freeze : Moves Section.freeze :=
  ⟨fun s => (moves_setLoc s.loc).id s, fun s => (moves_setLoc s.loc).label s,
    fun s => (moves_setLoc s.loc).length s,
    fun s h => (moves_setLoc s.loc).bounded s h⟩

theorem moves_resume : Moves Section.resume :=
  ⟨fun _ => rfl, fun _ => rfl, fun _ => Int64.le_refl _,
    fun _ _ => Int64.le_refl _⟩

/-- A moved section keeps its number. -/
theorem Numbered.id_modifySection (h : t.Numbered) (id : Int) {other : Int}
    {f : Section → Section} (hf : Moves f)
    {s : Section} (hs : (t.modifySection id f).section? other = some s) :
    s.id = other := by
  rw [section?_modifySection] at hs
  split at hs
  · obtain ⟨s₀, hs₀, rfl⟩ := Option.map_eq_some_iff.mp hs
    rw [hf.id, h.id_of_section? hs₀]
  · exact h.id_of_section? hs

/-- A section that moves keeps its number. -/
theorem numbered_modifySection (h : t.Numbered) (id : Int)
    {f : Section → Section} (hf : Moves f) :
    (t.modifySection id f).Numbered := by
  have hsection := section?_modifySection t id
  obtain ⟨hcurrent, hnormalized, -⟩ := modifySection_frame t id f
  refine ⟨fun i s hs => ?_, fun i s hs => ?_, fun other hother => ?_,
    fun other s hs => ?_, hnormalized.trans h.unplaced⟩
  · refine h.id_modifySection id hf ?_
    rw [section?, if_pos (by omega), ← hs]
    congr 1
  · refine h.id_modifySection id hf ?_
    rw [section?, if_neg (by omega), if_pos (by omega), ← hs]
    congr 1
  · obtain ⟨s, hs⟩ := h.current other (hcurrent ▸ hother)
    rw [hsection, hs]
    split <;> exact ⟨_, rfl⟩
  · rw [hsection] at hs
    split at hs
    · obtain ⟨s₀, hs₀, rfl⟩ := Option.map_eq_some_iff.mp hs
      obtain ⟨hlow, hbound⟩ := h.bounded other s₀ hs₀
      exact ⟨Int64.le_trans hlow (hf.length s₀), hf.bounded s₀ hbound⟩
    · exact h.bounded other s hs

/-- Moved sections have the labels that they had. -/
theorem labels_modifySection (t : SymbolTable) (id : Int)
    {f : Section → Section} (hf : Moves f) :
    ∀ s ∈ (t.modifySection id f).sections, ∃ s₀ ∈ t.sections,
    s₀.label = s.label := by
  intro s hs
  unfold SymbolTable.modifySection at hs
  split at hs
  · obtain ⟨i, hi⟩ := List.getElem?_of_mem hs
    rw [List.getElem?_modify] at hi
    obtain ⟨s₀, hs₀, rfl⟩ := Option.map_eq_some_iff.mp hi
    refine ⟨s₀, List.mem_of_getElem? hs₀, ?_⟩
    split
    · exact (hf.label s₀).symm
    · rfl
  · split at hs <;> exact ⟨s, hs, rfl⟩

/-- Moving a location counter. -/
theorem grows_modifySection (t : SymbolTable) (id : Int) {f : Section → Section}
    (hf : Moves f) :
    Grows t (t.modifySection id f) := by
  intro h
  have hsection := section?_modifySection t id
  obtain ⟨-, -, hexternals, hsymbols, hentries⟩ := modifySection_frame t id f
  have hdefinition : ∀ name, (t.modifySection id f).definition? name =
      t.definition? name :=
    fun name => by simp only [definition?, symbol?, hsymbols]
  have hext : Extends t (t.modifySection id f) := by
    refine ⟨fun other s hs => ?_, fun name he => ?_, fun name d hd => ?_⟩
    · rw [hsection, hs]
      split
      · exact ⟨f s, rfl, hf.length s⟩
      · exact ⟨s, rfl, Int64.le_refl _⟩
    · simpa only [external?, hexternals] using he
    · rw [hdefinition, hd]
  have hlabels := labels_modifySection t id hf
  refine ⟨⟨numbered_modifySection h.numbered id hf, ?_, ?_⟩, hext⟩
  · refine h.linked.extend hext
      (fun name d hd => Or.inl ⟨d, hdefinition name ▸ hd, rfl⟩)
      (fun s hs => Or.inl (hlabels s hs)) ?_ ?_
    · rw [hexternals]
      exact h.linked.externals
    · rw [hexternals]
      exact h.linked.named
  · refine ⟨fun s hs => ?_, hexternals ▸ h.spelled.externals,
      hentries ▸ h.spelled.entries⟩
    obtain ⟨s₀, hs₀, hlabel⟩ := hlabels s hs
    exact hlabel ▸ h.spelled.sections s₀ hs₀

/-- Moving the location counter of the current section. -/
theorem grows_modifyCurrent (t : SymbolTable) {f : Section → Section}
    (hf : Moves f) :
    Grows t (t.modifyCurrent f) := by
  unfold modifyCurrent
  split
  · exact grows_modifySection t _ hf
  · exact Grows.refl t

/-- Sections behind a new one of their kind. -/
theorem section?_append {opened : Section} {t t' : SymbolTable}
    (h : (t' = { t with sections := t.sections ++ [opened] } ∧
      opened.id = t.sections.length + 1) ∨
      (t' = { t with dummies := t.dummies ++ [opened] } ∧
        opened.id = -(t.dummies.length + 1 : Int))) (id : Int) :
    t'.section? id = if id = opened.id then some opened else t.section? id := by
  unfold section?
  rcases h with ⟨rfl, hid⟩ | ⟨rfl, hid⟩
  · by_cases heq : id = opened.id
    · rw [if_pos heq, if_pos (by omega)]
      have hindex : id.toNat - 1 = t.sections.length := by omega
      rw [hindex]
      simp
    · rw [if_neg heq]
      split
      · by_cases hlt : id.toNat - 1 < t.sections.length
        · rw [List.getElem?_append_left hlt]
        · rw [List.getElem?_eq_none_iff.mpr (by simp; omega),
            List.getElem?_eq_none_iff.mpr (by omega)]
      · rfl
  · by_cases heq : id = opened.id
    · rw [if_pos heq, if_neg (by omega), if_pos (by omega)]
      have hindex : (-id).toNat - 1 = t.dummies.length := by omega
      rw [hindex]
      simp
    · rw [if_neg heq]
      split
      · rfl
      · split
        · by_cases hlt : (-id).toNat - 1 < t.dummies.length
          · rw [List.getElem?_append_left hlt]
          · rw [List.getElem?_eq_none_iff.mpr (by simp; omega),
              List.getElem?_eq_none_iff.mpr (by omega)]
        · rfl

/-- A list whose elements have the numbers of their positions, with one more. -/
theorem numbers_append {f : Nat → Int} {sections : List Section}
    {opened : Section} (h : ∀ i s, sections[i]? = some s → s.id = f i)
    (hid : opened.id = f sections.length) :
    ∀ i s, (sections ++ [opened])[i]? = some s → s.id = f i := by
  intro i s hs
  rcases Nat.lt_trichotomy i sections.length with hlt | heq | hgt
  · rw [List.getElem?_append_left hlt] at hs
    exact h i s hs
  · subst heq
    simp only [List.getElem?_concat_length, Option.some.injEq] at hs
    exact hs ▸ hid
  · rw [List.getElem?_eq_none_iff.mpr (by simp; omega)] at hs
    simp at hs

/-- Starting an unnamed section, or any section before its label is defined. -/
theorem wellFormed_append {opened : Section} {t t' : SymbolTable}
    (h : (t' = { t with sections := t.sections ++ [opened] } ∧
      opened.id = t.sections.length + 1) ∨
      (t' = { t with dummies := t.dummies ++ [opened] } ∧
        opened.id = -(t.dummies.length + 1 : Int)))
    (hlength : opened.length = 0) (hloc : opened.loc = 0) (hn : t.Numbered) :
    ({ t' with current := some opened.id } : SymbolTable).Numbered ∧
      t.Extends { t' with current := some opened.id } := by
  have hsection := section?_append h
  have hbounded : ∀ id s, t'.section? id = some s → 0 ≤ s.length ∧
      s.loc ≤ s.length := by
    intro id s hs
    rw [hsection] at hs
    split at hs
    · obtain rfl := Option.some.inj hs
      rw [hlength, hloc]
      exact ⟨Int64.le_refl _, Int64.le_refl _⟩
    · exact hn.bounded id s hs
  have hcurrent : ∀ id, some opened.id = some id → ∃ s,
      t'.section? id = some s := by
    intro id hid
    obtain rfl := Option.some.inj hid
    exact ⟨opened, by rw [hsection, if_pos rfl]⟩
  have hkeeps : ∀ id s, t.section? id = some s → ∃ s',
      t'.section? id = some s' ∧
      s.length ≤ s'.length := by
    intro id s hs
    have hne : id ≠ opened.id := by
      intro heq
      unfold section? at hs
      rcases h with ⟨-, hid⟩ | ⟨-, hid⟩
      · rw [if_pos (by omega), List.getElem?_eq_none_iff.mpr (by omega)] at hs
        simp at hs
      · rw [if_neg (by omega), if_pos (by omega),
          List.getElem?_eq_none_iff.mpr (by omega)] at hs
        simp at hs
    exact ⟨s, by rw [hsection, if_neg hne, hs], Int64.le_refl _⟩
  rcases h with ⟨rfl, hid⟩ | ⟨rfl, hid⟩
  · exact ⟨⟨numbers_append hn.control hid, hn.dummy, hcurrent, hbounded,
      hn.unplaced⟩, ⟨hkeeps, fun _ he => he, fun _ _ hd => hd⟩⟩
  · exact ⟨⟨hn.control, numbers_append hn.dummy hid, hcurrent, hbounded,
      hn.unplaced⟩, ⟨hkeeps, fun _ he => he, fun _ _ hd => hd⟩⟩

/-- Taking the location counter into the length leaves the number of sections
alone. -/
theorem length_sections_modifyCurrent (t : SymbolTable)
    (f : Section → Section) :
    (t.modifyCurrent f).sections.length = t.sections.length ∧
      (t.modifyCurrent f).dummies.length = t.dummies.length := by
  unfold modifyCurrent
  split
  · unfold modifySection
    split
    · simp
    · split <;> simp
  · simp

/-- A linked table with one more section, whose label is empty or defined
last. -/
theorem linked_append {opened : Section} {t t₂ t' : SymbolTable}
    (h : t.Linked) (hext : Extends t t₂)
    (hsections : ∀ s ∈ t₂.sections, s ∈ t.sections ∨ s = opened)
    (hexternals : t₂.externals = t.externals)
    (hdefinition : ∀ name, t₂.definition? name = t.definition? name)
    (hopened : t₂.section? opened.id = some opened)
    (hlabel : (opened.label = [] ∧ t' = t₂) ∨ ∃ line, t₂.define opened.label
      ⟨Value.relocatable 0 opened.id, 1, Definition.sectionKind, line⟩ =
      .ok t') :
    t'.Linked ∧ Extends t₂ t' := by
  rcases hlabel with ⟨hnil, rfl⟩ | ⟨line, hdefine⟩
  · refine ⟨h.extend hext
      (fun name d hd => Or.inl ⟨d, hdefinition name ▸ hd, rfl⟩) ?_ ?_ ?_,
      Extends.refl _⟩
    · intro s hs
      rcases hsections s hs with hs | rfl
      · exact Or.inl ⟨s, hs, rfl⟩
      · exact Or.inr (Or.inl hnil)
    · rw [hexternals]
      exact h.externals
    · rw [hexternals]
      exact h.named
  · have heq := eq_of_define hdefine
    have hdef := definition?_define hdefine
    have hnew : Extends t₂ t' := by
      rw [heq]
      refine ⟨fun id s hs => ⟨s, hs, Int64.le_refl _⟩, fun name he => he,
        fun other e he => ?_⟩
      have hsome := (hdef other).2
      have hne : other ≠ opened.label := by
        rintro rfl
        simp [(hdef opened.label).1] at he
      rw [if_neg hne, he] at hsome
      exact heq ▸ hsome
    refine ⟨h.extend (hext.trans hnew) (fun name d hd => ?_) (fun s hs => ?_)
      ?_ ?_, hnew⟩
    · rw [(hdef name).2] at hd
      split at hd
      · obtain rfl := Option.some.inj hd
        refine Or.inr fun term hterm => hnew.knows ?_
        rw [List.mem_singleton.mp hterm]
        exact ⟨opened, hopened⟩
      · exact Or.inl ⟨d, hdefinition name ▸ hd, rfl⟩
    · rw [heq] at hs
      rcases hsections s hs with hs | rfl
      · exact Or.inl ⟨s, hs, rfl⟩
      · exact Or.inr (Or.inr ⟨_, by rw [(hdef s.label).2, if_pos rfl], rfl⟩)
    · rw [heq]
      exact hexternals ▸ h.externals
    · rw [heq]
      exact hexternals ▸ h.named

/-- Adding a section, making it current and defining its label. -/
theorem grows_append (opened : Section) {t t₁ t' : SymbolTable} {line : Int}
    (h : (t₁ = { t with sections := t.sections ++ [opened] } ∧
        opened.id = t.sections.length + 1) ∨
      (t₁ = { t with dummies := t.dummies ++ [opened] } ∧
        opened.id = -(t.dummies.length + 1 : Int)))
    (hlength : opened.length = 0) (hloc : opened.loc = 0)
    (hspelled : IsLabel opened.label)
    (hlabel : (if opened.label = [] then .ok { t₁ with current := some opened.id }
      else ({ t₁ with current := some opened.id } : SymbolTable).define
        opened.label
        ⟨Value.relocatable 0 opened.id, 1, Definition.sectionKind, line⟩) =
      .ok t') :
    Grows t t' := by
  intro hwf
  obtain ⟨hnumbered, hext⟩ := wellFormed_append h hlength hloc hwf.numbered
  have hopened : t₁.section? opened.id = some opened := by
    rw [section?_append h, if_pos rfl]
  have hsections : ∀ s ∈ t₁.sections, s ∈ t.sections ∨ s = opened := by
    intro s hs
    rcases h with ⟨rfl, -⟩ | ⟨rfl, -⟩
    · simpa using hs
    · exact Or.inl hs
  have hsame : t₁.externals = t.externals ∧
      (∀ name, t₁.definition? name = t.definition? name) ∧
      t₁.entries = t.entries := by
    rcases h with ⟨rfl, -⟩ | ⟨rfl, -⟩
    · exact ⟨rfl, fun _ => rfl, rfl⟩
    · exact ⟨rfl, fun _ => rfl, rfl⟩
  have hlast :
      (opened.label = [] ∧ t' = { t₁ with current := some opened.id }) ∨
      ∃ line,
      ({ t₁ with current := some opened.id } : SymbolTable).define opened.label
        ⟨Value.relocatable 0 opened.id, 1, Definition.sectionKind,
          line⟩ = .ok t' := by
    split at hlabel
    · exact Or.inl ⟨‹_›, (Except.ok.inj hlabel).symm⟩
    · exact Or.inr ⟨line, hlabel⟩
  obtain ⟨hlinked, hext'⟩ :=
    linked_append hwf.linked hext hsections hsame.1 hsame.2.1 hopened hlast
  have hnames : t₁.Spelled := by
    refine ⟨fun s hs => ?_, hsame.1 ▸ hwf.spelled.externals,
      hsame.2.2 ▸ hwf.spelled.entries⟩
    rcases hsections s hs with hs | rfl
    · exact hwf.spelled.sections s hs
    · exact hspelled
  refine ⟨⟨?_, hlinked, ?_⟩, hext.trans hext'⟩
  · rcases hlast with ⟨-, rfl⟩ | ⟨_, hdefine⟩
    · exact hnumbered
    · rw [eq_of_define hdefine]
      exact hnumbered.congr rfl rfl rfl rfl
  · rcases hlast with ⟨-, rfl⟩ | ⟨_, hdefine⟩
    · exact ⟨hnames.sections, hnames.externals, hnames.entries⟩
    · rw [eq_of_define hdefine]
      exact ⟨hnames.sections, hnames.externals, hnames.entries⟩

/-- Starting a section. -/
theorem grows_startSection {label : Bytes} {kind : SectionKind} {line : Int}
    (hlabel : IsLabel label) (h : t.startSection label kind line = .ok t') :
    Grows t t' := by
  obtain ⟨hcontrol, hdummies⟩ := length_sections_modifyCurrent t Section.freeze
  unfold startSection at h
  refine (grows_modifyCurrent t moves_freeze).trans ?_
  by_cases hkind : kind = .dummy
  · simp only [hkind, if_true] at h
    exact grows_append ⟨-(t.dummies.length + 1 : Int), label, .dummy, 0, 0, 0,
      false, line⟩
      (Or.inr ⟨rfl, by rw [← hdummies]⟩) rfl rfl hlabel h
  · simp only [hkind, if_false] at h
    exact grows_append ⟨t.sections.length + 1, label, kind, 0, 0, 0,
      false, line⟩
      (Or.inl ⟨rfl, by rw [← hcontrol]⟩) rfl rfl hlabel h

/-- Making a known section current. -/
theorem grows_setCurrent {id : Int}
    (h : t.WellFormed → ∃ s, t.section? id = some s) :
    Grows t { t with current := some id } := by
  intro hwf
  have hn := hwf.numbered
  refine ⟨⟨⟨hn.control, hn.dummy, fun other hother => ?_, hn.bounded,
    hn.unplaced⟩, ?_, ?_⟩, ?_⟩
  · obtain rfl := Option.some.inj hother
    exact h hwf
  · exact ⟨hwf.linked.targets, hwf.linked.labels, hwf.linked.externals,
      hwf.linked.named⟩
  · exact ⟨hwf.spelled.sections, hwf.spelled.externals, hwf.spelled.entries⟩
  · exact ⟨fun _ s hs => ⟨s, hs, Int64.le_refl _⟩, fun _ he => he,
      fun _ _ hd => hd⟩

/-- The section of a label is one of the table. -/
theorem Numbered.sectionOfLabel? (h : t.Numbered) {label : Bytes} {dummy : Bool}
    {s : Section} (hs : t.sectionOfLabel? label dummy = some s) :
    t.section? s.id = some s := by
  have hdummy : ∀ s ∈ t.dummies, t.section? s.id = some s := by
    intro s hs
    obtain ⟨i, hi⟩ := List.getElem?_of_mem hs
    have hid := h.dummy i s hi
    rw [section?, if_neg (by omega), if_pos (by omega), hid, ← hi]
    congr 1
  unfold SymbolTable.sectionOfLabel? at hs
  split at hs
  · split at hs
    · simp at hs
    · exact (h.section?_of_mem (List.mem_of_find?_eq_some hs)).2
  · rcases Option.or_eq_some_iff.mp hs with hs | ⟨-, hs⟩
    · exact (h.section?_of_mem (List.mem_of_find?_eq_some hs)).2
    · exact hdummy s (List.mem_of_find?_eq_some hs)

/-- Starting or resuming a section. -/
theorem grows_openSection {label : Bytes} {kind : SectionKind} {line : Int}
    (hlabel : IsLabel label) (h : t.openSection label kind line = .ok t') :
    Grows t t' := by
  unfold openSection at h
  split at h
  · rename_i existing hexisting
    split at h
    · simp at h
    · obtain rfl := Except.ok.inj h
      intro hwf
      have hs := hwf.numbered.sectionOfLabel? hexisting
      refine ((grows_modifyCurrent t moves_freeze).trans
        ((grows_modifySection _ existing.id moves_resume).trans
          (grows_setCurrent ?_))) hwf
      intro _
      obtain ⟨hfrozen, hext⟩ := grows_modifyCurrent t moves_freeze hwf
      obtain ⟨s', hs', -⟩ :=
        (hext.trans (grows_modifySection _ existing.id moves_resume
          hfrozen).2).sections _ _ hs
      exact ⟨s', hs'⟩
  · split at h
    · simp at h
    · exact grows_startSection hlabel h

/-! ### External names -/

/-- The external names, by name, after one of them is changed. -/
theorem map_name_modifyExternal (t : SymbolTable) (name : Bytes)
    {f : ExternalName → ExternalName} (hf : ∀ e, (f e).name = e.name) :
    (t.modifyExternal name f).externals.map (·.name) =
      t.externals.map (·.name) := by
  simp only [modifyExternal, List.map_map]
  apply List.map_congr_left
  intro e _
  simp only [Function.comp]
  split
  · exact hf e
  · rfl

/-- Whether a name is external depends on the names alone. -/
theorem external?_isSome_iff (t : SymbolTable) (name : Bytes) :
    (t.external? name).isSome ↔ name ∈ t.externals.map (·.name) := by
  simp [external?, List.find?_isSome]

/-- Changing an external name in what no invariant mentions. -/
theorem grows_modifyExternal (t : SymbolTable) (name : Bytes)
    {f : ExternalName → ExternalName}
    (hf : ∀ e, (f e).name = e.name ∧ (f e).sectionId = e.sectionId) :
    Grows t (t.modifyExternal name f) := by
  intro hwf
  have hnames := map_name_modifyExternal t name fun e => (hf e).1
  have hext : Extends t (t.modifyExternal name f) := by
    refine ⟨fun _ s hs => ⟨s, hs, Int64.le_refl _⟩, fun other he => ?_,
      fun _ _ hd => hd⟩
    rw [external?_isSome_iff] at he ⊢
    rwa [hnames]
  refine ⟨⟨hwf.numbered.congr rfl rfl rfl rfl, ?_, ?_⟩, hext⟩
  · refine hwf.linked.extend hext (fun _ d hd => Or.inl ⟨d, hd, rfl⟩)
      (fun s hs => Or.inl ⟨s, hs, rfl⟩) ?_ ?_
    · rw [hnames]
      exact hwf.linked.externals
    · intro e he
      obtain ⟨e₀, he₀, rfl⟩ := List.mem_map.mp he
      have hnamed := hwf.linked.named e₀ he₀
      split
      · rw [(hf e₀).1, (hf e₀).2]
        exact hnamed
      · exact hnamed
  · refine ⟨hwf.spelled.sections, fun e he => ?_, hwf.spelled.entries⟩
    obtain ⟨e₀, he₀, heq⟩ := List.mem_map.mp (hnames ▸ List.mem_map_of_mem he)
    exact heq ▸ hwf.spelled.externals e₀ he₀

/-- Adding an external name that is not known yet. -/
theorem grows_addExternal {e : ExternalName} (hnone : t.external? e.name = none)
    (hname : e.name ≠ []) (hlabel : IsLabel e.name)
    (hsection : e.sectionId = 0) :
    Grows t { t with externals := t.externals ++ [e] } := by
  intro hwf
  have hnew : e.name ∉ t.externals.map (·.name) := by
    rw [← external?_isSome_iff, hnone]
    simp
  have hext : Extends t { t with externals := t.externals ++ [e] } := by
    refine ⟨fun _ s hs => ⟨s, hs, Int64.le_refl _⟩, fun other he => ?_,
      fun _ _ hd => hd⟩
    rw [external?_isSome_iff] at he ⊢
    simp only [List.map_append, List.mem_append]
    exact Or.inl he
  refine ⟨⟨hwf.numbered.congr rfl rfl rfl rfl, ?_, ?_⟩, hext⟩
  · refine hwf.linked.extend hext (fun _ d hd => Or.inl ⟨d, hd, rfl⟩)
      (fun s hs => Or.inl ⟨s, hs, rfl⟩) ?_ ?_
    · simp only [List.map_append, List.map_cons, List.map_nil]
      rw [List.nodup_append]
      refine ⟨hwf.linked.externals, by simp, ?_⟩
      intro a ha b hb
      rw [List.mem_singleton.mp hb]
      rintro rfl
      exact hnew ha
    · intro e' he'
      rcases List.mem_append.mp he' with he' | he'
      · exact hwf.linked.named e' he'
      · rw [List.mem_singleton.mp he']
        exact ⟨hname, hsection⟩
  · refine ⟨hwf.spelled.sections, fun e' he' => ?_, hwf.spelled.entries⟩
    rcases List.mem_append.mp he' with he' | he'
    · exact hwf.spelled.externals e' he'
    · rw [List.mem_singleton.mp he']
      exact hlabel

/-- Making sure that a name is known as external. -/
theorem grows_referenceExternal (t : SymbolTable) {name : Bytes}
    (hname : name ≠ []) (hlabel : IsLabel name) (line : Int) :
    Grows t (t.referenceExternal name line) := by
  unfold referenceExternal
  split
  · exact Grows.refl t
  · rename_i hnone
    exact grows_addExternal (by simpa using hnone) hname hlabel rfl

/-- Then it is known. -/
theorem external?_referenceExternal (t : SymbolTable) (name : Bytes)
    (line : Int) :
    ((t.referenceExternal name line).external? name).isSome := by
  unfold referenceExternal
  split
  · assumption
  · rw [external?_isSome_iff]
    simp

/-- Declaring an external symbol. -/
theorem grows_declareExternal {name : Bytes} {weak : Bool} {line : Int}
    (hname : name ≠ []) (hlabel : IsLabel name)
    (h : t.declareExternal name weak line = .ok t') : Grows t t' := by
  unfold declareExternal at h
  split at h
  · split at h
    · obtain rfl := Except.ok.inj h
      exact grows_modifyExternal t name fun _ => ⟨rfl, rfl⟩
    · simp at h
  · -- the name is known as external before it is defined as such
    rename_i hnone
    let d : Definition :=
      ⟨Value.external name, 1, Definition.externalKind, line⟩
    let u : SymbolTable := if (t.external? name).isSome then
      t.modifyExternal name fun e => { e with weak }
      else { t with externals := t.externals ++ [{ name, weak, line }] }
    have hu : Grows t u := by
      by_cases hsome : (t.external? name).isSome
      · simp only [u, hsome, if_true]
        exact grows_modifyExternal t name fun _ => ⟨rfl, rfl⟩
      · simp only [u, hsome]
        exact grows_addExternal (by simpa using hsome) hname hlabel rfl
    have hexternal : (u.external? name).isSome := by
      by_cases hsome : (t.external? name).isSome
      · simp only [u, hsome, if_true]
        rw [external?_isSome_iff] at hsome ⊢
        rwa [map_name_modifyExternal t name (f := fun e => { e with weak })
          fun _ => rfl]
      · simp only [u, hsome]
        rw [external?_isSome_iff]
        simp
    have hdefine : u.define name d = .ok t' := by
      have hundefined : u.definition? name = none := by
        simp only [u]
        split
        · exact hnone
        · exact hnone
      have hstep : t.define name d =
          .ok { t with
            symbols :=
              alterSymbol name (fun s => { s with definition := some d })
                t.symbols } := by
        rw [define, hnone]
      rw [define, hundefined]
      rw [hstep] at h
      simp only [u]
      split
      · rename_i hsome
        exact (if_pos hsome).symm.trans h
      · rename_i hsome
        exact (if_neg hsome).symm.trans h
    refine hu.trans (grows_define hdefine fun _ hext term hterm => ?_)
    have htarget : term.target = .external name 0 := by
      simp only [d, Value.external, List.mem_singleton] at hterm
      rw [hterm, Target.named, if_neg hname]
    rw [htarget]
    exact ⟨rfl, hext.externals name hexternal,
      d, by rw [(definition?_define hdefine name).2, if_pos rfl], rfl⟩

end SymbolTable

end System370
