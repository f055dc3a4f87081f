import Mathlib.Data.Int.ModEq
import System370.Proofs.Linking

/-!
# Placed symbols and their numbers

Placing the sections adds their bases to every symbol, once.  A linker moves the
sections from there, and the numbers in the relocations tell it what to move by.
This file says that both together put a symbol where the linker wants it.

* `SymbolTable.linked_relocate`: moving a placed value by the displacements of
  its targets is the same as placing it at the new addresses in the first place;
* `SymbolTable.Numbered.readingOf_normalize`: so every expression can be read
  before or after;
* `Deck.displacement_linkId`: the number of a target finds its displacement in a
  module.
-/

namespace System370

/-- The addresses of targets.  Dummy sections stay at zero. -/
def Linkage.spot (link : Linkage) : Target → Int64
  | .origin id => if 0 < id then link.base id else 0
  | .external name _ => link.external name

/-- How far a linker moves a target from where a table has it. -/
def Linkage.move (link : Linkage) (t : SymbolTable) : Target → Int64
  | .origin id => if 0 < id then link.base id - t.offset id else 0
  | .external name _ => link.external name

namespace SymbolTable

variable {t : SymbolTable} {link : Linkage}

/-! ### Values -/

/-- A value moves by the sum of its sections' bases. -/
theorem number_relocate (t : SymbolTable) (v : Value) :
    (t.relocate v).number =
      v.number + Value.sumAt (fun target => t.offset target.sectionId)
        v.terms := by
  obtain ⟨number, terms⟩ := v
  show terms.foldl
    (fun n term => n + term.sign * t.offset term.target.sectionId) number = _
  induction terms generalizing number with
  | nil => simp [Value.sumAt]
  | cons term rest ih =>
      rw [List.foldl_cons, ih, Value.sumAt]
      grind

/-- **Moving a placed value** puts it at the new addresses. -/
theorem linked_relocate (t : SymbolTable) (v : Value) :
    (t.relocate v).linked (link.move t) = v.linked link.spot := by
  have hspot : ∀ target : Target,
      t.offset target.sectionId + link.move t target = link.spot target := by
    intro target
    cases target with
    | origin id =>
        by_cases hpos : 0 < id
        · simp only [Target.sectionId, Linkage.move, Linkage.spot,
            hpos, if_true]
          grind
        · simp [Target.sectionId, Linkage.move, Linkage.spot, hpos, offset]
    | external name id =>
        simp [Target.sectionId, Linkage.move, Linkage.spot, offset]
  have hterms : (t.relocate v).terms = v.terms := rfl
  have hsum := Value.sumAt_add (fun target => t.offset target.sectionId)
    (link.move t) v.terms
  unfold Value.linked
  rw [hterms, number_relocate]
  simp only [hspot] at hsum
  have hspots : Value.sumAt link.spot v.terms =
      Value.sumAt (fun target => link.spot target) v.terms := rfl
  rw [hspots, hsum]
  grind

theorem symbols_freeze (t : SymbolTable) : t.freeze.symbols = t.symbols := by
  unfold freeze modifyCurrent modifySection
  split
  · split
    · rfl
    · split <;> rfl
  · rfl

/-- **The definitions of a placed table are placed.** -/
theorem definition?_normalize (h : t.normalized = false) (name : Bytes) :
    t.normalize.definition? name =
      (t.definition? name).map fun d =>
        { d with value := t.normalize.relocate d.value } := by
  have hsymbols : t.normalize.symbols = t.symbols.map fun s => { s with
      definition := s.definition.map fun d =>
        { d with value := t.normalize.relocate d.value } } := by
    unfold normalize
    rw [h, ← symbols_freeze t]
    rfl
  unfold definition? symbol?
  rw [hsymbols, List.find?_map]
  show ((t.symbols.find? (·.name = name)).map _).bind _ = _
  cases t.symbols.find? (·.name = name) with
  | none => rfl
  | some s => rfl

/-- The value that a linker gives a symbol is that of its place. -/
theorem Numbered.linked_definition?_normalize (h : t.Numbered) (name : Bytes) :
    ((t.normalize.definition? name).map
      (·.value.linked (link.move t.normalize))).getD 0 =
      ((t.definition? name).map (·.value.linked link.spot)).getD 0 := by
  rw [definition?_normalize h.unplaced, Option.map_map]
  congr 2
  funext d
  exact t.normalize.linked_relocate d.value

theorem Numbered.length_definition?_normalize (h : t.Numbered) (name : Bytes) :
    ((t.normalize.definition? name).map (·.length)).getD 0 =
      ((t.definition? name).map (·.length)).getD 0 := by
  rw [definition?_normalize h.unplaced, Option.map_map]
  rfl

/-- A place before its section is placed. -/
theorem relocate_place (t : SymbolTable) (place : Expression.Place) :
    t.relocate ({ place with loc := place.loc - t.offset place.sectionId } :
      Expression.Place).value = place.value := by
  by_cases hzero : place.sectionId = 0
  · simp [Expression.Place.value, hzero, relocate, Value.absolute, offset]
  · simp only [Expression.Place.value, hzero, if_false, relocate,
      Value.relocatable, List.foldl_cons, List.foldl_nil, Target.sectionId,
      Value.mk.injEq, and_true]
    grind

/-- **An expression can be read before or after the sections are placed.** -/
theorem Numbered.readingOf_normalize (h : t.Numbered)
    (place : Expression.Place) :
    Expression.readingOf t.normalize place (link.move t.normalize) =
      Expression.readingOf t
        { place with loc := place.loc - t.normalize.offset place.sectionId }
          link.spot := by
  have hplace := @linked_relocate link t.normalize
    ({ place with loc := place.loc - t.normalize.offset place.sectionId } :
      Expression.Place).value
  rw [relocate_place] at hplace
  simp only [Expression.readingOf, h.linked_definition?_normalize,
    h.length_definition?_normalize, hplace]

/-! ### The numbers of external names -/

section Externals

variable {next : Int} {externals : List ExternalName} {e : ExternalName}

/-- The control section that has the name of an external name. -/
def namesake? (t : SymbolTable) (name : Bytes) : Option Section :=
  t.sections.find? (·.label = name)

/-- A name is looked for among the control sections first. -/
theorem filter_sectionOfLabel? (hcontrol : ∀ s ∈ t.sections, 0 < s.id)
    (hdummy : ∀ s ∈ t.dummies, ¬ 0 < s.id) {name : Bytes} (hname : name ≠ []) :
    ((t.sectionOfLabel? name false).filter fun s => 0 < s.id && name ≠ []) =
      t.namesake? name := by
  rw [sectionOfLabel?, if_neg hname]
  unfold namesake?
  cases hs : t.sections.find? (·.label = name) with
  | some s =>
      have hpos := hcontrol s (List.mem_of_find?_eq_some hs)
      simp [hpos, hname]
  | none =>
      rw [Option.none_or]
      cases hd : t.dummies.find? (·.label = name) with
      | none => rfl
      | some s =>
          have hneg := hdummy s (List.mem_of_find?_eq_some hd)
          simp [hneg]

/-- **A name has the number of the control section of that name**, or one of its
own. -/
theorem mem_numberExternals (hcontrol : ∀ s ∈ t.sections, 0 < s.id)
    (hdummy : ∀ s ∈ t.dummies, ¬ 0 < s.id)
    (hnamed : ∀ e ∈ externals, e.name ≠ [] ∧ e.sectionId = 0)
    (h : e ∈ t.numberExternals next externals) :
    (∃ s, t.namesake? e.name = some s ∧ e.id = s.id ∧ e.sectionId = s.id) ∨
      (t.namesake? e.name = none ∧ e.sectionId = 0 ∧ next ≤ e.id) := by
  induction externals generalizing next with
  | nil => simp [numberExternals] at h
  | cons first rest ih =>
      have hrest : ∀ e ∈ rest, e.name ≠ [] ∧ e.sectionId = 0 :=
        fun e he => hnamed e (List.mem_cons_of_mem _ he)
      obtain ⟨hname, hlocal⟩ := hnamed first List.mem_cons_self
      have hfilter := filter_sectionOfLabel? hcontrol hdummy hname
      unfold numberExternals at h
      rw [hfilter] at h
      cases hs : t.namesake? first.name with
      | some s =>
          rw [hs] at h
          rcases List.mem_cons.mp h with rfl | h
          · exact Or.inl ⟨s, hs, rfl, rfl⟩
          · exact ih hrest h
      | none =>
          rw [hs] at h
          rcases List.mem_cons.mp h with rfl | h
          · exact Or.inr ⟨hs, hlocal, Int.le_refl _⟩
          · rcases ih hrest h with hinner | ⟨hnone, hzero, hle⟩
            · exact Or.inl hinner
            · exact Or.inr ⟨hnone, hzero, by omega⟩

/-- No two external names have one number, apart from those of sections. -/
theorem find?_numberExternals (hcontrol : ∀ s ∈ t.sections, 0 < s.id)
    (hdummy : ∀ s ∈ t.dummies, ¬ 0 < s.id)
    (hnamed : ∀ e ∈ externals, e.name ≠ [] ∧ e.sectionId = 0)
    (h : e ∈ t.numberExternals next externals) (hlocal : e.sectionId = 0) :
    ((t.numberExternals next externals).filterMap Deck.externalSymbol?).find?
      (fun s => s.type ≠ .entry ∧ s.id = e.id) = Deck.externalSymbol? e := by
  induction externals generalizing next with
  | nil => simp [numberExternals] at h
  | cons first rest ih =>
      have hrest : ∀ e ∈ rest, e.name ≠ [] ∧ e.sectionId = 0 :=
        fun e he => hnamed e (List.mem_cons_of_mem _ he)
      obtain ⟨hname, hfirst⟩ := hnamed first List.mem_cons_self
      have hfilter := filter_sectionOfLabel? hcontrol hdummy hname
      unfold numberExternals at h ⊢
      rw [hfilter] at h ⊢
      cases hs : t.namesake? first.name with
      | some s =>
          have hpos : s.id ≠ 0 := by
            have := hcontrol s (List.mem_of_find?_eq_some hs)
            omega
          rw [hs] at h
          simp only
          rw [List.filterMap_cons_none (by simp [Deck.externalSymbol?, hpos])]
          rcases List.mem_cons.mp h with rfl | h
          · exact absurd hlocal hpos
          · exact ih hrest h
      | none =>
          rw [hs] at h
          simp only
          let symbol : Deck.Symbol :=
            { name := first.name, type := if first.weak then .weakExternal else
              .external, id := next }
          have hsymbol : Deck.externalSymbol? { first with id := next } =
              some symbol := by
            simp [Deck.externalSymbol?, hfirst, symbol]
          have htype : symbol.type ≠ .entry := by
            simp only [symbol]
            split <;> decide
          rw [List.filterMap_cons_some hsymbol]
          rcases List.mem_cons.mp h with rfl | h
          · rw [hsymbol, List.find?_cons_of_pos]
            exact decide_eq_true ⟨htype, rfl⟩
          · -- the numbers behind are greater
            rw [List.find?_cons_of_neg, ih hrest h]
            rcases mem_numberExternals hcontrol hdummy hrest h with
              ⟨s, hs, -, hsection⟩ | ⟨-, -, hle⟩
            · have := hcontrol s (List.mem_of_find?_eq_some hs)
              omega
            · have hne : next ≠ e.id := by omega
              simp [symbol, hne]

end Externals

/-- External names are numbered behind the control sections. -/
theorem WellFormed.externals_normalize (h : t.WellFormed) :
    ∃ u : SymbolTable,
      t.normalize.externals = u.numberExternals (t.sections.length + 1)
        t.externals ∧
      t.normalize.sections = u.sections ∧ (∀ s ∈ u.sections, 0 < s.id) ∧
      ∀ s ∈ u.dummies, ¬ 0 < s.id := by
  have hsections := h.numbered.sections_normalize
  refine ⟨{ t with normalized := true, sections := layOut 0 t.sections }, ?_,
    hsections, ?_, ?_⟩
  · rw [h.numbered.normalize_eq]
  · intro s hs
    obtain ⟨i, hi⟩ := List.getElem?_of_mem hs
    have hid := h.numbered.control_normalize i s (hsections ▸ hi)
    omega
  · intro s hs
    obtain ⟨i, hi⟩ := List.getElem?_of_mem hs
    have hid := h.numbered.dummy i s hi
    omega

/-- **The number of an external name after placing** is that of the control
section of the name, or finds its own external symbol. -/
theorem WellFormed.external?_normalize (h : t.WellFormed) {name : Bytes}
    {e : ExternalName} (he : t.normalize.external? name = some e) :
    name ≠ [] ∧
      ((∃ s, t.normalize.namesake? name = some s ∧ e.id = s.id ∧
        e.sectionId = s.id) ∨
        t.normalize.namesake? name = none ∧ e.sectionId = 0 ∧
          t.normalize.sections.length < e.id ∧
          ∃ type : Deck.SymbolType, type.isExternal = true ∧
            (t.normalize.externals.filterMap Deck.externalSymbol?).find?
                (fun s => s.type ≠ .entry ∧ s.id = e.id) =
                  some { name, type, id := e.id }) := by
  obtain ⟨u, hexternals, hsections, hcontrol, hdummy⟩ := h.externals_normalize
  have hmem : e ∈ u.numberExternals (t.sections.length + 1) t.externals :=
    hexternals ▸ List.mem_of_find?_eq_some he
  have hname : e.name = name := by simpa using List.find?_some he
  have hne : name ≠ [] := by
    have hsome :=
      (h.numbered.isSome_external?_normalize name).mp (by rw [he]; rfl)
    obtain ⟨e₀, he₀⟩ := Option.isSome_iff_exists.mp hsome
    have hname₀ : e₀.name = name := by simpa using List.find?_some he₀
    rw [← hname₀]
    exact (h.linked.named e₀ (List.mem_of_find?_eq_some he₀)).1
  have hnamesake : t.normalize.namesake? name = u.namesake? e.name := by
    rw [namesake?, namesake?, hsections, hname]
  have hlength : t.normalize.sections.length = t.sections.length := by
    rw [h.numbered.sections_normalize, length_layOut]
  refine ⟨hne, ?_⟩
  rw [hnamesake]
  rcases mem_numberExternals hcontrol hdummy h.linked.named hmem with
    hinner | ⟨hnone, hlocal, hle⟩
  · exact Or.inl hinner
  · refine Or.inr ⟨hnone, hlocal, by omega, if e.weak then .weakExternal else
      .external, ?_, ?_⟩
    · split <;> decide
    · rw [hexternals,
        find?_numberExternals hcontrol hdummy h.linked.named hmem hlocal]
      simp [Deck.externalSymbol?, hlocal, hname]

/-- An external symbol has no control section of its name. -/
theorem WellFormed.namesake?_eq_none (h : t.WellFormed) {name : Bytes}
    {id : Int} (hknown : t.Knows (.external name id)) (hname : name ≠ []) :
    t.normalize.namesake? name = none := by
  obtain ⟨-, -, d, hd, hkind⟩ := hknown
  cases hs : t.normalize.namesake? name with
  | none => rfl
  | some s =>
      have hlabel : s.label = name := by simpa using List.find?_some hs
      have hmem := List.mem_of_find?_eq_some hs
      rw [h.numbered.sections_normalize] at hmem
      obtain ⟨i, hi⟩ := List.getElem?_of_mem hmem
      obtain ⟨s₀, hs₀, heq⟩ := getElem?_layOut hi
      have hlabel₀ : s₀.label = name := by
        rw [heq] at hlabel
        exact hlabel
      obtain ⟨d', hd', hkind'⟩ :=
        h.linked.labels s₀ (List.mem_of_getElem? hs₀) (hlabel₀ ▸ hname)
      rw [hlabel₀, hd] at hd'
      obtain rfl := Option.some.inj hd'
      rw [hkind] at hkind'
      exact absurd hkind' (by decide)

end SymbolTable

/-! ### Displacements -/

namespace Deck

variable {options : Options} {modes : List (Bytes × Modes)} {t : SymbolTable}
  {m : Module} {link : Linkage}

/-- The address of a name: that of the control section of the name, or of the
name outside of the module. -/
def Module.address (m : Module) (link : Linkage) (name : Bytes) : Int64 :=
  match m.symbols.find? fun s => s.type = .control ∧ s.name = name with
  | some s => link.base s.id
  | none => link.external name

/-- External names have external symbols. -/
theorem type_externalSymbol? {e : ExternalName} {s : Symbol}
    (h : externalSymbol? e = some s) :
    s.type.isExternal = true := by
  unfold externalSymbol? at h
  split at h
  · simp at h
  · rw [← Option.some.inj h]
    simp only
    split <;> decide

/-- Entries have the symbols of entries. -/
theorem type_entrySymbol? {e : EntryName} {s : Symbol}
    (h : entrySymbol? t e = some s) :
    s.type = .entry := by
  unfold entrySymbol? at h
  split at h
  · simp at h
  · split at h
    · simp at h
    · rw [← Option.some.inj h]

/-- A number behind those of the sections finds an external name. -/
theorem find?_symbolsOf_external {id : Int}
    (hids : ∀ (i : Nat) s, t.sections[i]? = some s → s.id = i + 1)
    (hid : t.sections.length < id) :
    ((symbolsOf options modes t).find? fun s => s.type ≠ .entry ∧ s.id = id) =
      (t.externals.filterMap externalSymbol?).find? fun s =>
        s.type ≠ .entry ∧ s.id = id := by
  have hsections : ((t.sections.map (sectionSymbol options modes)).find?
      fun s => s.type ≠ .entry ∧ s.id = id) = none := by
    rw [List.find?_eq_none]
    intro symbol hsymbol
    obtain ⟨s, hs, rfl⟩ := List.mem_map.mp hsymbol
    obtain ⟨i, hi⟩ := List.getElem?_of_mem hs
    have hlt := (List.getElem?_eq_some_iff.mp hi).1
    have hs := hids i s hi
    have hne : s.id ≠ id := by omega
    simp [sectionSymbol, hne]
  have hentries : ((t.entries.filterMap (entrySymbol? t)).find?
      fun s => s.type ≠ .entry ∧ s.id = id) = none := by
    rw [List.find?_eq_none]
    intro symbol hsymbol
    obtain ⟨e, -, he⟩ := List.mem_filterMap.mp hsymbol
    simp [type_entrySymbol? he]
  unfold symbolsOf
  rw [List.append_assoc, List.find?_append, List.find?_append, hsections,
    hentries, Option.none_or, Option.or_none]

/-- A name finds the control section that has it. -/
theorem find?_symbolsOf_control {name : Bytes} (hname : name ≠ []) :
    ((symbolsOf options modes t).find? fun s => s.type = .control ∧ s.name = name) =
      (t.namesake? name).map (sectionSymbol options modes) := by
  have hsections : ((t.sections.map (sectionSymbol options modes)).find?
      fun s => s.type = .control ∧ s.name = name) =
      (t.namesake? name).map (sectionSymbol options modes) := by
    rw [List.find?_map]
    congr 2
    funext s
    by_cases hlabel : s.label = name
    · simp [sectionSymbol, hlabel, hname]
    · simp [sectionSymbol, hlabel]
  have hothers : (((t.externals.filterMap externalSymbol?) ++
      t.entries.filterMap (entrySymbol? t)).find? fun s => s.type = .control ∧
        s.name = name) = none := by
    rw [List.find?_eq_none]
    intro symbol hsymbol
    have htype : symbol.type ≠ .control := by
      rcases List.mem_append.mp hsymbol with hsymbol | hsymbol
      · obtain ⟨e, -, he⟩ := List.mem_filterMap.mp hsymbol
        intro hcontrol
        have hexternal := type_externalSymbol? he
        rw [hcontrol] at hexternal
        exact absurd hexternal (by decide)
      · obtain ⟨e, -, he⟩ := List.mem_filterMap.mp hsymbol
        rw [type_entrySymbol? he]
        decide
    simp [htype]
  unfold symbolsOf
  rw [List.append_assoc, List.find?_append, hsections, hothers, Option.or_none]

/-- How far a control section moves. -/
theorem displacement_section
    (hids : ∀ (i : Nat) s, t.sections[i]? = some s → s.id = i + 1)
    (hm : m.symbols = symbolsOf options modes t) {id : Int} {s : Section}
    (hpos : 0 < id) (hs : t.section? id = some s) :
    m.displacement link id = (link.base id).toInt - s.base.toInt := by
  have hsymbol : m.symbol? id = some (sectionSymbol options modes s) := by
    unfold Module.symbol?
    rw [hm]
    exact find?_symbolsOf_section hids hpos hs
  have hid : s.id = id := by
    have := hids _ s (SymbolTable.Numbered.getElem?_of_section? hpos hs)
    omega
  have htype : (sectionSymbol options modes s).type.isExternal = false := by
    unfold sectionSymbol
    simp only
    split <;> decide
  unfold Module.displacement
  rw [hsymbol]
  simp only [htype]
  simp [sectionSymbol, hid]

/-- **The relocation of a name of a control section** brings its base to the
address of the name. -/
theorem displacement_inner (h : t.WellFormed)
    (hm : m.symbols = symbolsOf options modes t.normalize) {name : Bytes}
    {e : ExternalName}
    (he : t.normalize.external? name = some e) (hlocal : e.sectionId ≠ 0) :
    (t.normalize.offset e.sectionId).toInt + m.displacement link e.id =
      (m.address link name).toInt := by
  obtain ⟨hname, ⟨s, hs, hid, hsection⟩ | ⟨-, hzero, -⟩⟩ :=
    h.external?_normalize he
  · have hmem := List.mem_of_find?_eq_some hs
    obtain ⟨i, hi⟩ := List.getElem?_of_mem hmem
    have hnumber := h.numbered.control_normalize i s hi
    have hpos : 0 < s.id := by omega
    have hindex : s.id.toNat - 1 = i := by omega
    have hfound : t.normalize.section? s.id = some s := by
      rw [SymbolTable.section?, if_pos hpos, hindex]
      exact hi
    have haddress : m.address link name = link.base s.id := by
      unfold Module.address
      rw [hm, find?_symbolsOf_control hname, hs]
      rfl
    rw [haddress, hid, hsection, SymbolTable.offset_eq hpos hfound,
      displacement_section h.numbered.control_normalize hm hpos hfound]
    omega
  · exact absurd hzero hlocal

/-- The relocation of any other name is its address. -/
theorem displacement_outer (h : t.WellFormed)
    (hm : m.symbols = symbolsOf options modes t.normalize)
    {name : Bytes} {e : ExternalName} (he : t.normalize.external? name = some e)
    (hlocal : t.normalize.namesake? name = none ∨ e.sectionId = 0) :
    m.displacement link e.id = (link.external name).toInt ∧
      m.address link name = link.external name := by
  obtain ⟨hname,
      ⟨s, hs, hid, hsection⟩ | ⟨hnone, hzero, hlt, type, htype, hfind⟩⟩ :=
    h.external?_normalize he
  · rcases hlocal with hnone | hzero
    · rw [hs] at hnone
      simp at hnone
    · obtain ⟨i, hi⟩ := List.getElem?_of_mem (List.mem_of_find?_eq_some hs)
      have := h.numbered.control_normalize i s hi
      omega
  · constructor
    · have hsymbol : m.symbol? e.id = some { name, type, id := e.id } := by
        unfold Module.symbol?
        rw [hm, find?_symbolsOf_external h.numbered.control_normalize hlt,
          hfind]
      unfold Module.displacement
      rw [hsymbol]
      simp [htype]
    · unfold Module.address
      rw [hm, find?_symbolsOf_control hname, hnone]
      rfl

/-- **The number of a target finds its displacement**, modulo the size of a
word. -/
theorem displacement_linkId (h : t.WellFormed)
    (hm : m.symbols = symbolsOf options modes t.normalize) {target : Target}
    (hknown : t.Knows target) (hsection : 0 ≤ target.sectionId) :
    m.displacement link (t.normalize.linkId target) ≡
      (link.move t.normalize target).toInt
      [ZMOD 2 ^ 64] := by
  cases target with
  | origin id =>
      obtain ⟨s₀, hs₀⟩ := hknown
      have hne := SymbolTable.ne_zero_of_section? hs₀
      have hpos : 0 < id := by
        have : 0 ≤ id := hsection
        omega
      obtain ⟨s, hs, -⟩ := h.numbered.exists_section?_normalize hs₀
      simp only [SymbolTable.linkId, Linkage.move, hpos, if_true]
      rw [displacement_section h.numbered.control_normalize hm hpos hs,
        SymbolTable.offset_eq hpos hs, Int64.toInt_sub]
      exact (Int.bmod_emod).symm
  | external name id =>
      have hexternal :=
        (h.numbered.isSome_external?_normalize name).mpr hknown.2.1
      obtain ⟨e, he⟩ := Option.isSome_iff_exists.mp hexternal
      have hname := (h.external?_normalize he).1
      have hnone := h.namesake?_eq_none hknown hname
      have hid : t.normalize.linkId (.external name id) = e.id := by
        simp [SymbolTable.linkId, he]
      rw [hid, (displacement_outer h hm he (Or.inl hnone)).1]
      exact Int.ModEq.rfl

end Deck

end System370
