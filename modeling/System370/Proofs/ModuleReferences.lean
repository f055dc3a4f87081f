import System370.Proofs.DeckRoundTrip
import System370.Proofs.EntryPoint

/-!
# References inside a module

Text, relocations, entry points and the end item of a module refer to its
symbols by number, and the end item also by name.  Whatever the source, these
references lead somewhere: the symbols are numbered in order, control sections
first and external names behind them, and every number in use is one of theirs.

* `Deck.symbolsOf_parts`: the symbols of a module and their numbers;
* `Patch.Made.referenced`: the relocations of a patch name symbols of the
  module;
* `Assembly.references`: every reference of a module is to a symbol of the right
  type.
-/

namespace System370

/-- A place in a section is its origin, once. -/
theorem Value.terms_of_sectionId (v : Value) (h : v.sectionId ≠ 0) :
    v.terms = [⟨.origin v.sectionId, 1⟩] := by
  obtain ⟨number, terms⟩ := v
  match terms with
  | [] => exact absurd rfl h
  | [⟨target, sign⟩] =>
      by_cases hsign : sign = 1
      · cases target with
        | origin id => simp [sectionId, Target.sectionId, hsign]
        | external name id => simp [sectionId, Target.sectionId] at h
      · simp [sectionId, hsign] at h
  | _ :: _ :: _ => exact absurd rfl h

/-! ### The numbers of the symbols -/

namespace SymbolTable

variable {t : SymbolTable}

theorem namesake?_isNone (t : SymbolTable) (name : Bytes) :
    (t.namesake? name).isNone = decide (name ∉ t.sections.map (·.label)) := by
  rw [Bool.eq_iff_iff]
  simp [namesake?]

/-- **The external symbols are numbered in order.**  They are the external names
of which no control section has the name. -/
theorem symbols_numberExternals {externals : List ExternalName}
    (hcontrol : ∀ s ∈ t.sections, 0 < s.id)
    (hdummy : ∀ s ∈ t.dummies, ¬ 0 < s.id)
    (hnamed : ∀ e ∈ externals, e.name ≠ [] ∧ e.sectionId = 0) (next : Nat) :
    ((t.numberExternals next externals).filterMap Deck.externalSymbol?).map
      (·.name) =
        (externals.map (·.name)).filter
          (fun name => (t.namesake? name).isNone) ∧
      ((t.numberExternals next externals).filterMap Deck.externalSymbol?).map
        (·.id) =
        (List.range' next ((t.numberExternals next externals).filterMap
          Deck.externalSymbol?).length).map Int.ofNat := by
  induction externals generalizing next with
  | nil => exact ⟨rfl, rfl⟩
  | cons e rest ih =>
      have hrest : ∀ e ∈ rest, e.name ≠ [] ∧ e.sectionId = 0 :=
        fun e he => hnamed e (List.mem_cons_of_mem _ he)
      obtain ⟨hname, hlocal⟩ := hnamed e List.mem_cons_self
      unfold numberExternals
      rw [filter_sectionOfLabel? hcontrol hdummy hname, List.map_cons]
      cases hs : t.namesake? e.name with
      | some s =>
          have hid : s.id ≠ 0 := by
            have := hcontrol s (List.mem_of_find?_eq_some hs)
            omega
          simp only
          rw [List.filterMap_cons_none (by simp [Deck.externalSymbol?, hid]),
            List.filter_cons_of_neg (by simp [hs])]
          exact ih hrest next
      | none =>
          obtain ⟨hnames, hids⟩ := ih hrest (next + 1)
          simp only
          rw [List.filterMap_cons_some
            (by rw [Deck.externalSymbol?, if_neg (by simp [hlocal])]),
            List.filter_cons_of_pos (by simp [hs]), List.map_cons,
            List.map_cons, List.length_cons, List.range'_succ, List.map_cons]
          exact ⟨congrArg _ hnames, congrArg _ hids⟩

end SymbolTable

namespace Deck

/-- Whether the type is that of a control section. -/
def SymbolType.isSection (type : SymbolType) : Bool :=
  type = control || type = unnamed

/-- The control section of a number. -/
def Module.section? (m : Module) (id : Int) : Option Symbol :=
  (m.symbol? id).filter (·.type.isSection)

variable {options : Options} {modes : List (Bytes × Modes)} {t : SymbolTable}
  {m : Module}

theorem isSection_sectionSymbol (s : Section) :
    (sectionSymbol options modes s).type.isSection = true := by
  unfold sectionSymbol
  simp only
  split <;> rfl

/-- **The symbols of a module in their order**: the control sections, the
external names that no control section has, and the entry points.  All but the
entry points are numbered from one on. -/
theorem symbolsOf_parts (options : Options) (modes : List (Bytes × Modes))
    (h : t.WellFormed) :
    (t.normalize.externals.filterMap externalSymbol?).map (·.name) =
        (t.normalize.externals.map (·.name)).filter
          (· ∉ t.normalize.sections.map (·.label)) ∧
      (t.normalize.sections.map (sectionSymbol options modes) ++
          t.normalize.externals.filterMap externalSymbol?).map (·.id) =
        (List.range' 1
          (t.normalize.sections.map (sectionSymbol options modes) ++
          t.normalize.externals.filterMap externalSymbol?).length).map
            Int.ofNat := by
  obtain ⟨u, hexternals, hsections, hcontrol, hdummy⟩ := h.externals_normalize
  have hlength : t.normalize.sections.length = t.sections.length := by
    rw [h.numbered.sections_normalize, SymbolTable.length_layOut]
  have hnext : ((t.sections.length : Int) + 1) =
      ((t.sections.length + 1 : Nat) : Int) := by
    push_cast
    rfl
  rw [hnext] at hexternals
  obtain ⟨hnames, hids⟩ :=
    SymbolTable.symbols_numberExternals hcontrol hdummy h.linked.named
      (t.sections.length + 1)
  rw [← hexternals] at hnames hids
  constructor
  · have hspelling : t.externals.map (·.name) =
        t.normalize.externals.map (·.name) := by
      rw [hexternals, SymbolTable.names_numberExternals]
    rw [hnames, hspelling, hsections]
    simp only [SymbolTable.namesake?_isNone]
  · have hfirst :
        (t.normalize.sections.map (sectionSymbol options modes)).map (·.id) =
        (List.range' 1 t.normalize.sections.length).map Int.ofNat := by
      rw [List.map_map]
      apply List.ext_getElem
      · simp
      · intro i hi _
        have hi : i < t.normalize.sections.length := by simpa using hi
        have hid :=
          h.numbered.control_normalize i _ (List.getElem?_eq_getElem hi)
        simp [sectionSymbol, hid]
        omega
    rw [List.map_append, hfirst, hids, List.length_append,
      List.length_map, hlength,
      ← List.map_append, Nat.add_comm t.sections.length 1, List.range'_append_1]

/-- A control section of the program is one of the module. -/
theorem section?_of_section? (h : t.WellFormed)
    (hm : m.symbols = symbolsOf options modes t.normalize) {id : Int}
    {s : Section} (hpos : 0 < id) (hs : t.normalize.section? id = some s) :
    m.section? id = some (sectionSymbol options modes s) := by
  have hsymbol : m.symbol? id = some (sectionSymbol options modes s) := by
    unfold Module.symbol?
    rw [hm]
    exact find?_symbolsOf_section h.numbered.control_normalize hpos hs
  unfold Module.section?
  rw [hsymbol, Option.filter_some, if_pos (isSection_sectionSymbol s)]

/-- A control section of a program before it is placed is one of the module. -/
theorem exists_section? (h : t.WellFormed)
    (hm : m.symbols = symbolsOf options modes t.normalize) {id : Int}
    {s : Section} (hpos : 0 < id) (hs : t.section? id = some s) :
    (m.section? id).isSome := by
  obtain ⟨s', hs', -⟩ := h.numbered.exists_section?_normalize hs
  rw [section?_of_section? h hm hpos hs']
  rfl

/-- The number of a section is one of a symbol. -/
theorem symbol?_of_section? {id : Int} (h : (m.section? id).isSome) :
    (m.symbol? id).isSome := by
  unfold Module.section? at h
  cases hs : m.symbol? id with
  | none =>
      rw [hs] at h
      simp at h
  | some s => rfl

/-- **The number of an external name** is one of a symbol: of a control section,
or of the name itself. -/
theorem symbol?_external (h : t.WellFormed)
    (hm : m.symbols = symbolsOf options modes t.normalize) {name : Bytes}
    {e : ExternalName} (he : t.normalize.external? name = some e) :
    (m.symbol? e.id).isSome ∧ e.id ≠ 0 := by
  obtain ⟨-, ⟨s, hs, hid, -⟩ | ⟨-, -, hlt, type, -, hfind⟩⟩ :=
    h.external?_normalize he
  · obtain ⟨i, hi⟩ := List.getElem?_of_mem (List.mem_of_find?_eq_some hs)
    have hnumber := h.numbered.control_normalize i s hi
    have hpos : 0 < e.id := by omega
    have hfound : t.normalize.section? e.id = some s := by
      rw [SymbolTable.section?, if_pos hpos, ← hi]
      congr 1
      omega
    exact ⟨symbol?_of_section?
      (by rw [section?_of_section? h hm hpos hfound]; rfl), by omega⟩
  · refine ⟨?_, by omega⟩
    unfold Module.symbol?
    rw [hm, find?_symbolsOf_external h.numbered.control_normalize hlt, hfind]
    rfl

/-- An external symbol of the program is one of the module. -/
theorem exists_external (h : t.WellFormed)
    (hm : m.symbols = symbolsOf options modes t.normalize) {name : Bytes}
    (hknown : t.Knows (.external name 0)) :
    ∃ s ∈ m.symbols, s.type.isExternal = true ∧ s.name = name := by
  obtain ⟨e, he⟩ := Option.isSome_iff_exists.mp
    ((h.numbered.isSome_external?_normalize name).mpr hknown.2.1)
  obtain ⟨hname, ⟨s, hs, -⟩ | ⟨-, -, hlt, type, htype, hfind⟩⟩ :=
    h.external?_normalize he
  · rw [h.namesake?_eq_none hknown hname] at hs
    simp at hs
  · refine ⟨{ name, type, id := e.id }, ?_, htype, rfl⟩
    rw [hm]
    apply List.mem_of_find?_eq_some (p := fun s => s.type ≠ .entry ∧
      s.id = e.id)
    rw [find?_symbolsOf_external h.numbered.control_normalize hlt, hfind]

/-- **An entry point lies in a control section.** -/
theorem owner_entry (h : t.WellFormed)
    (hm : m.symbols = symbolsOf options modes t.normalize) {s : Symbol}
    (hs : s ∈ m.symbols) (htype : s.type = .entry) :
    (m.section? s.owner).isSome := by
  rw [hm, symbolsOf, List.append_assoc] at hs
  rcases List.mem_append.mp hs with hs | hs
  · obtain ⟨section', -, rfl⟩ := List.mem_map.mp hs
    exact absurd htype (type_sectionSymbol _)
  rcases List.mem_append.mp hs with hs | hs
  · obtain ⟨e, -, he⟩ := List.mem_filterMap.mp hs
    have hexternal := type_externalSymbol? he
    rw [htype] at hexternal
    exact absurd hexternal (by decide)
  · obtain ⟨e, -, he⟩ := List.mem_filterMap.mp hs
    unfold entrySymbol? at he
    rw [SymbolTable.definition?_normalize h.numbered.unplaced] at he
    cases hd : t.definition? e.name with
    | none => simp [hd] at he
    | some d =>
        rw [hd, Option.map_some] at he
        simp only at he
        split at he
        · simp at he
        · rename_i howner
          rw [← Option.some.inj he]
          -- relocating moves the number of a value and keeps its section
          have hkept : (t.normalize.relocate d.value).sectionId =
              d.value.sectionId := rfl
          rw [hkept] at howner
          simp only [hkept]
          obtain ⟨s, hs⟩ :=
            h.linked.targets e.name d hd ⟨.origin d.value.sectionId, 1⟩ (by
            rw [d.value.terms_of_sectionId (by omega)]
            exact List.mem_cons_self)
          exact exists_section? h hm (Int.not_le.mp howner) hs

/-- **The number of a target is one of a symbol.** -/
theorem symbol?_linkId (h : t.WellFormed)
    (hm : m.symbols = symbolsOf options modes t.normalize) {target : Target}
    (hknown : t.Knows target) (hsection : 0 ≤ target.sectionId) :
    (m.symbol? (t.normalize.linkId target)).isSome ∧
      t.normalize.linkId target ≠ 0 := by
  cases target with
  | origin id =>
      obtain ⟨s, hs⟩ := hknown
      have hne := SymbolTable.ne_zero_of_section? hs
      have hpos : 0 < id := by
        have : 0 ≤ id := hsection
        omega
      rw [SymbolTable.linkId, if_pos hpos]
      exact ⟨symbol?_of_section? (exists_section? h hm hpos hs), hne⟩
  | external name id =>
      obtain ⟨e, he⟩ := Option.isSome_iff_exists.mp
        ((h.numbered.isSome_external?_normalize name).mpr hknown.2.1)
      rw [SymbolTable.linkId, he]
      exact symbol?_external h hm he

end Deck

/-! ### The relocations -/

/-- **The relocations of a patch** are in the section of its item, and their
targets are symbols of the module. -/
theorem Patch.Made.referenced {t : SymbolTable} {p : Patch}
    (hp : p.Made t.normalize) (h : t.WellFormed)
    {options : Options} {modes : List (Bytes × Modes)} {m : Deck.Module}
    (hm : m.symbols = Deck.symbolsOf options modes t.normalize)
    (hplace : t.Holds p.item.place) :
    ∀ r ∈ p.relocations, r.position = p.item.place.sectionId ∧
      (m.symbol? r.target).isSome ∧ r.target ≠ 0 := by
  intro r hr
  cases hp with
  | value hpos hkind hresult =>
      obtain ⟨term, hterm, hr⟩ := List.mem_flatMap.mp hr
      have hknown := h.targets_evaluate_normalize hplace hresult term hterm
      unfold Generate.termRelocations at hr
      split at hr
      · simp at hr
      · rename_i hsection
        rw [(List.mem_replicate.mp hr).2]
        exact ⟨rfl, Deck.symbol?_linkId h hm hknown (Int.not_lt.mp hsection)⟩
  | inner hpos hkind he =>
      rw [List.mem_singleton.mp hr]
      exact ⟨rfl, Deck.symbol?_external h hm he⟩
  | outer hpos hkind he =>
      rw [List.mem_singleton.mp hr]
      exact ⟨rfl, Deck.symbol?_external h hm he⟩
  | base => simp at hr
  | aside => simp at hr

namespace Assembly

variable {options : Options} {source today : Bytes} {a : Assembly}
  {m : Deck.Module} {statements : List Statement}

/-- **A relocation lies in its control section**, and its target is a symbol. -/
theorem Made.relocations_inside
    (h : a.Made options (Program.ofStatements options statements))
    (hcontained : (Program.ofStatements options statements).Contained)
    (hm : a.module? = some m)
    (hrange : (Program.unplaced options statements).InRange) :
    ∀ r ∈ m.relocations,
      (∃ s, m.section? r.position = some s ∧ s.address.toInt ≤ r.address.toInt ∧
        r.address.toInt + r.length ≤ s.address.toInt + s.length.toInt) ∧
      1 ≤ r.length ∧ r.length ≤ 4 ∧ (m.symbol? r.target).isSome ∧
      r.target ≠ 0 := by
  obtain ⟨hwf, hplaced⟩ := Program.unplaced_spec options statements
  obtain ⟨coded, hsame, hrelocations, hcoded⟩ := h.coded hcontained hm
  intro r hr
  rw [hrelocations] at hr
  obtain ⟨p, hp, hr⟩ := List.mem_flatMap.mp hr
  obtain ⟨c, hc, hp⟩ := List.mem_flatMap.mp hp
  obtain ⟨hc, hpos⟩ := List.mem_filter.mp hc
  have hpos : 0 < c.1.sectionId := by simpa using hpos
  obtain ⟨hmade, hrecord, hshaped, hfields⟩ := hcoded c hc
  obtain ⟨run, hwrite, hlow, hhigh, -⟩ := (hfields hpos).2 p hp
  obtain ⟨hsection, hlength⟩ := hrecord.of_mem hshaped.sound hp
  obtain ⟨haddress, hfield⟩ := (hmade p hp).field r hr
  obtain ⟨hposition, htarget⟩ :=
    (hmade p hp).referenced hwf.symbols (h.symbols_eq hm)
      (fun _ => hsection ▸ hshaped.anchored (by omega)) r hr
  obtain ⟨-, s, hs, hsectionLow, hsectionHigh⟩ :=
    hrange.runs_inside hwf hplaced run (by
    have hruns :
        (Program.unplaced options statements).normalize.generated.2.runs =
        a.records.filterMap Record.write? := h.runs
    rw [hruns]
    exact List.mem_filterMap.mpr ⟨c.1,
      hsame ▸ List.mem_map.mpr ⟨c, hc, rfl⟩, hwrite⟩)
  obtain ⟨data, -, -, -, rfl⟩ := Record.write?_eq_some_iff.mp hwrite
  rw [hposition, hsection, haddress, hfield]
  refine ⟨⟨_, Deck.section?_of_section? hwf.symbols (h.symbols_eq hm) hpos hs,
    ?_, ?_⟩, by omega, by omega, htarget⟩
  · exact hsectionLow.trans hlow
  · exact hhigh.trans hsectionHigh

/-- The text of a module is in its control sections. -/
theorem Made.section?_text
    (h : a.Made options (Program.ofStatements options statements))
    (hm : a.module? = some m)
    (hrange : (Program.unplaced options statements).InRange) :
    ∀ t ∈ m.text, (m.section? t.sectionId).isSome := by
  obtain ⟨hwf, hplaced⟩ := Program.unplaced_spec options statements
  intro t ht
  obtain ⟨hlow, horder, hhigh⟩ := (h.text m hm).inside
    (Extent.inside_ofRuns (hrange.inside_ofRun hwf hplaced)) t ht
  obtain ⟨hpos, s, hs⟩ := SymbolTable.exists_section?_of_low_lt
    (Int.lt_of_le_of_lt hlow (Int.lt_of_lt_of_le horder hhigh))
  rw [Deck.section?_of_section? hwf.symbols (h.symbols_eq hm) hpos hs]
  rfl

/-- **The end item of a module** comes from its end statement. -/
theorem Made.given
    (h : a.Made options (Program.ofStatements options statements))
    (hm : a.module? = some m) :
    ∃ e identifications, m.ending = { e with identifications } ∧
      Deck.End.Given
        (Program.unplaced options statements).layout.symbols.normalize
        (Program.unplaced options statements).layout.symbols.Holds e := by
  obtain ⟨-, hplaced⟩ := Program.unplaced_spec options statements
  obtain ⟨identifications, hending⟩ := h.ending m hm
  refine ⟨_, identifications, hending, ?_⟩
  refine Generation.given_run
    (g := Generation.new (Program.ofStatements options statements))
    (fun r hr => (Program.settled_ofStatements options statements r hr).ready)
    ⟨rfl, fun _ => rfl⟩ ?_ .nothing
  intro r hr
  obtain ⟨r₀, hr₀, rfl⟩ := List.mem_map.mp hr
  exact (hplaced r₀ hr₀).anchored

/-- The table of an assembly is the one of the laid out program, references
apart. -/
theorem Made.table_eq
    (h : a.Made options (Program.ofStatements options statements)) :
    a.symbols.sections =
      (Program.unplaced options statements).layout.symbols.normalize.sections ∧
      a.symbols.externals =
        (Program.unplaced options
          statements).layout.symbols.normalize.externals := by
  have hreads := Program.reads_generated fun r hr =>
    (Program.settled_ofStatements options statements r hr).ready
  rw [h.table, hreads.symbols]
  exact ⟨rfl, rfl⟩

/-- **Every reference inside a module leads to one of its symbols.**  The
symbols are the control sections, then the external names that no control
section has, both numbered in order from one on, and then the entry points.
Text, relocations and entry points are in control sections, and so is an entry
point of the end item that has a section; the targets of relocations are symbols
with a number; a name in the end item is external. -/
theorem references (hrun : assemble options source today = .ok a)
    (hm : a.module? = some m)
    (hread : Statement.readAll source = .ok statements)
    (hrange : (Program.unplaced options statements).InRange) :
    (∃ controls externals entries,
      m.symbols = controls ++ externals ++ entries ∧
      controls.map (fun s => (s.name, s.address, s.length)) =
        a.symbols.sections.map (fun s => (s.label, s.base, s.length)) ∧
      (∀ s ∈ controls, s.type.isSection = true) ∧
      externals.map (·.name) =
        (a.symbols.externals.map (·.name)).filter
          (· ∉ a.symbols.sections.map (·.label)) ∧
      (∀ s ∈ externals, s.type.isExternal = true) ∧
      (∀ s ∈ entries, s.type = .entry) ∧
      (controls ++ externals).map (·.id) =
        (List.range' 1 (controls ++ externals).length).map Int.ofNat) ∧
    (∀ t ∈ m.text, (m.section? t.sectionId).isSome) ∧
    (∀ r ∈ m.relocations,
      (∃ s, m.section? r.position = some s ∧ s.address.toInt ≤ r.address.toInt ∧
        r.address.toInt + r.length ≤ s.address.toInt + s.length.toInt) ∧
      1 ≤ r.length ∧ r.length ≤ 4 ∧ (m.symbol? r.target).isSome ∧
      r.target ≠ 0) ∧
    (∀ s ∈ m.symbols, s.type = .entry → (m.section? s.owner).isSome) ∧
    (m.ending.sectionId ≠ 0 → (m.section? m.ending.sectionId).isSome) ∧
    (m.ending.name ≠ [] → ∃ s ∈ m.symbols, s.type.isExternal = true ∧
      s.name = m.ending.name) := by
  obtain ⟨hcontained, hmade⟩ := of_assemble hrun hread
  have hwf := (Program.unplaced_spec options statements).1.symbols
  have hsymbols := hmade.symbols_eq hm
  obtain ⟨e, identifications, hending, hgiven⟩ := hmade.given hm
  obtain ⟨hsections, hexternals⟩ := hmade.table_eq
  refine ⟨?_, hmade.section?_text hm hrange,
    hmade.relocations_inside hcontained hm hrange,
    fun s => Deck.owner_entry hwf hsymbols, ?_, ?_⟩
  · obtain ⟨hnames, hids⟩ := Deck.symbolsOf_parts options
      (Program.ofStatements options statements).layout.modes hwf
    rw [hsections, hexternals]
    refine ⟨_, _, _, hsymbols, ?_, ?_, hnames, ?_, ?_, hids⟩
    · rw [List.map_map]
      rfl
    · intro s hs
      obtain ⟨s, -, rfl⟩ := List.mem_map.mp hs
      exact Deck.isSection_sectionSymbol s
    · intro s hs
      obtain ⟨e, -, he⟩ := List.mem_filterMap.mp hs
      exact Deck.type_externalSymbol? he
    · intro s hs
      obtain ⟨e, -, he⟩ := List.mem_filterMap.mp hs
      exact Deck.type_entrySymbol? he
  · rw [hending]
    intro hne
    rcases hgiven.cases hwf with rfl | ⟨s, hpos, hs, -⟩ | ⟨name, -, rfl⟩
    · exact absurd rfl hne
    · rw [Deck.section?_of_section? hwf hsymbols hpos hs]
      rfl
    · exact absurd rfl hne
  · rw [hending]
    intro hne
    rcases hgiven.cases hwf with rfl | ⟨s, -, -, he⟩ | ⟨name, hknown, rfl⟩
    · exact absurd rfl hne
    · rw [he] at hne
      exact absurd rfl hne
    · exact Deck.exists_external hwf hsymbols hknown

/-- A module with two sections, one of which an address constant names, a weak
external name, an entry point and an end statement that names something
outside. -/
theorem references_entered :
    ∃ source statements a m, Statement.readAll source = .ok statements ∧
      assemble {} source = .ok a ∧ a.module? = some m ∧
      (Program.unplaced {} statements).InRange ∧
      (m.symbols.map fun s => (s.name, s.id, s.owner)) =
        [(bytes "A", 1, 0), (bytes "B", 2, 0), (bytes "E", 3, 0),
          (bytes "W", 4, 0), (bytes "X", 0, 2)] ∧
      (m.relocations.map fun r => (r.position, r.target, r.address, r.length)) =
        [(1, 2, 0, 4), (1, 4, 4, 3), (2, 3, 8, 4)] ∧
      (∀ r ∈ m.relocations, (m.symbol? r.target).isSome ∧ r.target ≠ 0) ∧
      m.ending.name = bytes "E" ∧ ∃ s ∈ m.symbols, s.type.isExternal = true ∧
      s.name = bytes "E" := by
  have hassembled := exists_assemble_of_any {} (bytes (String.append
    "A CSECT\n EXTRN E\n WXTRN W\n ENTRY X\n DC V(B),AL3(W+1)\n"
    "B CSECT\nX DC V(E)\n END E\n"))
    (fun statements a => a.module?.any fun m =>
      decide ((Program.unplaced {} statements).InRange ∧
      (m.symbols.map fun s => (s.name, s.id, s.owner)) =
        [(bytes "A", 1, 0), (bytes "B", 2, 0), (bytes "E", 3, 0),
          (bytes "W", 4, 0), (bytes "X", 0, 2)] ∧
      (m.relocations.map fun r => (r.position, r.target, r.address, r.length)) =
        [(1, 2, 0, 4), (1, 4, 4, 3), (2, 3, 8, 4)] ∧
      m.ending.name = bytes "E")) (by decide +kernel)
  obtain ⟨statements, a, hread, hrun, hcheck⟩ := hassembled
  obtain ⟨m, hm, hcheck⟩ := (Option.any_eq_true _ _).mp hcheck
  obtain ⟨hrange, hsymbols, hrelocations, hname⟩ := of_decide_eq_true hcheck
  obtain ⟨-, -, htargets, -, -, hexternal⟩ := references hrun hm hread hrange
  refine ⟨_, statements, a, m, hread, hrun, hm, hrange, hsymbols, hrelocations,
    fun r hr => (htargets r hr).2.2.2, hname, ?_⟩
  rw [hname] at hexternal
  exact hexternal (by decide)

end Assembly

end System370
