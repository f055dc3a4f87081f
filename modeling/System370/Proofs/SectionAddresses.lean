import System370.Proofs.ExpressionMeaning
import System370.Proofs.ModuleReferences
import System370.Proofs.OpenedSections

/-!
# The addresses of a section

A control section with a label has two addresses.  One is its base, where the
assembler has placed it; the other is the value of its label, which is the base
and the location that the start statement gave.  A module shows both of them:
the base in the external symbols, in constants for external addresses and as the
entry point, and the value of the label in the symbol table and in other address
constants.

The two are the same unless a start statement with an operand opened the section
(`Statement.origin_eq_zero`).

* `Program.label_inj`: a label has one section, and `Program.definition?_label`
  its value;
* `Program.exists_isEnd`: a program has an end statement;
* `Assembly.section_addresses`: which address of a section is where.
-/

namespace System370

/-! ### Values and names -/

namespace SymbolTable

variable {t : SymbolTable}

/-- A place in a control section moves with it. -/
theorem relocate_relocatable (t : SymbolTable) (number : Int64) (id : Int) :
    t.relocate (.relocatable number id) =
      .relocatable (t.offset id + number) id := by
  simp [relocate, Value.relocatable, Target.sectionId, Int64.add_comm]

/-- A control section that was placed: its number, and what it was before. -/
theorem Numbered.of_mem_normalize (h : t.Numbered) {s : Section}
    (hs : s ∈ t.normalize.sections) :
    0 < s.id ∧ t.normalize.section? s.id = some s ∧
      ∃ s₀ ∈ t.sections, s₀.id = s.id ∧ s₀.label = s.label := by
  obtain ⟨i, hi⟩ := List.getElem?_of_mem hs
  have hid := h.control_normalize i s hi
  have hpos : 0 < s.id := by omega
  have hindex : s.id.toNat - 1 = i := by omega
  refine ⟨hpos, by rw [section?, if_pos hpos, hindex, hi], ?_⟩
  rw [h.sections_normalize] at hi
  obtain ⟨s₀, hs₀, hsame⟩ := getElem?_layOut hi
  refine ⟨s₀, List.mem_of_getElem? hs₀, ?_, ?_⟩
  · rw [hsame]
  · rw [hsame]

end SymbolTable

namespace Expression

/-- The value of a name is that of its symbol. -/
theorem evaluate_name {t : SymbolTable} {place : Place} {name : Bytes}
    {d : Definition} (hname : IsName name)
    (hd : t.definition? (name.map upperAscii) = some d) :
    (evaluate t place name).result = .ok ⟨d.value, d.length⟩ := by
  let p : Phrase .sum :=
    .sum (.product (.bare (.leaf (.symbol name) hname)) .productEnd) .sumEnd
  have hnamed : named? t name = some d := hd
  have hyield : p.yield = name := by
    simp only [p, Phrase.yield, Leaf.text, List.append_nil]
  have hdefined : (named? t name).isSome := by rw [hnamed]; rfl
  have hreadable : p.Leaves Leaf.Readable := by
    simp [p, Phrase.Leaves, Leaf.Readable]
  have hadmissible : p.Admissible t place := by
    simp [p, Phrase.Admissible, Phrase.Leaves, Phrase.Absolute,
      Leaf.Defined, hdefined]
  have hvalue : p.value t place = d.value := by
    show ((named? t name).map (·.value)).getD (Value.absolute 0) = d.value
    rw [hnamed]
    rfl
  have hlength : p.length t place = d.length := by
    show ((named? t name).map (·.length)).getD 0 = d.length
    rw [hnamed]
    rfl
  have hevaluated := evaluate_yield hreadable hadmissible
  rwa [hyield, hvalue, hlength] at hevaluated

theorem isSymbolStart_upperAscii (c : UInt8) :
    isSymbolStart (upperAscii c) = isSymbolStart c := by
  revert c
  exact forall_octet (by decide +kernel)

theorem isSymbolChar_upperAscii (c : UInt8) :
    isSymbolChar (upperAscii c) = isSymbolChar c := by
  revert c
  exact forall_octet (by decide +kernel)

/-- Capitals make no difference to whether a text is a symbol. -/
theorem isName_map_upperAscii {name : Bytes} : IsName (name.map upperAscii) ↔
    IsName name := by
  cases name with
  | nil => simp [IsName]
  | cons c rest =>
      simp [IsName, isSymbolStart_upperAscii, isSymbolChar_upperAscii]

end Expression

/-- The label of a section is a symbol. -/
theorem SymbolTable.Opens.isName {t u : SymbolTable} {s : Statement} {id : Int}
    {name : Bytes} (h : t.Opens s id name u) (hne : name ≠ []) :
    Expression.IsName name := by
  have hchars := isSymbolChar_of_badLabelChar? h.spelled
  have hupper : toUpper s.label = s.label.map upperAscii :=
    toUpper_ascii fun c hc => lt_of_isSymbolChar (hchars c hc)
  rw [← h.label, hupper, Expression.isName_map_upperAscii]
  rw [← h.label, hupper] at hne
  have hspelled := h.spelled
  cases hlabel : s.label with
  | nil => simp [hlabel] at hne
  | cons c rest =>
      rw [hlabel] at hspelled hchars
      refine ⟨c, rest, rfl, ?_,
        fun d hd => hchars d (List.mem_cons_of_mem _ hd)⟩
      by_contra hstart
      simp [Draft.badLabelChar?, hstart] at hspelled

/-! ### Labels -/

namespace Program

variable {options : Options} {statements : List Statement} {s s' : Section}

/-- **The value of the label of a section**, once the sections are placed, is
the place that the statement which opened it gives. -/
theorem definition?_label
    (hs : s ∈ (ofStatements options statements).layout.symbols.sections)
    (hlabel : s.label ≠ []) :
    ∃ before st after t, statements = before ++ st :: after ∧
    ((Layout.new options).run before).1.symbols.Opens st s.id s.label t ∧
    ∃ d, (ofStatements options statements).layout.symbols.definition?
      s.label = some d ∧
      d.value = .relocatable (s.base + st.origin t s.id) s.id := by
  have hnumbered := (unplaced_spec options statements).1.symbols.numbered
  obtain ⟨hpos, hs, s₀, hs₀, hid, hsame⟩ := hnumbered.of_mem_normalize hs
  obtain ⟨before, st, after, t, d, hstatements, hopens, hd, hvalue⟩ :=
    traced_unplaced options statements hs₀ (by rwa [hsame])
  rw [hid, hsame] at hopens
  rw [hsame] at hd
  rw [hid] at hvalue
  have hplaced := SymbolTable.definition?_normalize hnumbered.unplaced s.label
  rw [hd, Option.map_some] at hplaced
  refine ⟨before, st, after, t, hstatements, hopens, _, hplaced, ?_⟩
  simp only
  rw [hvalue, SymbolTable.relocate_relocatable, SymbolTable.offset_eq hpos hs]

/-- **A label has one section.** -/
theorem label_inj
    (hs : s ∈ (ofStatements options statements).layout.symbols.sections)
    (hs' : s' ∈ (ofStatements options statements).layout.symbols.sections)
    (hlabel : s.label ≠ []) (hsame : s'.label = s.label) : s' = s := by
  have hnumbered := (unplaced_spec options statements).1.symbols.numbered
  obtain ⟨_, st, _, t, -, -, d, hd, hvalue⟩ := definition?_label hs hlabel
  obtain ⟨_, st', _, t', -, -, d', hd', hvalue'⟩ :=
    definition?_label hs' (hsame ▸ hlabel)
  rw [hsame, hd] at hd'
  obtain rfl := Option.some.inj hd'
  -- a value is in one section only
  have hid : s'.id = s.id := by
    rw [hvalue] at hvalue'
    simp only [Value.relocatable, Value.mk.injEq, List.cons.injEq,
      Term.mk.injEq, Target.origin.injEq] at hvalue'
    exact hvalue'.2.1.1.symm
  have hfound := (hnumbered.of_mem_normalize hs).2.1
  have hfound' := (hnumbered.of_mem_normalize hs').2.1
  rw [hid, hfound] at hfound'
  exact (Option.some.inj hfound').symm

/-- A section is the namesake of its label. -/
theorem namesake?_label
    (hs : s ∈ (ofStatements options statements).layout.symbols.sections)
    (hlabel : s.label ≠ []) :
    (ofStatements options statements).layout.symbols.namesake? s.label =
      some s := by
  cases hfound :
    (ofStatements options statements).layout.symbols.namesake? s.label with
  | none =>
      have hnone := List.find?_eq_none.mp hfound s hs
      simp at hnone
  | some s' =>
      have hsame : s'.label = s.label := by simpa using List.find?_some hfound
      rw [label_inj hs (List.mem_of_find?_eq_some hfound) hlabel hsame]

end Program

/-! ### The end statement -/

namespace Layout

variable {l : Layout}

/-- `END` leaves a record of its own. -/
theorem isEnd_layOutEnd {d : Draft} (h : d.record.directive = some .ending) :
    ∃ r ∈ (layOutEnd d).2, r.isEnd = true := by
  have hdirective : d.locate.record.directive = some .ending := by
    unfold Draft.locate
    split <;> exact h
  refine ⟨_, List.mem_append_right _ (List.mem_singleton.mpr rfl), ?_⟩
  exact decide_eq_true ⟨rfl, hdirective⟩

/-- The statement that ends a program has the record of an end statement. -/
theorem exists_isEnd_step (hopen : l.ended = false)
    {s : Statement} (hended : (l.step s).1.ended = true) :
    ∃ r ∈ (l.step s).2, r.isEnd = true := by
  cases hcomment : s.isComment with
  | true =>
      rw [step_comment hcomment] at hended
      exact absurd hended (by simp [hopen])
  | false =>
      rw [step_eq_layOut hopen hcomment] at hended ⊢
      by_cases hmnemonic : s.mnemonic = Statement.endMnemonic
      · rw [layOutStatement_end (by rwa [statement_checkLabel])]
        exact isEnd_layOutEnd rfl
      · have hsame := (layOutStatement_open
          (d := (l.draftOf s).checkLabel) fun hending => by
          rw [statement_checkLabel] at hending
          exact hmnemonic (ofMnemonic?_ending hending)).1
        have hbefore : (l.draftOf s).checkLabel.layout.ended = false :=
          (l.draftOf s).steps_checkLabel.reports.ended.trans hopen
        rw [hsame, hbefore] at hended
        exact absurd hended Bool.false_ne_true

/-- A program that has ended has a record of its `END`. -/
theorem exists_isEnd_run (hopen : l.ended = false) {statements : List Statement}
    (hended : (l.run statements).1.ended = true) : ∃ r ∈ (l.run statements).2,
    r.isEnd = true := by
  induction statements generalizing l with
  | nil => exact absurd hended (by simp [run, hopen])
  | cons s rest ih =>
      cases hfirst : (l.step s).1.ended with
      | true =>
          obtain ⟨r, hr, hend⟩ := exists_isEnd_step hopen hfirst
          exact ⟨r, List.mem_append_left _ hr, hend⟩
      | false =>
          obtain ⟨r, hr, hend⟩ := ih hfirst hended
          exact ⟨r, List.mem_append_right _ hr, hend⟩

end Layout

/-- **Every program has an end statement**, if only one that was supplied. -/
theorem Program.exists_isEnd (options : Options) (statements : List Statement) :
    ∃ r ∈ (ofStatements options statements).records, r.isEnd = true := by
  have hwf :=
    (Layout.run_spec (Layout.wellFormed_new options) statements).layout
  obtain ⟨r, hr, hend⟩ : ∃ r ∈ ((Layout.new options).run statements).2 ++
      (((Layout.new options).run statements).1.supplyEnd statements).2,
      r.isEnd = true := by
    cases hended : ((Layout.new options).run statements).1.ended with
    | true =>
        obtain ⟨r, hr, hend⟩ := Layout.exists_isEnd_run rfl hended
        exact ⟨r, List.mem_append_left _ hr, hend⟩
    | false =>
        have hclosed := (Layout.outcome_supplyEnd hwf statements).2
        obtain ⟨cursor, hsupplied⟩ := Layout.supplyEnd_open hended statements
        rw [hsupplied] at hclosed ⊢
        obtain ⟨r, hr, hend⟩ := Layout.exists_isEnd_step
          (l := ((Layout.new options).run statements).1.report ⟨cursor,
            .missingEnd⟩) hended hclosed
        exact ⟨r, List.mem_append_right _ hr, hend⟩
  have hbody : r.body = .located := (of_decide_eq_true hend).1
  have hsettled := Layout.mem_of_settles (Layout.frame_settleAll
    ((((Layout.new options).run statements).2 ++
      (((Layout.new options).run statements).1.supplyEnd statements).2).length +
        1)
    (((Layout.new options).run statements).1.supplyEnd statements).1 _).2 hr
    (by simp [Layout.isWaiting, hbody])
  refine ⟨_, List.mem_map.mpr ⟨r, hsettled, rfl⟩, ?_⟩
  simpa [Record.isEnd, moveRecord, hbody] using hend

namespace Generation

/-- Generating the code of records keeps their statements. -/
theorem statements_run {records : List Record} (g : Generation)
    (h : ∀ r ∈ records, Ready r) :
    (g.run records).1.map (fun r => (r.directive, r.statement)) =
      records.map fun r => (r.directive, r.statement) := by
  induction records generalizing g with
  | nil => rfl
  | cons r rest ih =>
      have hplace := (step_spec g (h r List.mem_cons_self)).1.place
      have hrest := ih (g.step r).2 fun r hr => h r (List.mem_cons_of_mem _ hr)
      have hfirst : ((g.step r).1.directive, (g.step r).1.statement) =
          (r.directive, r.statement) := by
        rw [hplace]
      rw [List.map_cons, ← hfirst, ← hrest]
      rfl

end Generation

/-! ### Constants -/

namespace Patch

variable {t : SymbolTable} {p : Patch}

/-- The name of a section stands for its base. -/
theorem Made.data_external (h : p.Made t.normalize)
    (hwf : t.WellFormed) (hplace : 0 < p.item.place.sectionId)
    (hkind : p.item.kind = .externalAddress)
    {s : Section} (hs : t.normalize.namesake? (toUpper p.item.nominal) = some s)
    (hpos : 0 < s.id) (hoffset : t.normalize.offset s.id = s.base) :
    p.data = Field.put p.item.length s.base.toInt := by
  have hnumber : ∀ {e : ExternalName},
      t.normalize.external? (toUpper p.item.nominal) = some e →
      e.sectionId = s.id := by
    intro e he
    obtain ⟨-, ⟨s', hs', -, hsection⟩ | ⟨hnone, -⟩⟩ :=
      hwf.external?_normalize he
    · rw [hs] at hs'
      rw [hsection, ← Option.some.inj hs']
    · rw [hs] at hnone
      cases hnone
  cases h with
  | value _ hother =>
      rcases hother with hother | hother <;> simp [hother] at hkind
  | inner _ _ he => simp only [hnumber he, hoffset]
  | outer _ _ he hlocal =>
      have hid := hnumber he
      omega
  | base hother => simp [hother] at hkind
  | aside hsection => exact absurd hplace (Int.not_lt.mpr hsection)

/-- The name of a symbol stands for its value. -/
theorem Made.data_name (h : p.Made t) (hplace : 0 < p.item.place.sectionId)
    (hkind : p.item.kind = .address) (hname : Expression.IsName p.item.nominal)
    {d : Definition}
    (hd : t.definition? (p.item.nominal.map upperAscii) = some d) :
    p.data = Field.put p.item.length d.value.number.toInt := by
  cases h with
  | value _ _ hresult =>
      rw [Expression.evaluate_name hname hd] at hresult
      obtain rfl := Except.ok.inj hresult
      rfl
  | inner _ hother => simp [hother] at hkind
  | outer _ hother => simp [hother] at hkind
  | base hother => simp [hother] at hkind
  | aside hsection => exact absurd hplace (Int.not_lt.mpr hsection)

/-- An item that is located holds its number. -/
theorem Located.holds {run : Run} (h : p.Located run.start.toInt run.data)
    {n : Int64} (hdata : p.data = Field.put p.item.length n.toInt) :
    p.item.Holds run.octet? n := by
  have hlength : p.data.length = p.item.length := by
    rw [hdata, Field.length_put]
  exact ⟨p.data, h.field?_octet? hlength, by rw [hdata, Field.get_put]⟩

end Patch

/-! ### Addresses -/

namespace Assembly

variable {options : Options} {source today : Bytes} {a : Assembly}
  {m : Deck.Module} {statements : List Statement} {s : Section}

/-- Where the addresses of a section are: its base, and the value of its label,
which is a location behind the base. -/
structure Addressed (a : Assembly) (m : Deck.Module) (s : Section)
    (origin : Int64) : Prop where
  label : ∃ d, a.symbols.definition? s.label = some d ∧
    d.value = .relocatable (s.base + origin) s.id
  declared : ∃ x ∈ m.symbols, x.type = .control ∧ x.name = s.label ∧
    x.address = s.base
  alone : ∀ x ∈ m.symbols, x.type = .control → x.name = s.label → x.id = s.id ∧
    x.address = s.base
  constants : ∀ r ∈ a.records, ∀ x ∈ r.items a.literals, ∃ run,
    r.write? = some run ∧
    (x.kind = .externalAddress → toUpper x.nominal = s.label →
      x.Holds run.octet? s.base) ∧
    (x.kind = .address → x.nominal.map upperAscii = s.label →
      x.Holds run.octet? (s.base + origin))
  entry : a.symbols.sections.head? = some s →
    (∀ r ∈ a.records, r.directive = some .ending → r.statement.operands = []) →
    m.ending.hasEntry = true ∧ m.ending.sectionId = s.id ∧
      m.ending.address = s.base

/-- The external symbols of the type of a control section are those of the
control sections. -/
theorem Made.exists_section_of_control
    (h : a.Made options (Program.ofStatements options statements))
    (hm : a.module? = some m) {x : Deck.Symbol} (hx : x ∈ m.symbols)
    (htype : x.type = .control) :
    ∃ s ∈ (Program.ofStatements options statements).layout.symbols.sections,
      x = Deck.sectionSymbol options
        (Program.ofStatements options statements).layout.modes s := by
  rw [h.symbols_eq hm, Deck.symbolsOf, List.append_assoc] at hx
  rcases List.mem_append.mp hx with hx | hx
  · obtain ⟨s, hs, rfl⟩ := List.mem_map.mp hx
    exact ⟨s, hs, rfl⟩
  rcases List.mem_append.mp hx with hx | hx
  · obtain ⟨e, -, he⟩ := List.mem_filterMap.mp hx
    have hexternal := Deck.type_externalSymbol? he
    rw [htype] at hexternal
    exact absurd hexternal (by decide)
  · obtain ⟨e, -, he⟩ := List.mem_filterMap.mp hx
    have hentry := Deck.type_entrySymbol? he
    rw [htype] at hentry
    cases hentry

/-- **The items of address constants** hold the base of a section, if they have
its name as an external one, and otherwise the value of its label. -/
theorem Made.holds_section
    (h : a.Made options (Program.ofStatements options statements))
    (hcontained : (Program.ofStatements options statements).Contained)
    (hm : a.module? = some m)
    (hs : s ∈ (Program.ofStatements options statements).layout.symbols.sections)
    (hlabel : s.label ≠ []) (hname : Expression.IsName s.label) {d : Definition}
    (hd : (Program.ofStatements options statements).layout.symbols.definition?
      s.label = some d) :
    ∀ r ∈ a.records, ∀ x ∈ r.items a.literals, ∃ run, r.write? = some run ∧
      (x.kind = .externalAddress → toUpper x.nominal = s.label →
        x.Holds run.octet? s.base) ∧
      (x.kind = .address → x.nominal.map upperAscii = s.label →
        x.Holds run.octet? d.value.number) := by
  have hwf := (Program.unplaced_spec options statements).1.symbols
  obtain ⟨hpos, hfound, -⟩ := hwf.numbered.of_mem_normalize hs
  obtain ⟨coded, hsame, -, hcoded⟩ := h.coded hcontained hm
  intro r hr x hx
  obtain ⟨c, hc, rfl⟩ := List.mem_map.mp (hsame ▸ hr)
  obtain ⟨hmade, hrecord, hshaped, hfields⟩ := hcoded c hc
  have hsection : 0 < c.1.sectionId := (Record.mem_items_iff.mp hx).2.1
  rw [h.literals] at hx
  obtain ⟨p, hp, rfl⟩ := hrecord.exists_patch hx
  obtain ⟨run, hwrite, hlocated⟩ := (hfields hsection).2 p hp
  have hplace : 0 < p.item.place.sectionId := by
    rwa [(hrecord.of_mem hshaped.sound hp).1]
  refine ⟨run, hwrite, fun hkind hnominal => hlocated.holds ?_,
    fun hkind hnominal =>
    hlocated.holds ?_⟩
  · exact (hmade p hp).data_external hwf hplace hkind
      (hnominal ▸ Program.namesake?_label hs hlabel) hpos
      (SymbolTable.offset_eq hpos hfound)
  · exact (hmade p hp).data_name hplace hkind
      (Expression.isName_map_upperAscii.mp (hnominal ▸ hname)) (hnominal ▸ hd)

/-- A program with a module has no record with an error. -/
theorem Made.unmarked
    (h : a.Made options (Program.ofStatements options statements))
    (hm : a.module? = some m) :
    ∀ r ∈ (Program.ofStatements options statements).records,
    r.errored = false := by
  intro r hr
  cases herrored : r.errored with
  | false => rfl
  | true =>
      obtain ⟨d, hd, herror⟩ :=
        Program.blamed_ofStatements options statements r hr herrored
      have hmore := (Generation.run_spec
        (Generation.new (Program.ofStatements options statements))
        fun r hr => (Program.settled_ofStatements options statements r
          hr).ready).2.diagnostics
      exact herror.symm.trans (h.clean m hm d (hmore.subset hd))

/-- The records of an assembly are those of the program, with their
statements. -/
theorem Made.exists_record
    (h : a.Made options (Program.ofStatements options statements)) :
    ∀ r ∈ (Program.ofStatements options statements).records,
      ∃ r' ∈ a.records, r'.directive = r.directive ∧
      r'.statement = r.statement := by
  intro r hr
  have hsame := Generation.statements_run
    (Generation.new (Program.ofStatements options statements))
    fun r hr => (Program.settled_ofStatements options statements r hr).ready
  have hmem : (r.directive, r.statement) ∈
      a.records.map fun r => (r.directive, r.statement) := by
    rw [h.records]
    exact hsame ▸ List.mem_map.mpr ⟨r, hr, rfl⟩
  obtain ⟨r', hr', heq⟩ := List.mem_map.mp hmem
  exact ⟨r', hr', Prod.mk.inj heq⟩

/-- **Without an entry point of its own** a program begins at the base of its
first section. -/
theorem Made.ending_first
    (h : a.Made options (Program.ofStatements options statements))
    (hcontained : (Program.ofStatements options statements).Contained)
    (hm : a.module? = some m)
    (hfirst : (Program.ofStatements options
      statements).layout.symbols.sections.head? = some s)
    (hplain : ∀ r ∈ a.records, r.directive = some .ending →
      r.statement.operands = []) :
    m.ending.hasEntry = true ∧ m.ending.sectionId = s.id ∧
      m.ending.address = s.base := by
  obtain ⟨rest, hsections⟩ := List.head?_eq_some_iff.mp hfirst
  have hsome :
      (Program.ofStatements options statements).layout.symbols.sections ≠ [] :=
    hsections ▸ List.cons_ne_nil s rest
  have hoperands : ∀ r ∈ (Program.ofStatements options statements).records,
      r.directive = some .ending → r.statement.operands = [] := by
    intro r hr hdirective
    obtain ⟨r', hr', hdirective', hstatement⟩ := h.exists_record r hr
    rw [← hstatement]
    exact hplain r' hr' (hdirective'.trans hdirective)
  have hgenerated :
      (Program.ofStatements options statements).generated.2.ending =
      Generate.defaultEnding
        (Program.ofStatements options statements).layout.symbols :=
    (Generation.ending_run
      (g := Generation.new (Program.ofStatements options statements))
      (fun r hr => (Program.settled_ofStatements options statements r hr).ready)
      ⟨rfl, fun _ => rfl⟩ hsome (h.unmarked hm) hoperands
        hcontained.unbroken).trans
      (if_pos (List.any_eq_true.mpr (Program.exists_isEnd options statements)))
  obtain ⟨identifications, hending⟩ := h.ending m hm
  rw [hending, hgenerated, Generate.defaultEnding, hsections]
  exact ⟨rfl, rfl, rfl⟩

/-- **The addresses of a section.**  A control section with a label comes from
the first section statement of that label, which gives it an origin: zero,
unless it is a start statement with a location.  The value of the label, and the
items of address constants with its name, are the base of the section and the
origin together.  The external symbol of the section, the items of constants for
its name as an external one, and the entry point of a program that gives none of
its own and begins with this section, are the base alone.  All of them agree
just if the origin is zero. -/
theorem section_addresses (hrun : assemble options source today = .ok a)
    (hm : a.module? = some m)
    (hread : Statement.readAll source = .ok statements)
    (hs : s ∈ a.symbols.sections) (hlabel : s.label ≠ []) :
    ∃ before st after t, statements = before ++ st :: after ∧
    ((Layout.new options).run before).1.symbols.Opens st s.id s.label t ∧
    a.Addressed m s (st.origin t s.id) ∧
    (Directive.ofMnemonic? st.mnemonic ≠ some .start ∨ st.operands = [] →
      st.origin t s.id = 0) := by
  obtain ⟨hcontained, hmade⟩ := of_assemble hrun hread
  have hsections := hmade.table_eq.1
  have hdefinitions : ∀ name, a.symbols.definition? name =
      (Program.ofStatements options statements).layout.symbols.definition?
        name := by
    rw [hmade.table]
    exact (Program.reads_generated fun r hr =>
      (Program.settled_ofStatements options statements r hr).ready).definitions
  rw [hsections] at hs
  obtain ⟨before, st, after, t, hstatements, hopens, d, hd, hvalue⟩ :=
    Program.definition?_label hs hlabel
  have hnumber : d.value.number = s.base + st.origin t s.id := by
    rw [hvalue]; rfl
  refine ⟨before, st, after, t, hstatements, hopens,
    ⟨⟨d, (hdefinitions _).trans hd, hvalue⟩, ?_, ?_, ?_, ?_⟩,
    fun hplain => Statement.origin_eq_zero hplain t s.id⟩
  · refine ⟨Deck.sectionSymbol options
      (Program.ofStatements options statements).layout.modes s,
      ?_, if_neg hlabel, rfl, rfl⟩
    rw [hmade.symbols_eq hm, Deck.symbolsOf, List.append_assoc]
    exact List.mem_append_left _ (List.mem_map.mpr ⟨s, hs, rfl⟩)
  · intro x hx htype hname
    obtain ⟨s', hs', rfl⟩ := hmade.exists_section_of_control hm hx htype
    obtain rfl := Program.label_inj hs hs' hlabel hname
    exact ⟨rfl, rfl⟩
  · rw [← hnumber]
    exact hmade.holds_section hcontained hm hs hlabel (hopens.isName hlabel) hd
  · intro hfirst hplain
    exact hmade.ending_first hcontained hm (hsections ▸ hfirst) hplain

/-- A start statement with a location: the label and the address constant are
behind the base, the constant for the external address and the entry point are
not. -/
theorem section_addresses_started : ∃ source statements a m s,
    Statement.readAll source = .ok statements ∧ assemble {} source = .ok a ∧
      a.module? = some m ∧ s ∈ a.symbols.sections ∧ s.label = bytes "X" ∧
      s.base = 0 ∧
      ((a.records.flatMap (·.items a.literals)).map fun x =>
        (x.kind, x.place.loc, x.nominal)) =
        [(.externalAddress, 4096, bytes "X"), (.address, 4100, bytes "X")] ∧
      a.symbols.sections.head? = some s ∧ a.Addressed m s 4096 := by
  have hassembled :=
    exists_assemble_of_any {} (bytes "X START 4096\n DC V(X),A(X)\n END\n")
      (fun _ a => a.module?.any fun _ => decide
        ((a.symbols.sections.map fun s => (s.label, s.base)) = [(bytes "X", 0)] ∧
        (a.symbols.definition? (bytes "X")).map (·.value) =
          some (.relocatable 4096 1) ∧
        ((a.records.flatMap (·.items a.literals)).map fun x : AddressItem =>
          (x.kind, x.place.loc, x.nominal)) =
          [(.externalAddress, 4096, bytes "X"), (.address, 4100, bytes "X")]))
            (by decide +kernel)
  obtain ⟨statements, a, hread, hrun, hcheck⟩ := hassembled
  obtain ⟨m, hm, hcheck⟩ := (Option.any_eq_true _ _).mp hcheck
  obtain ⟨hsections, hvalue, hitems⟩ := of_decide_eq_true hcheck
  obtain ⟨s, hsingle, hs⟩ := List.map_eq_singleton_iff.mp hsections
  obtain ⟨hlabel, hbase⟩ := Prod.mk.inj hs
  have hmem : s ∈ a.symbols.sections := hsingle ▸ List.mem_singleton.mpr rfl
  obtain ⟨-, st, -, t, -, -, haddressed, -⟩ :=
    section_addresses hrun hm hread hmem (by rw [hlabel]; decide)
  have horigin : st.origin t s.id = 4096 := by
    obtain ⟨d, hd, hplace⟩ := haddressed.label
    rw [hlabel] at hd
    rw [hd, Option.map_some, hplace, hbase, Int64.zero_add] at hvalue
    exact congrArg Value.number (Option.some.inj hvalue)
  rw [horigin] at haddressed
  exact ⟨_, statements, a, m, s, hread, hrun, hm, hmem, hlabel, hbase, hitems,
    by rw [hsingle]; rfl, haddressed⟩

end Assembly

end System370
