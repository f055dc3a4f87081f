import System370.Layout.Program
import System370.Proofs.ConstantShape
import System370.Proofs.TableInvariant
import System370.Proofs.Word

/-!
# The invariant of the layout

A layout is `WellFormed` when its symbol table is, every literal has a sound
descriptor, belongs to a section and is placed on the boundary of its group, and
the modes of sections are those that there are.  Later layouts keep what earlier
ones have: sections and definitions stay, and a literal that has its place stays
there (`Keeps`).  Most of them extend it (`Extends`): no literal joins or gets
its place, and the end is not met.

Most steps on a draft neither move a location counter nor touch the record,
apart from its error mark.  Such a step is `Aside`.  The others are treated one
by one in `System370.Proofs.StatementPlacement` and the two modules behind it.
-/

namespace System370

/-- An outcome that passes a check is no error. -/
theorem exists_ok_of_any {ε α : Type} {x : Except ε α} {check : α → Bool}
    (h : x.toOption.any check = true) : ∃ a, x = .ok a ∧ check a = true := by
  cases x with
  | error e => simp [Except.toOption] at h
  | ok a => exact ⟨a, rfl, h⟩

/-- A constant whose values were checked: there are some, they have octets
unless they are addresses, and the external names among them are known. -/
structure Constant.Descriptor.Accepted (t : SymbolTable)
    (d : Constant.Descriptor) : Prop where
  nominal : d.nominal ≠ []
  valid : d.kind.isAddress = false → d.validation = .ok ()
  externals : d.kind = .externalAddress →
    ∀ nominal ∈ d.nominal, (t.external? (toUpper nominal)).isSome

/-- A constant stays accepted while the external names that it uses stay. -/
theorem Constant.Descriptor.Accepted.mono {t t' : SymbolTable}
    {d : Constant.Descriptor} (hd : d.Accepted t)
    (h : ∀ name, (t.external? name).isSome → (t'.external? name).isSome) :
    d.Accepted t' :=
  ⟨hd.nominal, hd.valid,
    fun hkind nominal hn => h _ (hd.externals hkind nominal hn)⟩

/-- A constant stays accepted in a table that knows more. -/
theorem SymbolTable.Extends.accepted {t t' : SymbolTable} (h : t.Extends t')
    {d : Constant.Descriptor} (hd : d.Accepted t) : d.Accepted t' :=
  hd.mono h.externals

/-- Numbered operands are those of the statement. -/
theorem Statement.getElem?_of_mem_numbered (s : Statement)
    {operand : Nat × Bytes} (h : operand ∈ s.numbered) :
    s.operands[operand.1]? = some operand.2 := by
  obtain ⟨i, hi⟩ := List.getElem?_of_mem h
  obtain ⟨hrange, hoperand⟩ := List.getElem?_zip_eq_some.mp hi
  rw [List.getElem?_range (List.getElem?_eq_some_iff.mp hoperand).1] at hrange
  rw [← Option.some.inj hrange]
  exact hoperand

theorem Statement.map_snd_numbered (s : Statement) :
    s.numbered.map Prod.snd = s.operands :=
  List.map_snd_zip (by simp)

/-- Whether modes that statements ask for are those that there are. -/
structure Modes.Valid (m : Modes) : Prop where
  addressing : m.addressing = [] ∨ validAddressingMode m.addressing = true
  residence : m.residence = [] ∨ validResidenceMode m.residence = true

/-- Whether a literal is on the boundary of its group once it has its place. -/
structure Literal.Aligned (literal : Literal) : Prop where
  sized : literal.length ≠ 0
  placed : ∀ spot, literal.place = some spot →
    spot.boundary = Int64.ofNat (Literal.group literal.length) ∧
      OnBoundary (Literal.group literal.length) spot.address

namespace Layout

/-- What holds of a layout between two statements. -/
structure WellFormed (l : Layout) : Prop where
  symbols : l.symbols.WellFormed
  described : ∀ literal ∈ l.literals.literals,
    ∃ d, literal.descriptor = some d ∧ d.Sound ∧ d.Accepted l.symbols
  housed : ∀ literal ∈ l.literals.literals, ∃ s,
    l.symbols.section? literal.sectionId = some s
  modes : ∀ m ∈ l.modes, m.2.Valid
  aligned : ∀ literal ∈ l.literals.literals, literal.Aligned

/-- What stays of a layout. -/
structure Keeps (l l' : Layout) : Prop where
  symbols : l.symbols.Extends l'.symbols
  placed : ∀ (i : Nat) literal,
    l.literals.literals[i]? = some literal → literal.place.isSome →
    l'.literals.literals[i]? = some literal
  literals : ∀ (i : Nat) literal, l.literals.literals[i]? = some literal →
    ∃ place, l'.literals.literals[i]? = some { literal with place }

theorem Keeps.refl (l : Layout) : Keeps l l :=
  ⟨SymbolTable.Extends.refl _, fun _ _ h _ => h,
    fun _ literal h => ⟨literal.place, h⟩⟩

theorem Keeps.trans {l l' l'' : Layout} (h : Keeps l l') (h' : Keeps l' l'') :
    Keeps l l'' := by
  refine ⟨h.symbols.trans h'.symbols,
    fun i literal hl hp => h'.placed i literal (h.placed i literal hl hp) hp,
    fun i literal hl => ?_⟩
  obtain ⟨place, hl'⟩ := h.literals i literal hl
  obtain ⟨last, hlast⟩ := h'.literals i { literal with place } hl'
  exact ⟨last, hlast⟩

/-- What stays of a layout that literals may join, as long as none gets its
place and the end is not met. -/
structure Adds (l l' : Layout) : Prop extends Keeps l l' where
  ended : l'.ended = l.ended
  waiting : ∀ (i : Nat) literal,
    l'.literals.literals[i]? = some literal → literal.place.isSome →
    l.literals.literals[i]? = some literal

/-- A literal that waits goes on waiting. -/
theorem Adds.unplaced {l l' : Layout} (h : l.Adds l') {i : Nat}
    {literal : Literal} (hl : l.literals.literals[i]? = some literal)
    (hplace : literal.place = none) :
    l'.literals.literals[i]? = some literal := by
  obtain ⟨place, hl'⟩ := h.literals i literal hl
  cases place with
  | none =>
      rw [hl', ← hplace]
  | some spot =>
      have hbefore := h.waiting i _ hl' rfl
      rw [hl] at hbefore
      rw [Option.some.inj hbefore] at hplace
      simp at hplace

/-- What stays of a layout as long as no literal joins or gets its place and the
end is not met. -/
structure Extends (l l' : Layout) : Prop extends Adds l l' where
  counted : l'.literals.literals.length = l.literals.literals.length

theorem Extends.refl (l : Layout) : Extends l l :=
  ⟨⟨Keeps.refl l, rfl, fun _ _ h _ => h⟩, rfl⟩

theorem Extends.trans {l l' l'' : Layout} (h : Extends l l')
    (h' : Extends l' l'') :
    Extends l l'' :=
  ⟨⟨h.toKeeps.trans h'.toKeeps, h'.ended.trans h.ended,
    fun i literal hl hp => h.waiting i literal (h'.waiting i literal hl hp) hp⟩,
    h'.counted.trans h.counted⟩

/-- Where no literal joins, all of them were there before. -/
theorem Extends.literal_of_mem {l l' : Layout} (h : l.Extends l')
    {literal : Literal} (hl : literal ∈ l'.literals.literals) :
    ∃ old ∈ l.literals.literals, ∃ place, literal = { old with place } := by
  obtain ⟨i, hlt, rfl⟩ := List.getElem_of_mem hl
  have hlt' : i < l.literals.literals.length := h.counted ▸ hlt
  obtain ⟨place, hplace⟩ := h.literals i _ (List.getElem?_eq_getElem hlt')
  rw [List.getElem?_eq_getElem hlt] at hplace
  exact ⟨_, List.getElem_mem hlt', place, Option.some.inj hplace⟩

/-- The same literals and the same end, with a table that extends the other
one. -/
theorem extends_of_symbols {l l' : Layout}
    (hsymbols : l.symbols.Extends l'.symbols)
    (hliterals : l'.literals = l.literals) (hended : l'.ended = l.ended) :
    Extends l l' := by
  refine ⟨⟨⟨hsymbols, ?_, ?_⟩, hended, ?_⟩, ?_⟩ <;> rw [hliterals]
  · exact fun _ _ h _ => h
  · exact fun _ literal h => ⟨literal.place, h⟩
  · exact fun _ _ h _ => h

/-- From a well-formed layout to one that extends it and is well-formed as
well. -/
def Grows (l l' : Layout) : Prop := l.WellFormed → l'.WellFormed ∧ l.Extends l'

/-- A layout with another well-formed table that has as many external names and
sections. -/
theorem WellFormed.congr {l l' : Layout} (h : l.WellFormed)
    (hsymbols : l'.symbols.WellFormed)
    (hexternals : ∀ name, (l.symbols.external? name).isSome →
      (l'.symbols.external? name).isSome)
    (hsections : ∀ id s, l.symbols.section? id = some s → ∃ s',
      l'.symbols.section? id = some s') (hliterals : l'.literals = l.literals)
    (hmodes : l'.modes = l.modes) : l'.WellFormed := by
  refine ⟨hsymbols, fun literal hl => ?_, fun literal hl => ?_,
    hmodes ▸ h.modes, hliterals ▸ h.aligned⟩
  · obtain ⟨d, hd, hsound, haccepted⟩ := h.described literal (hliterals ▸ hl)
    exact ⟨d, hd, hsound, haccepted.mono hexternals⟩
  · obtain ⟨s, hs⟩ := h.housed literal (hliterals ▸ hl)
    exact hsections _ s hs

/-- The same table, literals and modes. -/
theorem WellFormed.of_same {l l' : Layout} (h : l.WellFormed)
    (hsymbols : l'.symbols = l.symbols) (hliterals : l'.literals = l.literals)
    (hmodes : l'.modes = l.modes) : l'.WellFormed :=
  h.congr (hsymbols ▸ h.symbols) (fun _ he => hsymbols ▸ he)
    (fun _ s hs => ⟨s, hsymbols ▸ hs⟩)
    hliterals hmodes

/-- The symbol table grows, and all else stays as it is. -/
theorem grows_of_symbols {l l' : Layout} (hsymbols : l.symbols.Grows l'.symbols)
    (hliterals : l'.literals = l.literals) (hmodes : l'.modes = l.modes)
    (hended : l'.ended = l.ended) : Grows l l' := by
  intro h
  obtain ⟨hwf, hext⟩ := hsymbols h.symbols
  refine ⟨h.congr hwf hext.externals (fun id s hs => ?_) hliterals hmodes,
    extends_of_symbols hext hliterals hended⟩
  obtain ⟨s', hs', -⟩ := hext.sections id s hs
  exact ⟨s', hs'⟩

end Layout

namespace SymbolTable

/-- Two tables with the same sections. -/
structure Still (t t' : SymbolTable) : Prop where
  sections : t'.sections = t.sections
  dummies : t'.dummies = t.dummies
  current : t'.current = t.current

variable {t t' : SymbolTable}

theorem Still.refl (t : SymbolTable) : Still t t := ⟨rfl, rfl, rfl⟩

theorem Still.trans {t'' : SymbolTable} (h : Still t t') (h' : Still t' t'') :
    Still t t'' :=
  ⟨h'.sections.trans h.sections, h'.dummies.trans h.dummies,
    h'.current.trans h.current⟩

/-- The same sections are found. -/
theorem Still.section? (h : Still t t') (id : Int) :
    t'.section? id = t.section? id := by
  simp only [SymbolTable.section?, h.sections, h.dummies]

theorem Still.currentSection? (h : Still t t') :
    t'.currentSection? = t.currentSection? := by
  have hsection : t'.section? = t.section? := funext h.section?
  simp only [SymbolTable.currentSection?, h.current, hsection]

/-- References touch no section. -/
theorem still_references (names : List Bytes) (r : Reference)
    (t : SymbolTable) :
    Still t (names.foldl (fun t name => t.reference name r) t) := by
  induction names generalizing t with
  | nil => exact Still.refl t
  | cons name rest ih =>
      have hfirst : Still t (t.reference name r) := ⟨rfl, rfl, rfl⟩
      exact hfirst.trans (ih _)

/-- A definition touches no section. -/
theorem still_define {name : Bytes} {d : Definition}
    (h : t.define name d = .ok t') : Still t t' := by
  rw [eq_of_define h]
  exact ⟨rfl, rfl, rfl⟩

theorem still_referenceExternal (t : SymbolTable) (name : Bytes) (line : Int) :
    Still t (t.referenceExternal name line) := by
  unfold referenceExternal
  split <;> exact ⟨rfl, rfl, rfl⟩

theorem still_addEntry (t : SymbolTable) (name : Bytes) (line : Int) :
    Still t (t.addEntry name line) := by
  unfold addEntry
  split <;> exact ⟨rfl, rfl, rfl⟩

theorem still_declareExternal {name : Bytes} {weak : Bool} {line : Int}
    (h : t.declareExternal name weak line = .ok t') : Still t t' := by
  unfold declareExternal at h
  split at h
  · split at h
    · obtain rfl := Except.ok.inj h
      exact ⟨rfl, rfl, rfl⟩
    · simp at h
  · cases hdefine : t.define name ⟨Value.external name, 1,
      Definition.externalKind, line⟩ with
    | error e => simp [hdefine, bind, Except.bind] at h
    | ok u =>
        simp only [hdefine, bind, Except.bind] at h
        refine (still_define hdefine).trans ?_
        split at h
        · obtain rfl := Except.ok.inj h
          exact ⟨rfl, rfl, rfl⟩
        · obtain rfl := Except.ok.inj h
          exact ⟨rfl, rfl, rfl⟩

/-- The value of a place is known if its section is. -/
theorem knowsValue_place {place : Expression.Place}
    (h : place.sectionId ≠ 0 → ∃ s, t.section? place.sectionId = some s) :
    t.KnowsValue place.value := by
  intro term hterm
  unfold Expression.Place.value at hterm
  split at hterm
  · simp [Value.absolute] at hterm
  · rename_i hne
    simp only [Value.relocatable, List.mem_singleton] at hterm
    rw [hterm]
    exact h hne

end SymbolTable

namespace Draft

variable {d d' : Draft}

/-! ### Steps aside -/

/-- A step that leaves the sections, the literals, the modes and the place of
the record alone, and does not meet the end. -/
structure Aside (d d' : Draft) : Prop where
  grows : d.layout.symbols.Grows d'.layout.symbols
  still : d.layout.symbols.Still d'.layout.symbols
  literals : d'.layout.literals = d.layout.literals
  modes : d'.layout.modes = d.layout.modes
  ended : d'.layout.ended = d.layout.ended
  record : d'.record = { d.record with errored := d'.record.errored }
  errored : d.record.errored = true → d'.record.errored = true

theorem Aside.refl (d : Draft) : Aside d d :=
  ⟨SymbolTable.Grows.refl _, SymbolTable.Still.refl _, rfl, rfl, rfl,
    rfl, fun h => h⟩

theorem Aside.trans {d'' : Draft} (h : Aside d d') (h' : Aside d' d'') :
    Aside d d'' := by
  refine ⟨h.grows.trans h'.grows, h.still.trans h'.still,
    h'.literals.trans h.literals, h'.modes.trans h.modes,
    h'.ended.trans h.ended, ?_, fun hd => h'.errored (h.errored hd)⟩
  rw [h'.record, h.record]

/-- The layout grows. -/
theorem Aside.layout (h : Aside d d') : d.layout.Grows d'.layout :=
  Layout.grows_of_symbols h.grows h.literals h.modes h.ended

theorem Aside.currentSection? (h : Aside d d') :
    d'.currentSection? = d.currentSection? :=
  h.still.currentSection?

/-- The location counter stays where it is. -/
theorem Aside.loc (h : Aside d d') : d'.loc = d.loc := by
  simp only [Draft.loc, h.currentSection?]

theorem Aside.sectionId (h : Aside d d') :
    d'.record.sectionId = d.record.sectionId := by
  rw [h.record]

/-- A diagnostic stands aside. -/
theorem aside_report (d : Draft) (cursor : Cursor) (problem : Problem) :
    Aside d (d.report cursor problem) :=
  ⟨SymbolTable.Grows.refl _, SymbolTable.Still.refl _, rfl, rfl, rfl, rfl,
    fun h => by simp [report, h]⟩

/-- Refusing a constant is a report as far as the records can tell. -/
theorem aside_refuse (d : Draft) (failure : Constant.Failure)
    (cursor : Cursor) :
    Aside d (d.refuse failure cursor) :=
  ⟨SymbolTable.Grows.refl _, SymbolTable.Still.refl _, rfl, rfl, rfl, rfl,
    fun h => by simp [refuse, report, h]⟩

/-- An error marks the record. -/
theorem errored_report (d : Draft) (cursor : Cursor)
    {problem : Problem} (h : problem.severity.isError = true) :
    (d.report cursor problem).record.errored = true := by
  simp [report, h]

/-- A refused constant marks the record. -/
theorem errored_refuse (d : Draft) (failure : Constant.Failure)
    (cursor : Cursor) :
    (d.refuse failure cursor).record.errored = true :=
  Bool.or_true _

theorem aside_mapSymbols {f : SymbolTable → SymbolTable}
    (hgrows : d.layout.symbols.Grows (f d.layout.symbols))
    (hstill : d.layout.symbols.Still (f d.layout.symbols)) :
    Aside d (d.mapSymbols f) :=
  ⟨hgrows, hstill, rfl, rfl, rfl, rfl, fun h => h⟩

theorem aside_reference (d : Draft) (names : List Bytes) :
    Aside d (d.reference names) :=
  aside_mapSymbols (SymbolTable.grows_references names _ _)
    (SymbolTable.still_references names _ _)

/-- A definition stands aside if its value is known. -/
theorem aside_define {name : Bytes} {definition : Definition}
    (hvalue : d.layout.symbols.WellFormed →
      d.layout.symbols.KnowsValue definition.value) :
    Aside d (d.define name definition) := by
  unfold define
  split
  · rename_i t ht
    exact aside_mapSymbols
      (SymbolTable.grows_define ht fun hwf hext => hext.knowsValue (hvalue hwf))
      (SymbolTable.still_define ht)
  · exact aside_report _ _ _

/-- Whether the section of the record exists. -/
def Anchored (d : Draft) : Prop :=
  d.record.sectionId ≠ 0 → ∃ s,
    d.layout.symbols.section? d.record.sectionId = some s

/-- A step aside keeps the section of the record. -/
theorem Aside.anchored (h : Aside d d') (hd : d.Anchored) : d'.Anchored := by
  unfold Anchored
  rw [h.sectionId, h.still.section?]
  exact hd

/-- A label stands for a place of the open section, which is known. -/
theorem aside_defineLabel (hd : d.Anchored) (loc length : Int64)
    (kind : UInt8) :
    Aside d (d.defineLabel loc length kind) := by
  unfold defineLabel
  split
  · exact Aside.refl d
  · exact aside_define fun _ => SymbolTable.knowsValue_place hd

/-- Reading an expression notes its references. -/
theorem aside_evaluate (d : Draft) (text : Bytes) :
    Aside d (d.evaluate text).2 :=
  aside_reference d _

theorem aside_absolute (d : Draft) (text : Bytes) :
    Aside d (d.absolute text).2 :=
  aside_reference d _

theorem aside_parseConstant (d : Draft) (text : Bytes) :
    Aside d (d.parseConstant text).2 :=
  aside_reference d _

/-- A parsed constant of a statement is sound. -/
theorem sound_parseConstant {text : Bytes} {descriptor : Constant.Descriptor}
    (h : (d.parseConstant text).1 = .ok descriptor) : descriptor.Sound := by
  unfold parseConstant at h
  simp only at h
  split at h
  · rename_i parsed hparsed
    obtain rfl := Except.ok.inj h
    exact Constant.parse_sound hparsed
  · simp at h
  · simp at h

/-- A symbol is not empty. -/
theorem ne_nil_of_isSymbol {name : Bytes} (h : isSymbol name) : name ≠ [] := by
  simp only [isSymbol, Bool.and_eq_true, decide_eq_true_eq] at h
  exact h.1.1

/-- Making external names known, and what it gives if all of them are
symbols. -/
theorem registerExternals_spec (cursor : Cursor) (names : List Bytes)
    (d : Draft) :
    Aside d (d.registerExternals cursor names).2 ∧
      ((d.registerExternals cursor names).1 = true →
        d.layout.symbols.WellFormed →
        ∀ nominal ∈ names,
          ((d.registerExternals cursor names).2.layout.symbols.external?
            (toUpper nominal)).isSome) := by
  induction names generalizing d with
  | nil => exact ⟨Aside.refl d, by simp⟩
  | cons nominal rest ih =>
      unfold registerExternals
      simp only
      split
      · rename_i hsymbol
        have hgrows := SymbolTable.grows_referenceExternal d.layout.symbols
          (ne_nil_of_isSymbol hsymbol) (isLabel_toUpper hsymbol)
          d.statement.line
        have hfirst : Aside d (d.mapSymbols
            (·.referenceExternal (toUpper nominal) d.statement.line)) :=
          aside_mapSymbols hgrows (SymbolTable.still_referenceExternal _ _ _)
        obtain ⟨haside, hknown⟩ :=
          ih (d.mapSymbols
            (·.referenceExternal (toUpper nominal) d.statement.line))
        refine ⟨hfirst.trans haside, fun hok hwf other hother => ?_⟩
        have hwf' := (hgrows hwf).1
        rcases List.mem_cons.mp hother with rfl | hother
        · exact (haside.grows hwf').2.externals _
            (SymbolTable.external?_referenceExternal _ _ _)
        · exact hknown hok hwf' other hother
      · exact ⟨aside_report _ _ _, by simp⟩

/-- Checking values, and what it gives if they are accepted. -/
theorem checkValues_spec (d : Draft) (descriptor : Constant.Descriptor)
    (cursor : Cursor) :
    Aside d (d.checkValues descriptor cursor).2 ∧
      ((d.checkValues descriptor cursor).1 = true →
        d.layout.symbols.WellFormed →
        descriptor.nominal ≠ [] →
        descriptor.Accepted
          (d.checkValues descriptor cursor).2.layout.symbols) := by
  unfold checkValues
  split
  · obtain ⟨haside, hknown⟩ :=
      registerExternals_spec cursor descriptor.nominal d
    rename_i hkind
    exact ⟨haside, fun hok hwf hne =>
      ⟨hne, fun hdata => by simp [hkind, Constant.Kind.isAddress] at hdata,
        fun _ => hknown hok hwf⟩⟩
  · rename_i hkind
    split
    · rename_i haddress
      exact ⟨Aside.refl d, fun _ _ hne =>
        ⟨hne, fun hdata => by simp [haddress] at hdata,
          fun h => absurd h hkind⟩⟩
    · split
      · rename_i hvalid
        exact ⟨Aside.refl d,
          fun _ _ hne => ⟨hne, fun _ => hvalid, fun h => absurd h hkind⟩⟩
      · exact ⟨aside_refuse _ _ _, by simp⟩

/-- The check of a constant stands aside, and a constant that passes it is
accepted. -/
theorem acceptData_spec (d : Draft) (descriptor : Constant.Descriptor)
    (cursor : Cursor) :
    Aside d (d.acceptData descriptor cursor).2 ∧
      ((d.acceptData descriptor cursor).1 = true → d.layout.symbols.WellFormed →
        descriptor.Accepted
          (d.acceptData descriptor cursor).2.layout.symbols) := by
  unfold acceptData
  split
  · exact ⟨aside_report _ _ _, by simp⟩
  · rename_i hne
    obtain ⟨haside, haccepted⟩ := checkValues_spec d descriptor cursor
    exact ⟨haside, fun hok hwf => haccepted hok hwf hne⟩

theorem aside_absolutePair (d : Draft) (a b : Bytes) :
    Aside d (d.absolutePair a b).2 := by
  unfold absolutePair
  simp only
  split
  · exact aside_absolute d a
  · split
    · exact (aside_absolute d a).trans (aside_absolute _ b)
    · exact (aside_absolute d a).trans (aside_absolute _ b)

theorem aside_requireLabel (d : Draft) : Aside d d.requireLabel := by
  unfold requireLabel
  split
  · exact aside_report _ _ _
  · exact Aside.refl d

/-- Handling names one after the other is aside if handling each of them is. -/
theorem aside_forEachName {handle : Draft → Cursor → Bytes → Draft}
    (h : ∀ d cursor name, name ≠ [] → IsLabel name →
      Aside d (handle d cursor name)) (d : Draft) :
    Aside d (d.forEachName handle) := by
  unfold forEachName
  split
  · exact aside_report _ _ _
  · refine List.foldlRecOn (motive :=
      Aside d) _ _ (Aside.refl d) fun e hbefore operand _ => ?_
    refine hbefore.trans ?_
    simp only
    split
    · rename_i hsymbol
      exact h _ _ _ (ne_nil_of_isSymbol hsymbol) (isLabel_toUpper hsymbol)
    · exact aside_report _ _ _

/-- A name of `ENTRY` stands aside. -/
theorem aside_offer (d : Draft) (cursor : Cursor) {name : Bytes}
    (hlabel : IsLabel name) :
    Aside d (d.offer cursor name) := by
  have hentry : Aside d (d.mapSymbols (·.addEntry name d.statement.line)) :=
    aside_mapSymbols (SymbolTable.grows_addEntry _ hlabel _)
      (SymbolTable.still_addEntry _ _ _)
  have hboth := hentry.trans (aside_reference _ [name])
  unfold offer
  simp only
  split
  · exact hboth
  · exact ⟨hboth.grows, hboth.still, hboth.literals, hboth.modes, hboth.ended,
      hboth.record, hboth.errored⟩

/-- A name of `EXTRN` or `WXTRN` stands aside. -/
theorem aside_declare (weak : Bool) (d : Draft) (cursor : Cursor)
    {name : Bytes} (hname : name ≠ []) (hlabel : IsLabel name) :
    Aside d (declare weak d cursor name) := by
  unfold declare
  split
  · rename_i t ht
    exact aside_mapSymbols (SymbolTable.grows_declareExternal hname hlabel ht)
      (SymbolTable.still_declareExternal ht)
  · exact aside_report _ _ _

/-- The value of an equate is that of its first operand. -/
theorem evaluate_of_equateValue {result : Expression.Result}
    (h : d.equateValue = .ok result) :
    ∃ r,
    (Expression.evaluate d.layout.symbols d.record.place
      (d.statement.operands.headD [])).result = .ok r ∧
        r.value = result.value := by
  unfold equateValue at h
  simp only at h
  split at h
  · simp at h
  · rename_i r hr
    refine ⟨r, hr, ?_⟩
    split at h
    · obtain rfl := Except.ok.inj h
      rfl
    · split at h
      · simp at h
      · obtain rfl := Except.ok.inj h
        rfl

/-- The value of an equate names only what the table has. -/
theorem knowsValue_equateValue {result : Expression.Result}
    (hwf : d.layout.symbols.WellFormed) (hd : d.Anchored)
    (h : d.equateValue = .ok result) :
    d.layout.symbols.KnowsValue result.value := by
  obtain ⟨r, hr, hvalue⟩ := evaluate_of_equateValue h
  have hplace : d.layout.symbols.KnowsValue d.record.place.value :=
    SymbolTable.knowsValue_place hd
  rw [← hvalue]
  exact Expression.targets_evaluate hwf.linked.targets hplace hr

/-- An equate without a value is an error. -/
theorem isError_equateValue {e : Diagnostic} (h : d.equateValue = .error e) :
    e.problem.severity.isError = true := by
  unfold equateValue at h
  simp only at h
  split at h
  · rename_i problem hproblem
    obtain rfl := Except.error.inj h
    exact Expression.isError_evaluate hproblem
  · split at h
    · simp at h
    · split at h
      · rename_i problem hproblem
        obtain rfl := Except.error.inj h
        rcases Traced.result_andThen_eq_error hproblem with
          hfirst | ⟨r, -, hlast⟩
        · exact Expression.isError_evaluate hfirst
        · split at hlast
          · simp at hlast
          · obtain rfl := Except.error.inj hlast
            rfl
      · simp at h

end Draft

end System370
