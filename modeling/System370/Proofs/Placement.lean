import Mathlib.Data.List.Basic
import System370.Proofs.LayoutInvariant

/-!
# The place of a record

Laying out a statement gives its record a place inside its section: what the
record covers never reaches beyond the highest location of the section
(`Record.Placed.fits`), and the constants of a record stand one behind the other
(`Record.Placed.chained`).  Both are facts about 64-bit words, which hold
whether locations wrap or not.

A place stays a place while the layout grows (`Record.Placed.mono`), because
sections get no shorter and placed literals do not move.  A literal is the
constant that the record which added it says (`Record.Introduces`).

That every statement has its place when it is laid out is shown kind by kind in
`System370.Proofs.StatementPlacement` and the two modules behind it;
`System370.Proofs.ProgramLayout` goes on from statements to programs.
-/

namespace System370

/-! ### Constants one behind the other -/

/-- Constants from one offset to another: each begins less than sixteen octets
behind the end of the one before. -/
def Chain (start : Int64) : List (Constant.Descriptor × Int64) → Int64 → Prop
  | [], stop => stop = start
  | (d, offset) :: rest, stop =>
      (∃ gap : Int64, 0 ≤ gap.toInt ∧ gap.toInt < 16 ∧ offset = start + gap) ∧
        Chain (offset + Int64.ofNat d.size) rest stop

/-- A constant joins a chain behind a gap. -/
theorem Chain.append {start stop gap : Int64}
    {parts : List (Constant.Descriptor × Int64)} (h : Chain start parts stop)
    (hlow : 0 ≤ gap.toInt) (hhigh : gap.toInt < 16) (d : Constant.Descriptor) :
    Chain start (parts ++ [(d, stop + gap)])
      (stop + gap + Int64.ofNat d.size) := by
  induction parts generalizing start with
  | nil =>
      rw [Chain] at h
      subst h
      exact ⟨⟨gap, hlow, hhigh, rfl⟩, rfl⟩
  | cons part rest ih => exact ⟨h.1, ih h.2⟩

/-- The constants of a record, each with its offset. -/
def Record.constants (pool : LiteralPool) (r : Record) :
    List (Constant.Descriptor × Int64) :=
  match r.body with
  | .storage parts => parts
  | .pool ids => ids.filterMap fun id =>
      (pool.literals[id]?).bind fun literal => literal.descriptor.bind fun d =>
        literal.place.map fun spot => (d, spot.address - r.loc)
  | _ => []

/-- The constant that a placed literal is, seen from a location. -/
def LiteralPool.constantFrom (start : Int64) (literal : Literal) :
    Option (Constant.Descriptor × Int64) :=
  literal.descriptor.bind fun d => literal.place.map fun spot =>
    (d, spot.address - start)

/-- The constants of a pool are its literals. -/
theorem Record.constants_of_pool {r : Record} {ids : List Nat}
    (hbody : r.body = .pool ids) (pool : LiteralPool) : r.constants pool =
      ids.filterMap fun id =>
        (pool.literals[id]?).bind (LiteralPool.constantFrom r.loc) := by
  rw [Record.constants, hbody]
  rfl

/-- Whether a record is made of constants. -/
def Record.isConstants (r : Record) : Bool :=
  match r.body with
  | .storage _ | .pool _ => true
  | _ => false

/-- A record without constants. -/
theorem Record.constants_eq_nil {r : Record} (h : r.isConstants = false)
    (pool : LiteralPool) :
    r.constants pool = [] := by
  unfold Record.constants
  unfold Record.isConstants at h
  split at h <;> simp_all

/-- Whether a record names no literals: it is no pool, and no instruction that
is bound to some. -/
def Record.NamesNone (r : Record) : Prop :=
  (∀ ids, r.body ≠ .pool ids) ∧ ∀ op bound,
    r.body = .instruction op bound → bound = []

theorem Record.namesNone_of_storage {r : Record}
    {parts : List (Constant.Descriptor × Int64)} (h : r.body = .storage parts) :
    r.NamesNone := by
  simp [NamesNone, h]

theorem Record.namesNone_of_equate {r : Record} {value : Value} {waiting : Bool}
    (h : r.body = .equate value waiting) : r.NamesNone := by
  simp [NamesNone, h]

/-- What the value of a settled equate is: the value of its operand, which is
that of its label as well, or zero if there was an error. -/
def Record.Equated (t : SymbolTable) (r : Record) : Prop :=
  ∀ value, r.body = .equate value false →
    (∃ result, (Expression.evaluate t r.place
      (r.statement.operands.headD [])).result = .ok result ∧
      result.value = value ∧
      (r.errored = false → ∃ d,
        t.definition? r.label = some d ∧ d.value = value)) ∨
    (r.errored = true ∧ value = .absolute 0)

/-- The value of an equate stays while names are only added. -/
theorem Record.Equated.mono {t t' : SymbolTable} {r : Record} (h : r.Equated t)
    (hext : t.Extends t') : r.Equated t' := by
  intro value hbody
  rcases h value hbody with ⟨result, hresult, hvalue, hlabel⟩ | herror
  · refine Or.inl ⟨result,
      Expression.result_evaluate_mono hext.definitions hresult, hvalue,
      fun hok => ?_⟩
    obtain ⟨d, hd, heq⟩ := hlabel hok
    exact ⟨d, hext.definitions _ d hd, heq⟩
  · exact Or.inr herror

/-- Whether a record is on its boundaries: an instruction begins on a halfword,
and a constant on the boundary of its type. -/
def Record.Aligned (r : Record) : Prop :=
  match r.body with
  | .instruction _ _ => OnBoundary 2 r.loc
  | .storage parts => ∀ c ∈ parts, OnBoundary c.1.alignment (r.loc + c.2)
  | _ => True

/-- The place of a record in a layout. -/
structure Record.Placed (l : Layout) (r : Record) : Prop where
  object : r.object = none
  anchored : r.sectionId ≠ 0 → ∃ s, l.symbols.section? r.sectionId = some s
  fits : ∀ s, l.symbols.section? r.sectionId = some s →
    r.loc + r.length ≤ s.length
  instruction : ∀ op bound, r.body = .instruction op bound →
    r.length = Int64.ofNat op.length
  chained : r.isConstants → Chain 0 (r.constants l.literals) r.length
  sound : ∀ c ∈ r.constants l.literals, c.1.Sound
  accepted : r.directive ≠ some .ds → ∀ c ∈ r.constants l.literals,
    c.1.Accepted l.symbols
  pooled : ∀ ids, r.body = .pool ids → ∀ id ∈ ids, ∃ literal,
    l.literals.literals[id]? = some literal ∧ literal.sectionId = r.sectionId ∧
      literal.place.isSome ∧ literal.descriptor.isSome
  equated : r.Equated l.symbols
  counted : ∀ op bound, r.body = .instruction op bound → r.errored = false →
    op.operandCount ≤ r.statement.operands.length
  bound : ∀ op bound, r.body = .instruction op bound → ∀ b ∈ bound, ∃ literal,
    l.literals.literals[b.2]? = some literal ∧
      r.statement.operands[b.1]? = some literal.text ∧
      literal.text.head? = some (octet '=') ∧ literal.sectionId = r.sectionId
  aligned : r.Aligned

/-- The constants of a record stay the same while the layout grows. -/
theorem Record.constants_congr {l l' : Layout} {r : Record} (hext : l.Keeps l')
    (hpooled : ∀ ids, r.body = .pool ids → ∀ id ∈ ids, ∃ literal,
      l.literals.literals[id]? = some literal ∧
      literal.sectionId = r.sectionId ∧
        literal.place.isSome ∧ literal.descriptor.isSome) :
    r.constants l'.literals = r.constants l.literals := by
  cases hbody : r.body with
  | pool ids =>
      rw [constants_of_pool hbody, constants_of_pool hbody]
      refine List.filterMap_congr fun id hid => ?_
      obtain ⟨literal, hliteral, -, hplace, -⟩ := hpooled ids hbody id hid
      rw [hliteral, hext.placed id literal hliteral hplace]
  | comment | located | storage | equate | instruction =>
      simp [Record.constants, hbody]

/-- **A place stays a place while the layout grows.** -/
theorem Record.Placed.mono {l l' : Layout} {r : Record} (h : r.Placed l)
    (hext : l.Keeps l') :
    r.Placed l' := by
  have hconstants := Record.constants_congr hext h.pooled
  refine ⟨h.object, fun hne => ?_, fun s' hs' => ?_, h.instruction, ?_, ?_, ?_,
    ?_, h.equated.mono hext.symbols, h.counted, ?_, h.aligned⟩
  · obtain ⟨s, hs⟩ := h.anchored hne
    obtain ⟨s', hs', -⟩ := hext.symbols.sections _ s hs
    exact ⟨s', hs'⟩
  · have hne := SymbolTable.ne_zero_of_section? hs'
    obtain ⟨s, hs⟩ := h.anchored hne
    obtain ⟨s'', hs'', hle⟩ := hext.symbols.sections _ s hs
    rw [hs'] at hs''
    obtain rfl := Option.some.inj hs''
    exact Int64.le_trans (h.fits s hs) hle
  · rw [hconstants]
    exact h.chained
  · rw [hconstants]
    exact h.sound
  · rw [hconstants]
    exact fun hds c hc => hext.symbols.accepted (h.accepted hds c hc)
  · intro ids hbody id hid
    obtain ⟨literal, hliteral, hsection, hplace, hdescriptor⟩ :=
      h.pooled ids hbody id hid
    exact ⟨literal, hext.placed id literal hliteral hplace, hsection, hplace,
      hdescriptor⟩
  · intro op bound hbody b hb
    obtain ⟨literal, hliteral, htext, hsame⟩ := h.bound op bound hbody b hb
    obtain ⟨place, hmoved⟩ := hext.literals b.2 literal hliteral
    exact ⟨_, hmoved, htext, hsame⟩

/-! ### The constants that literals are written as -/

namespace Record

/-- The constant that a literal operand says where its record stands. -/
def written (t : SymbolTable) (r : Record) (text : Bytes) :
    Except (Constant.ParseError Problem) Constant.Descriptor :=
  (Constant.parse (Expression.absolute t r.place) text.tail).result

/-- Whether an instruction says a constant with every literal that it is bound
to. -/
def Spells (l : Layout) (r : Record) : Prop :=
  ∀ op bound, r.body = .instruction op bound → ∀ b ∈ bound, ∃ literal own,
    l.literals.literals[b.2]? = some literal ∧
      r.written l.symbols literal.text = .ok own

/-- Whether an instruction is bound to a literal, and the literal is the
constant that the instruction says. -/
structure Introduces (t : SymbolTable) (r : Record)
    (literal : Literal) : Prop where
  bound : ∃ op bound, r.body = .instruction op bound ∧ ∃ b ∈ bound,
    b.2 = literal.id
  stored : ∃ d, literal.descriptor = some d ∧ r.written t literal.text = .ok d

variable {l l' : Layout} {r r' : Record} {t t' : SymbolTable}
  {literal : Literal}

/-- What an operand says stays while names are only added. -/
theorem written_mono (hext : t.Extends t') {text : Bytes}
    {d : Constant.Descriptor} (h : r.written t text = .ok d) :
    r.written t' text = .ok d :=
  Constant.result_parse_mono h fun _ _ =>
    Expression.result_absolute_mono hext.definitions

/-- What a record says of its literals stays. -/
theorem Spells.mono (h : r.Spells l) (hext : l.Keeps l') : r.Spells l' := by
  intro op bound hbody b hb
  obtain ⟨literal, own, hliteral, hown⟩ := h op bound hbody b hb
  obtain ⟨place, hkept⟩ := hext.literals b.2 literal hliteral
  exact ⟨_, own, hkept, written_mono hext.symbols hown⟩

/-- A record that introduces a literal goes on introducing it. -/
theorem Introduces.mono (h : r.Introduces t literal) (hext : t.Extends t') :
    r.Introduces t' literal := by
  obtain ⟨d, hd, hwritten⟩ := h.stored
  exact ⟨h.bound, d, hd, written_mono hext hwritten⟩

/-- So it does when the literal takes its place. -/
theorem Introduces.placed (h : r.Introduces t literal)
    (place : Option Literal.Place) :
    r.Introduces t { literal with place } := ⟨h.bound, h.stored⟩

/-- The place of a record is a matter of its section, its counter and its
body. -/
theorem place_congr (hbody : r'.body = r.body)
    (hsection : r'.sectionId = r.sectionId) (hloc : r'.loc = r.loc) :
    r'.place = r.place := by
  simp only [place, instruction?, hbody, hsection, hloc]

/-- What a record says of literals depends on nothing else. -/
theorem Spells.congr (h : r.Spells l) (hbody : r'.body = r.body)
    (hsection : r'.sectionId = r.sectionId) (hloc : r'.loc = r.loc) :
    r'.Spells l := by
  intro op bound hinstruction b hb
  obtain ⟨literal, own, hliteral, hown⟩ :=
    h op bound (hbody.symm.trans hinstruction) b hb
  refine ⟨literal, own, hliteral, ?_⟩
  rwa [written, place_congr hbody hsection hloc]

/-- Nor does whether it introduces one. -/
theorem Introduces.congr (h : r.Introduces t literal) (hbody : r'.body = r.body)
    (hsection : r'.sectionId = r.sectionId) (hloc : r'.loc = r.loc) :
    r'.Introduces t literal := by
  obtain ⟨op, bound, hinstruction, hmem⟩ := h.bound
  obtain ⟨d, hd, hwritten⟩ := h.stored
  refine ⟨⟨op, bound, hbody.trans hinstruction, hmem⟩, d, hd, ?_⟩
  rwa [written, place_congr hbody hsection hloc]

/-! ### Binding an instruction to one more literal -/

section Binding

variable {op : Instruction} {bound : List (Nat × Nat)}
  (hbody : r.body = .instruction op bound)
include hbody

/-- What an instruction is bound to does not say where it stands. -/
theorem written_bound (more : List (Nat × Nat)) (text : Bytes) :
    ({ r with body := .instruction op more } : Record).written t text =
      r.written t text := by
  have hplace : ({ r with body := .instruction op more } : Record).place =
      r.place := by
    simp [place, instruction?, hbody]
  unfold written
  rw [hplace]

/-- An instruction stays placed when it is bound to a literal of its section. -/
theorem Placed.bind (h : r.Placed l) {operand id : Nat}
    (hlast : ∃ literal, l.literals.literals[id]? = some literal ∧
      r.statement.operands[operand]? = some literal.text ∧
      literal.text.head? = some (octet '=') ∧ literal.sectionId = r.sectionId) :
    ({ r with body := .instruction op (bound ++ [(operand, id)]) } :
      Record).Placed l := by
  refine ⟨h.object, h.anchored, h.fits,
    fun op' bound' heq => ?_, by simp [isConstants],
    by simp [constants], by simp [constants], by simp, by simp [Equated],
    fun op' bound' heq => ?_, fun op' bound' heq b hb => ?_, ?_⟩
  · cases heq
    exact h.instruction op bound hbody
  · cases heq
    exact h.counted op bound hbody
  · cases heq
    rcases List.mem_append.mp hb with hb | hb
    · exact h.bound op bound hbody b hb
    · rw [List.mem_singleton.mp hb]
      exact hlast
  · have haligned := h.aligned
    simp only [Aligned, hbody] at haligned
    exact haligned

/-- It says a constant with that literal as well. -/
theorem Spells.bind (h : r.Spells l) {operand id : Nat}
    (hlast : ∃ literal own, l.literals.literals[id]? = some literal ∧
      r.written l.symbols literal.text = .ok own) :
    ({ r with body := .instruction op (bound ++ [(operand, id)]) } :
      Record).Spells l := by
  intro op' bound' heq b hb
  cases heq
  simp only [written_bound hbody]
  rcases List.mem_append.mp hb with hb | hb
  · exact h op bound hbody b hb
  · rw [List.mem_singleton.mp hb]
    exact hlast

/-- It introduces what it did before. -/
theorem Introduces.bind (h : r.Introduces t literal) (more : List (Nat × Nat)) :
    ({ r with body := .instruction op (bound ++ more) } : Record).Introduces t
      literal := by
  obtain ⟨op', bound', hsame, b, hb, hid⟩ := h.bound
  cases hbody.symm.trans hsame
  refine ⟨⟨op, _, rfl, b, List.mem_append_left _ hb, hid⟩, ?_⟩
  simp only [written_bound hbody]
  exact h.stored

/-- The literal that an instruction is bound to at last is introduced there. -/
theorem introduces_bind {operand : Nat}
    {own : Constant.Descriptor} (hstored : literal.descriptor = some own)
    (hwritten : r.written t literal.text = .ok own) :
    ({ r with body := .instruction op (bound ++ [(operand, literal.id)]) } :
      Record).Introduces t
      literal := by
  refine ⟨⟨op, _, rfl, _, List.mem_append_right _ (List.mem_singleton_self _),
    rfl⟩, own, hstored, ?_⟩
  rw [written_bound hbody]
  exact hwritten

end Binding

end Record

end System370
