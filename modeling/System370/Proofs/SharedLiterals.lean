import System370.Proofs.PooledLiterals

/-!
# Shared literals

Instructions of a section that name the same text share one literal, from the
first of them up to the next pool.  Its constant is read once, where the first
of them stands.  A duplication factor or a length modifier may be an expression,
and one that reads the place of its statement (`Expression.readsPlace`) may have
another value where the others stand.

A part of a program introduces the literals that join in it (`Layout.Founded`),
each by the first of its records that is bound to it; parts compose
(`Layout.Founded.append`).

* `Program.literals_shared`: the constant of a literal is the one that its first
  instruction says, and the one that another of its instructions says just if
  the expressions of the text have the same values where both stand.
-/

namespace System370

namespace Expression

/-! ### Expressions that read their place -/

variable {table : SymbolTable} {place place' : Place} {text : Bytes}

/-- Whether a step reads the place of the statement. -/
def Step.readsPlace : Step → Bool
  | .place | .placeLength => true
  | _ => false

/-- Whether an expression reads the place of its statement. -/
def readsPlace (text : Bytes) : Bool := (parse text).steps.any Step.readsPlace

/-- A step that does not read its place comes to the same elsewhere. -/
theorem Step.run_elsewhere {step : Step} (h : step.readsPlace = false)
    (stack : List Result) :
    step.run table place stack = step.run table place' stack := by
  cases step with
  | place | placeLength => simp [readsPlace] at h
  | number | symbol | lengthOf | negate | add | subtract | multiply | divide =>
      rfl

/-- So do the steps of an expression. -/
theorem run_elsewhere {steps : List Step}
    (h : ∀ step ∈ steps, step.readsPlace = false) (stack : List Result) :
    run table place stack steps = run table place' stack steps := by
  induction steps generalizing stack with
  | nil => rfl
  | cons step rest ih =>
      rw [List.forall_mem_cons] at h
      unfold run
      rw [Step.run_elsewhere h.1]
      congr 1
      exact funext (ih h.2)

/-- **An expression that does not read its place** has the same value at all
places. -/
theorem absolute_elsewhere (h : readsPlace text = false) :
    absolute table place text = absolute table place' text := by
  have hsteps : ∀ step ∈ (parse text).steps, step.readsPlace = false := by
    simpa [readsPlace] using h
  unfold absolute evaluate
  simp only
  rw [run_elsewhere hsteps]

end Expression

/-! ### Records of one literal -/

namespace Record

/-- Whether a record is an instruction that is bound to a literal. -/
def isBoundTo (id : Nat) (r : Record) : Bool := r.bindings.any (·.2 = id)

/-- Whether the expressions of a literal have the same values where two records
stand. -/
def Agrees (t : SymbolTable) (r r' : Record) (text : Bytes) : Prop :=
  ∀ e ∈ Constant.expressions text.tail,
    (Expression.absolute t r.place e).result =
      (Expression.absolute t r'.place e).result

variable {t : SymbolTable} {r r' : Record} {text : Bytes} {id : Nat}
  {l : Layout}

/-- An instruction is bound to a literal by one of its operands. -/
theorem isBoundTo_iff : r.isBoundTo id = true ↔ ∃ b ∈ r.bindings, b.2 = id := by
  simp [isBoundTo]

/-- A record that names no literal is bound to none. -/
theorem NamesNone.isBoundTo (h : r.NamesNone) (id : Nat) :
    r.isBoundTo id = false := by
  simp [Record.isBoundTo, h.bindings]

theorem NamesNone.spells (h : r.NamesNone) (l : Layout) : r.Spells l := by
  intro op bound hbody
  simp [h.2 op bound hbody]

/-- What two records say with one text is the same just if its expressions
are. -/
theorem written_eq_iff {own own' : Constant.Descriptor}
    (h : r.written t text = .ok own) (h' : r'.written t text = .ok own') :
    own = own' ↔ r.Agrees t r' text :=
  Constant.parse_eq_iff h h'

/-- Records agree on a text whose expressions do not read their place. -/
theorem agrees_of_readsPlace
    (h : ∀ e ∈ Constant.expressions text.tail, Expression.readsPlace e = false)
    (t : SymbolTable) (r r' : Record) : r.Agrees t r' text :=
  fun e he => congrArg _ (Expression.absolute_elsewhere (h e he))

/-- A record is bound to a literal that it introduces. -/
theorem Introduces.isBoundTo {literal : Literal} (h : r.Introduces t literal) :
    r.isBoundTo literal.id = true := by
  obtain ⟨op, bound, hbody, b, hb, hid⟩ := h.bound
  exact isBoundTo_iff.mpr ⟨b, mem_bindings.mpr ⟨op, bound, hbody, hb⟩, hid⟩

/-- A binding names a literal with whose text the record says a constant. -/
theorem Spells.of_mem (h : r.Spells l) {b : Nat × Nat} (hb : b ∈ r.bindings) :
    ∃ literal own,
    l.literals.literals[b.2]? = some literal ∧
      r.written l.symbols literal.text = .ok own := by
  obtain ⟨op, bound, hbody, hmem⟩ := mem_bindings.mp hb
  exact h op bound hbody b hmem

end Record

namespace Layout

variable {l l' l'' : Layout} {records others : List Record}

/-! ### From the literals before to those behind -/

/-- What the records of a part of a program say of literals: each says a
constant with every literal that it is bound to, and the first record of a
literal that joined introduces it. -/
structure Founded (l : Layout) (outcome : Layout × List Record) : Prop where
  spelled : ∀ r ∈ outcome.2, r.Spells outcome.1
  introduced : ∀ literal ∈ outcome.1.literals.literals,
    l.literals.literals.length ≤ literal.id →
    ∃ first, outcome.2.find? (Record.isBoundTo literal.id) = some first ∧
      first.Introduces outcome.1.symbols literal

/-- No record of a part of a program is bound to a literal that joins behind
it. -/
theorem find?_isBoundTo_eq_none (h : ∀ r ∈ records, r.Spells l)
    {id : Nat} (hle : l.literals.literals.length ≤ id) :
    records.find? (Record.isBoundTo id) = none := by
  refine List.find?_eq_none.mpr fun r hr hbound => ?_
  obtain ⟨b, hb, rfl⟩ := Record.isBoundTo_iff.mp hbound
  obtain ⟨literal, -, hliteral, -⟩ := (h r hr).of_mem hb
  have hlt := (List.getElem?_eq_some_iff.mp hliteral).1
  omega

/-- **Parts of a program compose.** -/
theorem Founded.append (h : Founded l (l', records))
    (h' : Founded l' (l'', others)) (hsecond : Outcome l' (l'', others)) :
    Founded l (l'', records ++ others) := by
  refine ⟨fun r hr => ?_, fun literal hl hle => ?_⟩
  · rcases List.mem_append.mp hr with hr | hr
    · exact (h.spelled r hr).mono hsecond.grown
    · exact h'.spelled r hr
  · rw [List.find?_append]
    by_cases hlt : literal.id < l'.literals.literals.length
    · -- it was there before the second part, and is the same but for its place
      obtain ⟨old, hold⟩ : ∃ old,
          l'.literals.literals[literal.id]? = some old :=
        ⟨_, List.getElem?_eq_getElem hlt⟩
      have hid := (LiteralPool.inStep _).numbered _ _ hold
      obtain ⟨place, hkept⟩ := hsecond.grown.literals _ _ hold
      have hsame : { old with place } = literal :=
        Option.some.inj (hkept.symm.trans
          ((LiteralPool.inStep _).getElem?_id hl))
      obtain ⟨first, hfirst, hintroduces⟩ :=
        h.introduced old (List.mem_of_getElem? hold) (hid ▸ hle)
      rw [hid] at hfirst
      refine ⟨first, ?_,
        hsame ▸ (hintroduces.mono hsecond.grown.symbols).placed place⟩
      rw [hfirst]
      rfl
    · have hle' : l'.literals.literals.length ≤ literal.id :=
        Nat.le_of_not_lt hlt
      obtain ⟨first, hfirst, hintroduces⟩ := h'.introduced literal hl hle'
      refine ⟨first, ?_, hintroduces⟩
      rw [find?_isBoundTo_eq_none h.spelled hle', Option.none_or]
      exact hfirst

/-- Only the pool matters for what joins. -/
theorem Founded.of_literals {outcome : Layout × List Record}
    (h : Founded l' outcome) (hliterals : l'.literals = l.literals) :
    Founded l outcome :=
  ⟨h.spelled, fun literal hl hle => h.introduced literal hl (hliterals ▸ hle)⟩

/-- A part of a program in which no literal joins. -/
theorem founded_of_counted
    (hcounted : l'.literals.literals.length = l.literals.literals.length)
    (hspelled : ∀ r ∈ records, r.Spells l') : Founded l (l', records) := by
  refine ⟨hspelled, fun literal hl hle => ?_⟩
  have hlt : literal.id < l'.literals.literals.length := Layout.id_lt hl
  omega

theorem founded_nil (l : Layout) : Founded l (l, []) :=
  founded_of_counted rfl (by simp)

/-- A statement before the end introduces the literals that join. -/
theorem founded_single {d : Draft} (h : d.Laid l) :
    Founded l (d.layout, [d.record]) := by
  refine ⟨fun r hr => ?_, fun literal hl hle => ?_⟩
  · rw [List.mem_singleton.mp hr]
    exact h.spelled
  · have hintroduces := h.introduced literal hl hle
    exact ⟨d.record, by simp [hintroduces.isBoundTo], hintroduces⟩

/-- Nothing joins when a section is flushed. -/
theorem founded_flushSection (hwf : l.WellFormed) (statement : Statement)
    (id : Int) :
    Founded l ((l.flushSection statement id).1,
      (l.flushSection statement id).2.toList) := by
  have hwf' := (outcome_flushSection hwf statement id).1.layout
  revert hwf'
  unfold flushSection
  split
  · exact fun _ => founded_nil l
  · simp only
    generalize (if l.symbols.current = some id then _ else _) = loc
    have hlength := (LiteralPool.flush_spec l.literals id loc).length
    split
    · exact fun _ => founded_nil l
    · exact fun _ => founded_of_counted hlength (by simp [Record.Spells])

/-- **What the records of a program say of its literals** composes. -/
theorem composes_founded : Composes Founded where
  nil _ := founded_nil _
  append h _ h' hsecond := h.append h' hsecond
  single _ hlaid _ := founded_single hlaid
  flushed := founded_flushSection
  of_literals := Founded.of_literals

/-! ### Settled equates -/

/-- The first record of a literal stays the first when equates are settled. -/
theorem find?_isBoundTo_congr (h : List.Forall₂ Settles records others)
    (id : Nat) :
    others.find? (Record.isBoundTo id) =
      records.find? (Record.isBoundTo id) := by
  induction h with
  | nil => rfl
  | cons hr _ ih =>
      rw [List.find?_cons, List.find?_cons, ih]
      rcases hr.eq_or_namesNone with rfl | ⟨hnone, hnone'⟩
      · rfl
      · rw [hnone.isBoundTo, hnone'.isBoundTo]

/-- What joined is founded by the records as they are settled. -/
theorem Founded.settled (h : Founded l (l', records))
    (hsame : List.Forall₂ Settles records others)
    (hliterals : l''.literals = l'.literals) (hkeeps : l'.Keeps l'') :
    Founded l (l'', others) := by
  refine ⟨fun r' hr' => ?_, fun literal hl hle => ?_⟩
  · obtain ⟨i, hlt, rfl⟩ := List.getElem_of_mem hr'
    have hlt' : i < records.length := hsame.length_eq ▸ hlt
    have hsettles : Settles records[i] others[i] := hsame.get hlt' hlt
    show others[i].Spells l''
    rcases hsettles.eq_or_namesNone with heq | ⟨-, hnone⟩
    · rw [heq]
      exact (h.spelled _ (List.getElem_mem hlt')).mono hkeeps
    · exact hnone.spells l''
  · obtain ⟨first, hfirst, hintroduces⟩ :=
      h.introduced literal (hliterals ▸ hl) hle
    refine ⟨first, ?_, hintroduces.mono hkeeps.symbols⟩
    rw [← hfirst]
    exact find?_isBoundTo_congr hsame literal.id

end Layout

/-! ### Programs -/

namespace Program

/-- **Every literal of a program** is introduced by the first record that is
bound to it. -/
theorem founded_unplaced (options : Options) (statements : List Statement) :
    Layout.Founded (Layout.new options)
      ((unplaced options statements).layout,
        (unplaced options statements).records) := by
  obtain ⟨l, records, hfounded, hkeeps, hliterals, hsame⟩ :=
    exists_unsettled Layout.composes_founded options statements
  exact hfounded.settled hsame hliterals hkeeps

/-- A literal of a program: the first record that is bound to it says its
constant. -/
theorem exists_first (options : Options) (statements : List Statement) :
    let p := unplaced options statements
    ∀ (id : Nat) literal, p.layout.literals.literals[id]? = some literal →
      ∃ first stored, p.records.find? (Record.isBoundTo id) = some first ∧
        literal.descriptor = some stored ∧
        first.written p.layout.symbols literal.text = .ok stored := by
  intro p id literal hliteral
  obtain rfl := (LiteralPool.inStep _).numbered id literal hliteral
  obtain ⟨first, hfirst, hintroduces⟩ :=
    (founded_unplaced options statements).introduced literal
      (List.mem_of_getElem? hliteral) (Nat.zero_le _)
  obtain ⟨stored, hstored, hwritten⟩ := hintroduces.stored
  exact ⟨first, stored, hfirst, hstored, hwritten⟩

/-- What a record says with a literal that it is bound to. -/
theorem exists_own (options : Options) (statements : List Statement) :
    let p := unplaced options statements
    ∀ r ∈ p.records, ∀ b ∈ r.bindings, ∃ literal own,
      p.layout.literals.literals[b.2]? = some literal ∧
      r.statement.operands[b.1]? = some literal.text ∧
      r.written p.layout.symbols literal.text = .ok own := by
  intro p r hr b hb
  obtain ⟨literal, own, hliteral, hown⟩ :=
    ((founded_unplaced options statements).spelled r hr).of_mem hb
  obtain ⟨op, bound, hbody, hmem⟩ := Record.mem_bindings.mp hb
  obtain ⟨same, hsame, htext, -⟩ :=
    ((unplaced_spec options statements).2 r hr).bound op bound hbody b hmem
  obtain rfl := Option.some.inj (hsame.symm.trans hliteral)
  exact ⟨same, own, hliteral, htext, hown⟩

/-- Records that move keep their bindings. -/
theorem bindings_moveRecord (t : SymbolTable) (r : Record) :
    (moveRecord t r).bindings = r.bindings := by
  unfold moveRecord Record.bindings
  cases r.body <;> rfl

/-- **What instructions share.**  When all statements are laid out, every
instruction that is bound to a literal says a constant with its text where it
stands; it does so with the names known to it, and later names change nothing.
The constant of the literal is the one that the first instruction bound to it
says, and the one that any other says just if the expressions of the text have
the same values where both stand; so it is if none of them reads its place.  The
same holds of any two instructions that share a literal.  Placing sections
changes neither what instructions are bound to nor the text or the constant of a
literal. -/
theorem literals_shared (options : Options) (statements : List Statement) :
    let p := unplaced options statements
    let q := ofStatements options statements
    let t := p.layout.symbols
    (∀ r ∈ p.records, ∀ b ∈ r.bindings, ∃ literal first stored own,
      p.layout.literals.literals[b.2]? = some literal ∧
      r.statement.operands[b.1]? = some literal.text ∧
      r.written t literal.text = .ok own ∧
      p.records.find? (Record.isBoundTo b.2) = some first ∧
      literal.descriptor = some stored ∧
      first.written t literal.text = .ok stored ∧
      (stored = own ↔ first.Agrees t r literal.text) ∧
      ((∀ e ∈ Constant.expressions literal.text.tail,
        Expression.readsPlace e = false) →
        stored = own)) ∧
    (∀ r ∈ p.records, ∀ r' ∈ p.records, ∀ b ∈ r.bindings, ∀ b' ∈ r'.bindings,
      b.2 = b'.2 →
      ∃ text own own', r.statement.operands[b.1]? = some text ∧
        r'.statement.operands[b'.1]? = some text ∧
        r.written t text = .ok own ∧ r'.written t text = .ok own' ∧
        (own = own' ↔ r.Agrees t r' text)) ∧
    q.records.map Record.bindings = p.records.map Record.bindings ∧
    q.layout.literals.literals.map
      (fun literal => (literal.text, literal.descriptor)) =
      p.layout.literals.literals.map fun literal => (literal.text,
        literal.descriptor) := by
  intro p q t
  refine ⟨fun r hr b hb => ?_, fun r hr r' hr' b hb b' hb' hsame => ?_, ?_, ?_⟩
  · obtain ⟨literal, own, hliteral, htext, hown⟩ :=
      exists_own options statements r hr b hb
    obtain ⟨first, stored, hfirst, hstored, hwritten⟩ :=
      exists_first options statements b.2 literal hliteral
    have hiff := Record.written_eq_iff hwritten hown
    exact ⟨literal, first, stored, own, hliteral, htext, hown, hfirst, hstored,
      hwritten, hiff,
      fun hfree => hiff.mpr (Record.agrees_of_readsPlace hfree t first r)⟩
  · obtain ⟨literal, own, hliteral, htext, hown⟩ :=
      exists_own options statements r hr b hb
    obtain ⟨literal', own', hliteral', htext', hown'⟩ :=
      exists_own options statements r' hr' b' hb'
    rw [← hsame] at hliteral'
    obtain rfl := Option.some.inj (hliteral.symm.trans hliteral')
    exact ⟨literal.text, own, own', htext, htext', hown, hown',
      Record.written_eq_iff hown hown'⟩
  · show (p.records.map (moveRecord _)).map Record.bindings = _
    rw [List.map_map]
    exact List.map_congr_left fun r _ => bindings_moveRecord _ r
  · show (p.layout.literals.literals.map _).map _ = _
    rw [List.map_map]
    rfl

/-- Two loads of one text, whose factor counts the octets in front of the load.
The first says one fullword and the second five; what they share is one
fullword. -/
theorem literals_shared_counted :
    ∃ statements first r literal stored own,
      Statement.readAll (bytes
        "A CSECT\n USING A,15\n L 1,=(*-A+1)F'1'\n L 2,=(*-A+1)F'1'\n END\n") =
        .ok statements ∧
      (unplaced {} statements).records[2]? = some first ∧
      first.bindings = [(1, 0)] ∧
      (unplaced {} statements).records[3]? = some r ∧ r.bindings = [(1, 0)] ∧
      (unplaced {} statements).layout.literals.literals[0]? = some literal ∧
      literal.descriptor = some stored ∧ stored.dup = 1 ∧
      first.written (unplaced {} statements).layout.symbols
        literal.text = .ok stored ∧
      r.written (unplaced {} statements).layout.symbols literal.text = .ok own ∧
      own.dup = 5 ∧
      ¬ first.Agrees (unplaced {} statements).layout.symbols r
        literal.text := by
  have hcheck : (Statement.readAll (bytes
      "A CSECT\n USING A,15\n L 1,=(*-A+1)F'1'\n L 2,=(*-A+1)F'1'\n END\n")
      |>.toOption.any fun statements =>
        let p := unplaced {} statements
        let dup? : Record → Option Nat := fun r =>
          (p.layout.literals.literals[0]?).bind fun literal =>
            (r.written p.layout.symbols literal.text).toOption.map (·.dup)
        decide (p.records.find? (Record.isBoundTo 0) = p.records[2]? ∧
          (p.records[2]?).map Record.bindings = some [(1, 0)] ∧
          (p.records[3]?).map Record.bindings = some [(1, 0)] ∧
          (p.records[2]?).bind dup? = some 1 ∧
          (p.records[3]?).bind dup? = some 5)) = true := by
    decide +kernel
  obtain ⟨statements, hread, hcheck⟩ := exists_ok_of_any hcheck
  obtain ⟨hfound, hbound, hbound', hdup, hdup'⟩ := of_decide_eq_true hcheck
  obtain ⟨r, hr, hbindings⟩ := Option.map_eq_some_iff.mp hbound'
  obtain ⟨hshared, -⟩ := literals_shared {} statements
  obtain ⟨literal, first, stored, own, hliteral, -, hown, hfirst, hstored,
      hwritten, hiff, -⟩ :=
    hshared r (List.mem_of_getElem? hr) (1, 0) (by simp [hbindings])
  rw [hfound] at hfirst
  have hone : stored.dup = 1 := by
    simpa [hfirst, hliteral, hwritten, Except.toOption] using hdup
  have hfive : own.dup = 5 := by
    simpa [hr, hliteral, hown, Except.toOption] using hdup'
  refine ⟨statements, first, r, literal, stored, own, hread, hfirst, ?_, hr,
    hbindings, hliteral,
    hstored, hone, hwritten, hown, hfive, fun hagrees => ?_⟩
  · simpa [hfirst] using hbound
  · rw [hiff.mpr hagrees, hfive] at hone
    exact absurd hone (by decide)

end Program

end System370
