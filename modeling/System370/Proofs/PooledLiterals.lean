import System370.Proofs.Addresses
import System370.Statement.Read

/-!
# Pooled literals

A literal waits from its first use until the next pool of its section.  Where
that pool is, is not known when the instruction is laid out: sections are left
and resumed, an `LTORG` serves its own section only, and the end serves all
others.  A part of a program therefore either lists a literal that waited before
it, in the first pool of its section, or leaves it waiting (`Layout.Goes`);
parts compose (`Layout.Served.append`), and at the end nothing waits.

* `Layout.Served`: what holds of the literals over any part of a program;
* `Program.Pooled`: nothing waits, every literal is listed once, and that of an
  instruction in the first pool of its section behind the instruction;
* `Program.Spaced`: literals lie in the records that list them, one behind the
  other;
* `Program.Pooled.literals_moveListed`: moving the literals along with the
  records that list them moves each of them once;
* `Program.literals_pooled`: all of this for every program.
-/

namespace System370

/-! ### The literals that a record names -/

namespace Record

/-- The literals that a record lists.  Only pools list any. -/
def listed (r : Record) : List Nat :=
  match r.body with
  | .pool ids => ids
  | _ => []

/-- The operands of an instruction that are literals, and the literals. -/
def bindings (r : Record) : List (Nat × Nat) :=
  match r.body with
  | .instruction _ bound => bound
  | _ => []

/-- The literals that a record lists if it is a pool of a section. -/
def poolOf? (sectionId : Int) (r : Record) : Option (List Nat) :=
  match r.body with
  | .pool ids => if r.sectionId = sectionId then some ids else none
  | _ => none

variable {r : Record} {sectionId : Int}

/-- A record lists a literal if it is a pool that does. -/
theorem mem_listed {id : Nat} : id ∈ r.listed ↔ ∃ ids, r.body = .pool ids ∧
    id ∈ ids := by
  unfold listed
  split <;> simp_all

/-- A record binds an operand if it is an instruction that does. -/
theorem mem_bindings {b : Nat × Nat} :
    b ∈ r.bindings ↔ ∃ op bound, r.body = .instruction op bound ∧
      b ∈ bound := by
  unfold bindings
  split
  · rename_i op bound hbody
    constructor
    · exact fun hb => ⟨op, bound, hbody, hb⟩
    · rintro ⟨_, _, hsame, hb⟩
      cases hbody.symm.trans hsame
      exact hb
  · rename_i hnone
    simp only [List.not_mem_nil, false_iff]
    rintro ⟨op, bound, hbody, -⟩
    exact hnone op bound hbody

/-- The pool of a section, found. -/
theorem poolOf?_eq_some {ids : List Nat} :
    r.poolOf? sectionId = some ids ↔ r.body = .pool ids ∧
      r.sectionId = sectionId := by
  unfold poolOf?
  split <;> simp_all [and_comm]

/-- Not the pool of a section. -/
theorem poolOf?_eq_none :
    r.poolOf? sectionId = none ↔ ∀ ids, r.body = .pool ids →
      r.sectionId ≠ sectionId := by
  unfold poolOf?
  split <;> simp_all

/-- A record that names no literal lists none. -/
theorem NamesNone.listed (h : r.NamesNone) : r.listed = [] := by
  rw [List.eq_nil_iff_forall_not_mem]
  intro id hid
  obtain ⟨ids, hbody, -⟩ := mem_listed.mp hid
  exact h.1 ids hbody

theorem NamesNone.bindings (h : r.NamesNone) : r.bindings = [] := by
  rw [List.eq_nil_iff_forall_not_mem]
  intro b hb
  obtain ⟨op, bound, hbody, hmem⟩ := mem_bindings.mp hb
  simp [h.2 op bound hbody] at hmem

theorem NamesNone.poolOf? (h : r.NamesNone) (sectionId : Int) :
    r.poolOf? sectionId = none :=
  poolOf?_eq_none.mpr fun ids hbody => absurd hbody (h.1 ids)

/-- Whether a record is the first pool of a section among some records. -/
def IsFirstPool (pool : Record) (sectionId : Int)
    (records : List Record) : Prop :=
  ∃ front back,
    records = front ++ pool :: back ∧ (∃ ids, pool.body = .pool ids) ∧
    pool.sectionId = sectionId ∧
    ∀ other ∈ front, ∀ ids, other.body = .pool ids → other.sectionId ≠ sectionId

end Record

/-- The literals of the first pool of a section. -/
def nextPool? (sectionId : Int) (records : List Record) : Option (List Nat) :=
  records.findSome? (Record.poolOf? sectionId)

/-- The next pool of a section is the first one behind. -/
theorem exists_isFirstPool {sectionId : Int} {records : List Record}
    {ids : List Nat} (h : nextPool? sectionId records = some ids) :
    ∃ pool : Record, pool.IsFirstPool sectionId records ∧
      pool.listed = ids := by
  obtain ⟨front, pool, back, hsplit, hpool, hfront⟩ :=
    List.findSome?_eq_some_iff.mp h
  obtain ⟨hbody, hsection⟩ := Record.poolOf?_eq_some.mp hpool
  exact ⟨pool, ⟨front, back, hsplit, ⟨ids, hbody⟩, hsection,
    fun other ho => Record.poolOf?_eq_none.mp
      (hfront other ho)⟩, by simp [Record.listed, hbody]⟩

namespace Layout

variable {l l' l'' : Layout} {records others : List Record}

/-! ### From the first use to the next pool -/

/-- Where a literal of a section is in the end that waits in front of some
records: the first pool of the section lists it, or there is none and it waits
still. -/
def Goes (l : Layout) (records : List Record) (sectionId : Int)
    (id : Nat) : Prop :=
  match nextPool? sectionId records with
  | some ids => id ∈ ids
  | none => ∃ literal, l.literals.literals[id]? = some literal ∧
      literal.sectionId = sectionId ∧ literal.place = none

/-- Whether the literals of instructions go where they should behind the
instructions. -/
def Delivers (l : Layout) : List Record → Prop
  | [] => True
  | r :: rest => (∀ b ∈ r.bindings, Goes l rest r.sectionId b.2) ∧
    Delivers l rest

/-- What becomes of literals over a part of a program. -/
structure Served (l : Layout) (outcome : Layout × List Record) : Prop where
  once : (outcome.2.flatMap Record.listed).Nodup
  waited : ∀ id ∈ outcome.2.flatMap Record.listed, ∀ literal,
    l.literals.literals[id]? = some literal → literal.place = none
  next : ∀ literal ∈ l.literals.literals, literal.place = none →
    Goes outcome.1 outcome.2 literal.sectionId literal.id
  bound : Delivers outcome.1 outcome.2

/-- A literal that waits behind the first part goes where the second part takes
it. -/
theorem Goes.append {sectionId : Int} {id : Nat}
    (h : Goes l' records sectionId id)
    (hnext : ∀ literal ∈ l'.literals.literals, literal.place = none →
      Goes l'' others literal.sectionId literal.id) :
    Goes l'' (records ++ others) sectionId id := by
  unfold Goes nextPool? at h ⊢
  rw [List.findSome?_append]
  cases hpool : records.findSome? (Record.poolOf? sectionId) with
  | some ids => simpa [hpool] using h
  | none =>
      -- none of the records is a pool of the section, so the others have to
      -- serve it
      simp only [hpool] at h
      obtain ⟨literal, hliteral, rfl, hplace⟩ := h
      have hgoes := hnext literal (List.mem_of_getElem? hliteral) hplace
      rw [(LiteralPool.inStep _).numbered id literal hliteral] at hgoes
      exact hgoes

/-- Parts deliver their literals one after the other. -/
theorem Delivers.append (h : Delivers l' records) (h' : Delivers l'' others)
    (hnext : ∀ literal ∈ l'.literals.literals, literal.place = none →
      Goes l'' others literal.sectionId literal.id) :
    Delivers l'' (records ++ others) := by
  induction records with
  | nil => exact h'
  | cons r rest ih => exact ⟨fun b hb => (h.1 b hb).append hnext, ih h.2⟩

/-- What an instruction is bound to goes where it should among the records
behind it. -/
theorem Delivers.goes {before rest : List Record}
    {r : Record} (h : Delivers l (before ++ r :: rest)) :
    ∀ b ∈ r.bindings, Goes l rest r.sectionId b.2 := by
  induction before with
  | nil => exact h.1
  | cons first before ih => exact ih h.2

/-- What records list has its place. -/
theorem Outcome.listed (h : Outcome l (l', records))
    {id : Nat} (hid : id ∈ records.flatMap Record.listed) :
    ∃ literal, l'.literals.literals[id]? = some literal ∧
      literal.place.isSome := by
  obtain ⟨r, hr, hid⟩ := List.mem_flatMap.mp hid
  obtain ⟨ids, hbody, hmem⟩ := Record.mem_listed.mp hid
  obtain ⟨literal, hliteral, -, hplace, -⟩ :=
    (h.records r hr).pooled ids hbody id hmem
  exact ⟨literal, hliteral, hplace⟩

/-- **Parts of a program compose**: what the first leaves waiting the second
serves. -/
theorem Served.append (h : Served l (l', records))
    (hfirst : Outcome l (l', records)) (h' : Served l' (l'', others)) :
    Served l (l'', records ++ others) := by
  refine ⟨?_, fun id hid literal hliteral => ?_,
    fun literal hl hplace => (h.next literal hl hplace).append h'.next,
    h.bound.append h'.bound h'.next⟩
  · rw [List.flatMap_append, List.nodup_append]
    refine ⟨h.once, h'.once, fun id hid other hother heq => ?_⟩
    subst heq
    obtain ⟨literal, hliteral, hplace⟩ := hfirst.listed hid
    simp [h'.waited id hother literal hliteral] at hplace
  · rw [List.flatMap_append, List.mem_append] at hid
    rcases hid with hid | hid
    · exact h.waited id hid literal hliteral
    · cases hplace : literal.place with
      | none => rfl
      | some spot =>
          have hkept :=
            hfirst.grown.placed id literal hliteral (by simp [hplace])
          exact hplace.symm.trans (h'.waited id hid literal hkept)

/-- What becomes of literals depends on the pool alone. -/
theorem Served.of_literals {outcome : Layout × List Record}
    (h : Served l' outcome) (hliterals : l'.literals = l.literals) :
    Served l outcome := by
  obtain ⟨honce, hwaited, hnext, hbound⟩ := h
  rw [hliterals] at hwaited hnext
  exact ⟨honce, hwaited, hnext, hbound⟩

theorem served_nil (l : Layout) : Served l (l, []) :=
  ⟨List.nodup_nil, by simp, fun literal hl hplace =>
    ⟨literal, (LiteralPool.inStep _).getElem?_id hl, rfl, hplace⟩, trivial⟩

/-- A single record: a pool lists all that waited in its section, and any other
record leaves alone what waits. -/
theorem served_single {r : Record} (hout : Outcome l (l', [r]))
    (hawaits : ∀ b ∈ r.bindings, ∃ literal,
      l'.literals.literals[b.2]? = some literal ∧ literal.place = none)
    (hpending : ∀ ids, r.body = .pool ids →
      l.literals.Pending r.sectionId ids) :
    Served l (l', [r]) := by
  have hsame : [r].flatMap Record.listed = r.listed := by simp
  refine ⟨?_, fun id hid literal hliteral => ?_, fun literal hl hplace => ?_,
    fun b hb => ?_, trivial⟩
  · rw [hsame]
    unfold Record.listed
    split
    · exact (hpending _ ‹_›).nodup
    · exact List.nodup_nil
  · rw [hsame] at hid
    obtain ⟨ids, hbody, hmem⟩ := Record.mem_listed.mp hid
    obtain ⟨waiting, hwaiting, hplace, -⟩ :=
      (hpending ids hbody).waiting id hmem
    rwa [Option.some.inj (hliteral.symm.trans hwaiting)]
  · unfold Goes nextPool?
    rw [List.findSome?_singleton]
    cases hpool : r.poolOf? literal.sectionId with
    | some ids =>
        obtain ⟨hbody, hsection⟩ := Record.poolOf?_eq_some.mp hpool
        exact (hpending ids hbody).complete literal hl hplace hsection.symm
    | none =>
        have hliteral := (LiteralPool.inStep _).getElem?_id hl
        obtain ⟨place, hmoved⟩ :=
          hout.grown.literals literal.id literal hliteral
        refine ⟨_, hmoved, rfl, ?_⟩
        cases place with
        | none => rfl
        | some spot =>
            -- it got its place, so the record is a pool of its section
            rcases hout.pooled _ (List.mem_of_getElem? hmoved) rfl with
              hbefore | ⟨r', hr', ids, hbody, hid⟩
            · rw [Option.some.inj (hliteral.symm.trans hbefore)] at hplace
              exact hplace
            · obtain rfl := List.mem_singleton.mp hr'
              obtain ⟨waiting, hwaiting, -, hsection⟩ :=
                (hpending ids hbody).waiting _ hid
              rw [← Option.some.inj (hliteral.symm.trans hwaiting)] at hsection
              exact absurd hsection.symm
                (Record.poolOf?_eq_none.mp hpool ids hbody)
  · obtain ⟨literal, hliteral, hplace⟩ := hawaits b hb
    obtain ⟨op, bound, hbody, hmem⟩ := Record.mem_bindings.mp hb
    obtain ⟨same, hsame, -, -, hsection⟩ :=
      (hout.records r (List.mem_singleton_self r)).bound op bound hbody b hmem
    rw [Option.some.inj (hsame.symm.trans hliteral)] at hsection
    exact ⟨literal, hliteral, hsection, hplace⟩

/-! ### Statements and programs -/

/-- The pool of a section at the end lists the literals of the section. -/
theorem served_flushSection (hwf : l.WellFormed) (statement : Statement)
    (id : Int) :
    Served l ((l.flushSection statement id).1,
      (l.flushSection statement id).2.toList) := by
  have hout := (outcome_flushSection hwf statement id).1
  revert hout
  unfold flushSection
  split
  · exact fun _ => served_nil l
  · simp only
    generalize (if l.symbols.current = some id then _ else _) = loc
    have hpending := (LiteralPool.flush_spec l.literals id loc).pending
    split
    · exact fun _ => served_nil l
    · intro hout
      refine served_single hout (by simp [Record.bindings]) fun ids hids => ?_
      cases hids
      exact hpending

/-- **What becomes of literals** composes. -/
theorem composes_served : Composes Served where
  nil _ := served_nil _
  append h hfirst h' _ := h.append hfirst h'
  single hwf hlaid hout := by
    refine served_single hout (fun b hb => ?_) hlaid.pending
    obtain ⟨op, bound, hbody, hmem⟩ := Record.mem_bindings.mp hb
    exact hlaid.awaits op bound hbody b hmem
  flushed := served_flushSection
  of_literals := Served.of_literals

/-! ### Settled equates -/

/-- What settling makes of a record names the same literals. -/
theorem Settles.eq_or_namesNone {r r' : Record} (h : Settles r r') :
    r' = r ∨ r.NamesNone ∧ r'.NamesNone := by
  refine h.imp id ?_
  rintro ⟨hwaiting, value, waiting, hbody⟩
  unfold isWaiting at hwaiting
  split at hwaiting
  · exact ⟨Record.namesNone_of_equate ‹_›, Record.namesNone_of_equate hbody⟩
  · simp at hwaiting

variable (h : List.Forall₂ Settles records others)

include h

/-- Records that settle list the same literals. -/
theorem listed_congr :
    others.flatMap Record.listed = records.flatMap Record.listed := by
  induction h with
  | nil => rfl
  | cons hr _ ih =>
      rw [List.flatMap_cons, List.flatMap_cons, ih]
      rcases hr.eq_or_namesNone with rfl | ⟨hnone, hnone'⟩
      · rfl
      · rw [hnone.listed, hnone'.listed]

/-- The next pool is the same among records that settle. -/
theorem nextPool?_congr (sectionId : Int) :
    nextPool? sectionId others = nextPool? sectionId records := by
  unfold nextPool?
  induction h with
  | nil => rfl
  | cons hr _ ih =>
      rw [List.findSome?_cons, List.findSome?_cons, ih]
      rcases hr.eq_or_namesNone with rfl | ⟨hnone, hnone'⟩
      · rfl
      · rw [hnone.poolOf?, hnone'.poolOf?]

/-- Records that settle deliver the same literals. -/
theorem Delivers.congr (hliterals : l'.literals = l.literals)
    (hdelivers : Delivers l records) :
    Delivers l' others := by
  induction h with
  | nil => trivial
  | cons hr hrest ih =>
      obtain ⟨hgoes, hdelivers⟩ := hdelivers
      refine ⟨fun b hb => ?_, ih hdelivers⟩
      rcases hr.eq_or_namesNone with rfl | ⟨-, hnone⟩
      · have hbefore := hgoes b hb
        unfold Goes at hbefore ⊢
        rwa [nextPool?_congr hrest, hliterals]
      · simp [hnone.bindings] at hb

end Layout

/-! ### Moving literals -/

namespace LiteralPool

/-- The addresses of the first octet of a placed literal and of the octet behind
its last. -/
def extent? (p : LiteralPool) (id : Nat) : Option (Int × Int) :=
  (p.literals[id]?).bind fun literal => literal.place.map fun spot =>
    (spot.address.toInt, spot.address.toInt + literal.length)

/-- The literals of an assembly, those moved that a record lists. -/
def moveListed (base : Int → Int64) (literals : List Literal) (r : Record) :
    List Literal :=
  if 0 < r.sectionId then
    r.listed.foldl (fun literals id =>
      literals.modify id (·.moved (base r.sectionId))) literals
  else literals

/-- A list that is changed at several places, each of them once. -/
theorem getElem?_foldl_modify {α : Type} (f : α → α) {ids : List Nat}
    (hnodup : ids.Nodup) (as : List α) (i : Nat) :
    (ids.foldl (fun as id => as.modify id f) as)[i]? =
      as[i]?.map fun a => if i ∈ ids then f a else a := by
  induction ids generalizing as with
  | nil => simp
  | cons id rest ih =>
      obtain ⟨hfirst, hrest⟩ := List.nodup_cons.mp hnodup
      rw [List.foldl_cons, ih hrest, List.getElem?_modify]
      by_cases hid : id = i
      · subst hid
        simp [hfirst, Function.comp_def]
      · simp [hid, Ne.symm hid]

variable {base : Int → Int64} {literals : List Literal}

/-- **One record** moves the literals that it lists, and no others. -/
theorem getElem?_moveListed (hbase : ∀ id ≤ 0, base id = 0) {r : Record}
    (hnodup : r.listed.Nodup)
    (hsections : ∀ id ∈ r.listed, ∀ literal, literals[id]? = some literal →
      literal.sectionId = r.sectionId) (i : Nat) :
    (moveListed base literals r)[i]? = literals[i]?.map fun literal =>
      if i ∈ r.listed then literal.moved (base literal.sectionId) else
          literal := by
  unfold moveListed
  cases hliteral : literals[i]? with
  | none => split <;> simp [getElem?_foldl_modify, hnodup, hliteral]
  | some literal =>
      by_cases hmem : i ∈ r.listed
      · have hsection := hsections i hmem literal hliteral
        split
        · simp [getElem?_foldl_modify, hnodup, hliteral, hmem, hsection]
        · have hzero : base literal.sectionId = 0 := hbase _ (by omega)
          simp [hliteral, hzero, Literal.moved_zero]
      · split <;> simp [getElem?_foldl_modify, hnodup, hliteral, hmem]

/-- **All records one after the other** move every literal that they list
once. -/
theorem getElem?_foldl_moveListed (hbase : ∀ id ≤ 0, base id = 0)
    {records : List Record} (hnodup : (records.flatMap Record.listed).Nodup)
    (hsections : ∀ r ∈ records, ∀ id ∈ r.listed, ∀ literal,
      literals[id]? = some literal →
      literal.sectionId = r.sectionId) (i : Nat) :
    (records.foldl (moveListed base) literals)[i]? =
      literals[i]?.map fun literal =>
      if i ∈ records.flatMap Record.listed then
        literal.moved (base literal.sectionId)
      else literal := by
  induction records generalizing literals with
  | nil => simp
  | cons r rest ih =>
      rw [List.flatMap_cons, List.nodup_append] at hnodup
      obtain ⟨hfirst, hrest, hapart⟩ := hnodup
      have hstep :=
        getElem?_moveListed hbase hfirst (hsections r List.mem_cons_self)
      rw [List.foldl_cons, ih hrest, hstep]
      · cases literals[i]? with
        | none => rfl
        | some literal =>
            by_cases hmem : i ∈ r.listed
            · have hnot : i ∉ rest.flatMap Record.listed :=
                fun hi => hapart i hmem i hi rfl
              simp [hmem, hnot]
            · simp [hmem]
      · -- moving changes no section
        intro r' hr' id hid literal hliteral
        rw [hstep] at hliteral
        obtain ⟨old, hold, rfl⟩ := Option.map_eq_some_iff.mp hliteral
        have hsame := hsections r' (List.mem_cons_of_mem _ hr') id hid old hold
        split
        · exact hsame
        · exact hsame

end LiteralPool

/-! ### Programs -/

namespace Program

variable {p : Program}

/-- Whether the literals of a program are where they should be. -/
structure Pooled (p : Program) : Prop where
  /-- No literal waits in any section. -/
  emptied : ∀ sectionId, p.layout.literals.waiting sectionId = []
  /-- Every literal is listed by one record, once. -/
  listed : (p.records.flatMap Record.listed).Perm
    (List.range p.layout.literals.literals.length)
  /-- A literal of an instruction belongs to its section, has its place, and is
  listed by the first pool of the section behind the instruction. -/
  bound : ∀ before r rest op bound, p.records = before ++ r :: rest →
    r.body = .instruction op bound → ∀ b ∈ bound,
    ∃ (literal : Literal) (pool : Record),
      p.layout.literals.literals[b.2]? = some literal ∧
      r.statement.operands[b.1]? = some literal.text ∧
      literal.sectionId = r.sectionId ∧
      literal.place.isSome ∧ pool.IsFirstPool r.sectionId rest ∧
      b.2 ∈ pool.listed

/-- Whether literals lie in the records that list them, one behind the other. -/
structure Spaced (p : Program) : Prop where
  inside : ∀ r ∈ p.records, ∀ id ∈ r.listed, ∃ low high,
    p.layout.literals.extent? id = some (low, high) ∧ r.loc.toInt ≤ low ∧
      high ≤ r.loc.toInt + r.length.toInt
  apart : ∀ r ∈ p.records, r.listed.Pairwise fun i j => ∀ e e',
    p.layout.literals.extent? i = some e →
      p.layout.literals.extent? j = some e' → e.2 ≤ e'.1

/-- What all statements of a program say of literals. -/
theorem served_unplaced (options : Options) (statements : List Statement) :
    let p := unplaced options statements
    (p.records.flatMap Record.listed).Nodup ∧
      Layout.Delivers p.layout p.records := by
  obtain ⟨l, records, hserved, -, hliterals, hsame⟩ :=
    exists_unsettled Layout.composes_served options statements
  have honce := hserved.once
  rw [← Layout.listed_congr hsame] at honce
  exact ⟨honce, hserved.bound.congr hsame hliterals⟩

/-- Where every literal has its place, none waits. -/
theorem waiting_eq_nil {pool : LiteralPool}
    (h : ∀ literal ∈ pool.literals, literal.place.isSome) (sectionId : Int) :
    pool.waiting sectionId = [] := by
  rw [LiteralPool.waiting_eq, List.filter_eq_nil_iff]
  intro literal hl
  simp [Literal.waitsIn, Option.isSome_iff_ne_none.mp (h literal hl)]

/-- **Literals are pooled** when all statements are laid out. -/
theorem pooled_unplaced (options : Options) (statements : List Statement) :
    (unplaced options statements).Pooled := by
  obtain ⟨hwf, hplaced⟩ := unplaced_spec options statements
  have hpooled := unplaced_pooled options statements
  obtain ⟨honce, hdelivers⟩ := served_unplaced options statements
  refine ⟨waiting_eq_nil fun literal hl => (hpooled literal hl).1, ?_,
    fun before r rest op bound hsplit hbody b hb => ?_⟩
  · rw [List.perm_ext_iff_of_nodup honce List.nodup_range]
    intro id
    rw [List.mem_flatMap, List.mem_range]
    constructor
    · rintro ⟨r, hr, hid⟩
      obtain ⟨ids, hbody, hmem⟩ := Record.mem_listed.mp hid
      obtain ⟨literal, hliteral, -⟩ := (hplaced r hr).pooled ids hbody id hmem
      exact (List.getElem?_eq_some_iff.mp hliteral).1
    · intro hlt
      obtain ⟨-, r, hr, ids, hbody, hmem⟩ := hpooled _ (List.getElem_mem hlt)
      rw [(LiteralPool.inStep _).numbered id _ (List.getElem?_eq_getElem hlt)]
        at hmem
      exact ⟨r, hr, Record.mem_listed.mpr ⟨ids, hbody, hmem⟩⟩
  · have hr : r ∈ (unplaced options statements).records := hsplit ▸ by simp
    obtain ⟨literal, hliteral, htext, -, hsection⟩ :=
      (hplaced r hr).bound op bound hbody b hb
    have hplace := (hpooled literal (List.mem_of_getElem? hliteral)).1
    rw [hsplit] at hdelivers
    have hgoes :=
      hdelivers.goes b (Record.mem_bindings.mpr ⟨op, bound, hbody, hb⟩)
    unfold Layout.Goes at hgoes
    split at hgoes
    · rename_i ids hpool
      obtain ⟨pool, hfirst, rfl⟩ := exists_isFirstPool hpool
      exact ⟨literal, pool, hliteral, htext, hsection, hplace, hfirst, hgoes⟩
    · -- nothing waits any more
      obtain ⟨waiting, hwaiting, -, hnone⟩ := hgoes
      rw [Option.some.inj (hliteral.symm.trans hwaiting), hnone] at hplace
      simp at hplace

/-! ### Placed sections -/

theorem listed_moveRecord (t : SymbolTable) (r : Record) :
    (moveRecord t r).listed = r.listed := by
  unfold moveRecord Record.listed
  cases r.body <;> rfl

/-- The first pool of a section stays the first when sections move. -/
theorem isFirstPool_moveRecord {t : SymbolTable} {pool : Record}
    {sectionId : Int} {records : List Record}
    (h : pool.IsFirstPool sectionId records) :
    (moveRecord t pool).IsFirstPool sectionId (records.map (moveRecord t)) := by
  obtain ⟨front, back, rfl, ⟨ids, hbody⟩, hsection, hfront⟩ := h
  refine ⟨front.map (moveRecord t), back.map (moveRecord t), by simp,
    ⟨ids, body_moveRecord_eq_pool.mpr hbody⟩, hsection,
    fun other ho ids hids => ?_⟩
  obtain ⟨old, hold, rfl⟩ := List.mem_map.mp ho
  exact hfront old hold ids (body_moveRecord_eq_pool.mp hids)

/-- The pools list the same literals when sections move. -/
theorem flatMap_listed_normalize (p : Program) :
    p.normalize.records.flatMap Record.listed =
      p.records.flatMap Record.listed := by
  show (p.records.map (moveRecord _)).flatMap Record.listed = _
  rw [List.flatMap_map]
  simp only [listed_moveRecord]

/-- **Placing sections** leaves literals in their pools. -/
theorem Pooled.normalize (h : p.Pooled) : p.normalize.Pooled := by
  refine ⟨fun sectionId => ?_, ?_,
    fun before r rest op bound hsplit hbody b hb => ?_⟩
  · have hnone := h.emptied sectionId
    rw [LiteralPool.waiting_eq, List.filter_eq_nil_iff] at hnone ⊢
    intro literal hl
    obtain ⟨old, hold, rfl⟩ := List.mem_map.mp hl
    have hnot := hnone old hold
    simpa [Literal.waitsIn] using hnot
  · rw [flatMap_listed_normalize]
    have hlength : p.normalize.layout.literals.literals.length =
        p.layout.literals.literals.length := List.length_map _
    rw [hlength]
    exact h.listed
  · obtain ⟨before₀, behind₀, hsplit₀, rfl, hbehind⟩ :=
      List.map_eq_append_iff.mp hsplit
    obtain ⟨r₀, rest₀, rfl, rfl, rfl⟩ := List.map_eq_cons_iff.mp hbehind
    obtain ⟨literal, pool, hliteral, htext, hsection, hplace, hfirst, hmem⟩ :=
      h.bound before₀ r₀ rest₀ op bound hsplit₀
        (body_moveRecord_eq_instruction.mp hbody) b hb
    refine ⟨_, _, getElem?_normalize hliteral, htext, hsection, ?_,
      isFirstPool_moveRecord hfirst, ?_⟩
    · simpa using hplace
    · rw [listed_moveRecord]
      exact hmem

/-- The constant that a listed literal is, and the addresses of both. -/
theorem exists_constant_of_listed {r : Record} (hplaced : r.Placed p.layout)
    {ids : List Nat} (hbody : r.body = .pool ids)
    {id : Nat} (hid : id ∈ ids) : ∃ c,
      (p.layout.literals.literals[id]?).bind
        (LiteralPool.constantFrom r.loc) = some c ∧
      p.layout.literals.extent? id =
        some ((r.loc + c.2).toInt, (r.loc + c.2).toInt + (c.1.size : Int)) := by
  obtain ⟨literal, hliteral, -, hplace, hdescriptor⟩ :=
    hplaced.pooled ids hbody id hid
  obtain ⟨spot, hspot⟩ := Option.isSome_iff_exists.mp hplace
  obtain ⟨d, hd⟩ := Option.isSome_iff_exists.mp hdescriptor
  have haddress : r.loc + (spot.address - r.loc) = spot.address := by grind
  have hlength : literal.length = d.size := by simp [Literal.length, hd]
  refine ⟨(d, spot.address -
    r.loc), by simp [hliteral, LiteralPool.constantFrom, hd, hspot], ?_⟩
  simp [LiteralPool.extent?, hliteral, hspot, haddress, hlength]

/-- **Literals are spaced** when all statements are laid out, if no location
wrapped. -/
theorem InRange.spaced (h : p.InRange)
    (hplaced : ∀ r ∈ p.records, r.Placed p.layout) :
    p.Spaced := by
  have hconstants : ∀ {r : Record} {ids : List Nat}, r.body = .pool ids →
      r.isConstants := by
    intro r ids hbody
    simp [Record.isConstants, hbody]
  refine ⟨fun r hr id hid => ?_, fun r hr => ?_⟩
  · obtain ⟨ids, hbody, hmem⟩ := Record.mem_listed.mp hid
    obtain ⟨c, hc, hextent⟩ :=
      exists_constant_of_listed (hplaced r hr) hbody hmem
    have hinside := (h.constants_bounds hr (hplaced r hr) (hconstants hbody)).1
    rw [Record.constants_of_pool hbody] at hinside
    obtain ⟨hlow, hhigh⟩ := hinside c (List.mem_filterMap.mpr ⟨id, hmem, hc⟩)
    exact ⟨_, _, hextent, hlow, hhigh⟩
  · unfold Record.listed
    split
    · rename_i ids hbody
      have hapart := (h.constants_bounds hr (hplaced r hr) (hconstants hbody)).2
      rw [Record.constants_of_pool hbody, List.pairwise_filterMap] at hapart
      refine hapart.imp_of_mem fun {i j} hi hj hbefore e e' he he' => ?_
      obtain ⟨c, hc, hextent⟩ :=
        exists_constant_of_listed (hplaced r hr) hbody hi
      obtain ⟨c', hc', hextent'⟩ :=
        exists_constant_of_listed (hplaced r hr) hbody hj
      obtain rfl := Option.some.inj (hextent.symm.trans he)
      obtain rfl := Option.some.inj (hextent'.symm.trans he')
      exact hbefore c hc c' hc'
    · exact List.Pairwise.nil

/-- A listed literal moves as far as the record that lists it. -/
theorem Spaced.extent?_normalize (h : p.Spaced) (hrange : p.InRange)
    (hwf : p.layout.WellFormed) {r : Record} (hr : r ∈ p.records)
    (hplaced : r.Placed p.layout) {id : Nat} (hid : id ∈ r.listed) :
    p.normalize.layout.literals.extent? id =
      (p.layout.literals.extent? id).map fun e =>
      (e.1 + (p.normalize.layout.symbols.offset r.sectionId).toInt,
        e.2 + (p.normalize.layout.symbols.offset r.sectionId).toInt) := by
  obtain ⟨ids, hbody, hmem⟩ := Record.mem_listed.mp hid
  obtain ⟨literal, hliteral, hsection, hplace, -⟩ :=
    hplaced.pooled ids hbody id hmem
  obtain ⟨spot, hspot⟩ := Option.isSome_iff_exists.mp hplace
  obtain ⟨low, high, hextent, hlow, hhigh⟩ := h.inside r hr id hid
  have hmoved := getElem?_normalize hliteral
  rw [hsection] at hmoved
  simp only [LiteralPool.extent?, hliteral, hspot, Option.bind_some,
    Option.map_some, Option.some.injEq, Prod.mk.injEq] at hextent
  obtain ⟨rfl, rfl⟩ := hextent
  have hsum := hrange.toInt_moved hwf hr hplaced hlow (by omega)
  simp only [LiteralPool.extent?, hmoved, hliteral, hspot, Option.bind_some,
    Option.map_some, Literal.place_moved, Literal.length_moved, hsum,
    Option.some.injEq, Prod.mk.injEq, true_and]
  omega

/-- **Placing sections** leaves literals as far apart as they were. -/
theorem Spaced.normalize (h : p.Spaced) (hrange : p.InRange)
    (hwf : p.layout.WellFormed) (hplaced : ∀ r ∈ p.records, r.Placed p.layout) :
    p.normalize.Spaced := by
  refine ⟨fun r hr id hid => ?_, fun r hr => ?_⟩
  · obtain ⟨r₀, hr₀, rfl⟩ := List.mem_map.mp hr
    rw [listed_moveRecord] at hid
    obtain ⟨low, high, hextent, hlow, hhigh⟩ := h.inside r₀ hr₀ id hid
    have hmoved := h.extent?_normalize hrange hwf hr₀ (hplaced r₀ hr₀) hid
    have hlength := (hrange.records r₀ hr₀).2.1
    have hloc :=
      hrange.toInt_moved hwf hr₀ (hplaced r₀ hr₀) (Int.le_refl _) (by omega)
    rw [hextent, Option.map_some] at hmoved
    refine ⟨_, _, hmoved, ?_, ?_⟩
    · rw [loc_moveRecord]
      show (r₀.loc + p.normalize.layout.symbols.offset r₀.sectionId).toInt ≤ _
      omega
    · rw [loc_moveRecord]
      show _ ≤ (r₀.loc + p.normalize.layout.symbols.offset r₀.sectionId).toInt +
        r₀.length.toInt
      omega
  · obtain ⟨r₀, hr₀, rfl⟩ := List.mem_map.mp hr
    rw [listed_moveRecord]
    refine (h.apart r₀ hr₀).imp_of_mem fun {i j} hi hj hbefore e e' he he' => ?_
    rw [h.extent?_normalize hrange hwf hr₀ (hplaced r₀ hr₀) hi] at he
    rw [h.extent?_normalize hrange hwf hr₀ (hplaced r₀ hr₀) hj] at he'
    obtain ⟨first, hfirst, rfl⟩ := Option.map_eq_some_iff.mp he
    obtain ⟨second, hsecond, rfl⟩ := Option.map_eq_some_iff.mp he'
    have hapart := hbefore first second hfirst hsecond
    simp only
    omega

/-- **Moving literals along with the records that list them** moves each of them
once. -/
theorem Pooled.literals_moveListed (h : p.Pooled)
    (hplaced : ∀ r ∈ p.records, r.Placed p.layout) :
    p.records.foldl (LiteralPool.moveListed p.normalize.layout.symbols.offset)
      p.layout.literals.literals = p.normalize.layout.literals.literals := by
  have hbase : ∀ id ≤ 0, p.normalize.layout.symbols.offset id = 0 :=
    fun id hid =>
      if_neg (Int.not_lt.mpr hid)
  have hnodup : (p.records.flatMap Record.listed).Nodup :=
    h.listed.nodup_iff.mpr List.nodup_range
  apply List.ext_getElem?
  intro i
  rw [LiteralPool.getElem?_foldl_moveListed hbase hnodup]
  · cases hliteral : p.layout.literals.literals[i]? with
    | none =>
        exact ((LiteralPool.getElem?_relocate _ _ i).trans
          (congrArg _ hliteral)).symm
    | some literal =>
        have hlt := (List.getElem?_eq_some_iff.mp hliteral).1
        have hmem : i ∈ p.records.flatMap Record.listed :=
          h.listed.mem_iff.mpr (List.mem_range.mpr hlt)
        rw [getElem?_normalize hliteral, Option.map_some, if_pos hmem]
  · intro r hr id hid literal hliteral
    obtain ⟨ids, hbody, hmem⟩ := Record.mem_listed.mp hid
    obtain ⟨same, hsame, hsection, -⟩ := (hplaced r hr).pooled ids hbody id hmem
    rwa [Option.some.inj (hliteral.symm.trans hsame)]

/-- **No literal is lost, duplicated or misplaced.**  When all statements are
laid out no literal waits, every literal is listed once, and each one of an
instruction by the first pool of its section behind the instruction.  If no
location wrapped, literals lie in the records that list them, one behind the
other.  All of this stays when sections are placed, and moving the literals
along with the records that list them moves each of them by the base of its own
section, once. -/
theorem literals_pooled (options : Options) (statements : List Statement) :
    let p := unplaced options statements
    let q := ofStatements options statements
    let base := q.layout.symbols.offset
    (p.Pooled ∧ q.Pooled) ∧ (p.InRange → p.Spaced ∧ q.Spaced) ∧
    p.records.foldl (LiteralPool.moveListed base) p.layout.literals.literals =
      q.layout.literals.literals ∧
    ∀ (id : Nat) literal, p.layout.literals.literals[id]? = some literal →
      q.layout.literals.literals[id]? =
        some (literal.moved (base literal.sectionId)) := by
  obtain ⟨hwf, hplaced⟩ := unplaced_spec options statements
  have hpooled := pooled_unplaced options statements
  refine ⟨⟨hpooled, hpooled.normalize⟩, fun hrange => ?_,
    hpooled.literals_moveListed hplaced, fun id literal hliteral => ?_⟩
  · have hspaced := hrange.spaced hplaced
    exact ⟨hspaced, hspaced.normalize hrange hwf hplaced⟩
  · exact getElem?_normalize hliteral

/-- A section is left and resumed.  Its `LTORG` takes its first literal; the end
takes the second, which two instructions share, and the two of the other
section, the fullword first. -/
theorem literals_pooled_resumed :
    ∃ statements, Statement.readAll
      (bytes (String.append
        "A CSECT\n L 1,=F'1'\n LTORG\n L 2,=F'1'\nB CSECT\n LH 3,=H'2'\n"
        " L 4,=F'3'\nA CSECT\n L 5,=F'1'\n END\n")) = .ok statements ∧
      (unplaced {} statements).InRange ∧
      (unplaced {} statements).Pooled ∧ (ofStatements {} statements).Pooled ∧
      (unplaced {} statements).Spaced ∧ (ofStatements {} statements).Spaced ∧
      (ofStatements {} statements).records.map Record.bindings =
        [[], [(1, 0)], [], [(1, 1)], [], [(1, 2)], [(1, 3)], [], [(1, 1)],
          [], [], []] ∧
      (ofStatements {} statements).records.map Record.listed =
        [[], [], [0], [], [], [], [], [], [], [1], [3, 2], []] ∧
      (List.range 4).map (ofStatements {} statements).layout.literals.extent? =
        [some (8, 12), some (24, 28), some (44, 46), some (40, 44)] := by
  have hcheck : (Statement.readAll (bytes (String.append
      "A CSECT\n L 1,=F'1'\n LTORG\n L 2,=F'1'\nB CSECT\n LH 3,=H'2'\n"
      " L 4,=F'3'\nA CSECT\n L 5,=F'1'\n END\n"))
      |>.toOption.any fun statements =>
        decide ((unplaced {} statements).InRange ∧
          (ofStatements {} statements).records.map Record.bindings =
            [[], [(1, 0)], [], [(1, 1)], [], [(1, 2)], [(1, 3)], [], [(1, 1)],
              [], [], []] ∧
          (ofStatements {} statements).records.map Record.listed =
            [[], [], [0], [], [], [], [], [], [], [1], [3, 2], []] ∧
          (List.range 4).map
            (ofStatements {} statements).layout.literals.extent? =
            [some (8, 12), some (24, 28), some (44, 46), some (40, 44)])) =
              true := by
    decide +kernel
  obtain ⟨statements, hread, hcheck⟩ := exists_ok_of_any hcheck
  obtain ⟨hrange, hbindings, hlisted, hextents⟩ := of_decide_eq_true hcheck
  obtain ⟨⟨hpooled, hpooled'⟩, hspaced, -⟩ := literals_pooled {} statements
  obtain ⟨hspaced, hspaced'⟩ := hspaced hrange
  exact ⟨statements, hread, hrange, hpooled, hpooled', hspaced, hspaced',
    hbindings, hlisted, hextents⟩

end Program

end System370
