import System370.Proofs.AddressConstants

/-!
# What base registers hold

A base register is promised to hold what the last statement about it says: a
`USING` that names it gives it a domain, a `DROP` takes the domain away, and
nothing else matters.  So the promises at any point of a program can be read off
the records before it (`InForce`), however they were reached.

* `BaseRegisters.choose?_spec`: the choice of a register is the best one among
  all promises that cover the address;
* `Generation.promise?_step`: what one record does to the promise of a register;
* `Generation.promise?_run`: so a register holds what the last record about it
  says.

Domains are compared up to the displacements that were used
(`BaseRegisters.promise?`), which the listing needs and nothing depends on.
-/

namespace System370

/-! ### Choosing a register -/

/-- Whether a domain reaches an address of a section by a displacement. -/
structure Domain.Covers (d : Domain) (address : Int64) (sectionId : Int)
    (displacement : Int64) :
    Prop where
  sum : d.base + displacement = address
  scope : d.sectionId = sectionId ∨ d.sectionId = 0
  nonneg : 0 ≤ displacement
  small : displacement < 4096
  remaining : displacement < d.remaining

/-- The displacement that a domain offers, without the arithmetic of its
check. -/
theorem Domain.displacement?_eq_some_iff {d : Domain}
    {address displacement : Int64} {sectionId : Int} :
    d.displacement? address sectionId = some displacement ↔
    d.Covers address sectionId displacement := by
  have hreach : ∀ x : Int64, x < d.reach ↔ x < 4096 ∧ x < d.remaining := by
    intro x
    unfold Domain.reach Domain.limit
    simp only [Int64.lt_iff_toInt_lt]
    split <;> omega
  unfold Domain.displacement?
  simp only
  constructor
  · intro h
    split at h
    · simp at h
    · rename_i hscope
      split at h
      · simp at h
      · rename_i hbounds
        obtain rfl := Option.some.inj h
        rw [not_or, Int64.not_lt, Int64.not_le, hreach] at hbounds
        refine ⟨by grind, ?_, hbounds.1, hbounds.2.1, hbounds.2.2⟩
        by_cases hzero : d.sectionId = 0
        · exact Or.inr hzero
        · exact Or.inl (Classical.not_not.mp fun hne => hscope ⟨hzero, hne⟩)
  · intro h
    have hsub : address - d.base = displacement := by
      rw [← h.sum]
      grind
    rw [if_neg, if_neg, hsub]
    · rw [hsub, not_or, Int64.not_lt, Int64.not_le, hreach]
      exact ⟨h.nonneg, h.small, h.remaining⟩
    · rintro ⟨hzero, hne⟩
      exact h.scope.elim hne hzero

namespace BaseRegisters

/-- Whether a way to address a location is as good as another one: its
displacement is smaller, or it is the same with a register that is not lower. -/
def Choice.Beats (c other : Choice) : Prop :=
  c.displacement < other.displacement ∨
    c.displacement = other.displacement ∧ other.register ≤ c.register

/-- The best of choices whose registers go down. -/
theorem foldl_better {items : List Choice} {found : Choice}
    (h : (found :: items).Pairwise fun a b => b.register < a.register) :
    ∃ c ∈ found :: items, items.foldl better (some found) = some c ∧
      ∀ other ∈ found :: items, c.Beats other := by
  induction items generalizing found with
  | nil =>
      refine ⟨found, List.mem_singleton_self _, rfl, fun other ho => ?_⟩
      rw [List.mem_singleton.mp ho]
      exact Or.inr ⟨rfl, Nat.le_refl _⟩
  | cons next rest ih =>
      obtain ⟨hfound, hrest⟩ := List.pairwise_cons.mp h
      have hlower : next.register.val < found.register.val :=
        hfound next List.mem_cons_self
      simp only [List.foldl_cons, better]
      split
      · rename_i hless
        obtain ⟨c, hc, hfold, hbeats⟩ := ih hrest
        refine ⟨c, List.mem_cons_of_mem _ hc, hfold, fun other ho => ?_⟩
        rcases List.mem_cons.mp ho with rfl | ho
        · left
          have hnext := hbeats next List.mem_cons_self
          simp only [Choice.Beats, Int64.lt_iff_toInt_lt, ← Int64.toInt_inj]
            at hnext hless ⊢
          omega
        · exact hbeats other ho
      · rename_i hless
        have hskip : (found :: rest).Pairwise fun a b => b.register <
            a.register :=
          List.pairwise_cons.mpr ⟨fun other ho =>
            hfound other (List.mem_cons_of_mem _ ho),
            (List.pairwise_cons.mp hrest).2⟩
        obtain ⟨c, hc, hfold, hbeats⟩ := ih hskip
        refine ⟨c, ?_, hfold, fun other ho => ?_⟩
        · exact (List.mem_cons.mp hc).elim (fun heq => heq ▸ List.mem_cons_self)
            fun hmem => List.mem_cons_of_mem _ (List.mem_cons_of_mem _ hmem)
        · rcases List.mem_cons.mp ho with rfl | ho
          · exact hbeats _ List.mem_cons_self
          · rcases List.mem_cons.mp ho with rfl | ho
            · have hfirst := hbeats found List.mem_cons_self
              simp only [Choice.Beats, Int64.lt_iff_toInt_lt,
                ← Int64.toInt_inj, Fin.le_def]
                at hfirst hless ⊢
              omega
            · exact hbeats other (List.mem_cons_of_mem _ ho)

/-- The ways to address a location are those of the registers that cover it. -/
theorem mem_candidates {b : BaseRegisters} {location : Int64} {sectionId : Int}
    {c : Choice} :
    c ∈ (List.finRange 16).reverse.filterMap (fun r =>
        ((b.domain? r).bind (·.displacement? location sectionId)).map
          (Choice.mk r)) ↔
      ∃ d, b.promise? c.register = some d ∧
          d.Covers location sectionId c.displacement := by
  have hpromise : ∀ r x,
      (b.domain? r).bind (·.displacement? location sectionId) = some x ↔
      ∃ d, b.promise? r = some d ∧ d.Covers location sectionId x := by
    intro r x
    rw [Option.bind_eq_some_iff]
    unfold promise?
    constructor
    · rintro ⟨d, hd, hx⟩
      have hcovers := Domain.displacement?_eq_some_iff.mp hx
      exact ⟨{ d with maxDisplacement := -1 }, by rw [hd]; rfl, hcovers.sum,
        hcovers.scope, hcovers.nonneg, hcovers.small, hcovers.remaining⟩
    · rintro ⟨d, hd, hcovers⟩
      obtain ⟨d₀, hd₀, rfl⟩ := Option.map_eq_some_iff.mp hd
      exact ⟨d₀, hd₀,
        Domain.displacement?_eq_some_iff.mpr ⟨hcovers.sum, hcovers.scope,
        hcovers.nonneg, hcovers.small, hcovers.remaining⟩⟩
  simp only [List.mem_filterMap, List.mem_reverse, Option.map_eq_some_iff]
  constructor
  · rintro ⟨r, -, x, hx, rfl⟩
    exact (hpromise r x).mp hx
  · intro h
    exact ⟨c.register, List.mem_finRange _, c.displacement,
      (hpromise _ _).mpr h, rfl⟩

/-- Whether a choice is the best one for an address, given what registers hold:
its register covers the address, and none does so in a better way. -/
structure Choice.Best (holds : Register → Domain → Prop) (address : Int64)
    (sectionId : Int) (c : Choice) : Prop where
  covers : ∃ d, holds c.register d ∧ d.Covers address sectionId c.displacement
  beats : ∀ register d displacement, holds register d →
    d.Covers address sectionId displacement → c.Beats ⟨register, displacement⟩

/-- What is best is a matter of the domains in force. -/
theorem Choice.Best.congr {holds others : Register → Domain → Prop}
    {address : Int64} {sectionId : Int}
    {c : Choice} (h : c.Best holds address sectionId)
    (hsame : ∀ register d, holds register d ↔ others register d) :
    c.Best others address sectionId := by
  obtain ⟨d, hd, hcovers⟩ := h.covers
  exact ⟨⟨d, (hsame _ _).mp hd, hcovers⟩, fun register d displacement hd =>
    h.beats register d displacement ((hsame _ _).mpr hd)⟩

/-- What the registers are promised to hold. -/
def Promises (b : BaseRegisters) (register : Register) (d : Domain) : Prop :=
  b.promise? register = some d

/-- **What is chosen is the best.** -/
theorem choose?_spec {b : BaseRegisters} {location : Int64} {sectionId : Int}
    {c : Choice} (h : b.choose? location sectionId = some c) :
    c.Best b.Promises location sectionId := by
  unfold choose? at h
  have hmem := @mem_candidates b location sectionId
  have hordered : ((List.finRange 16).reverse.filterMap fun r =>
      ((b.domain? r).bind (·.displacement? location sectionId)).map
          (Choice.mk r)).Pairwise
        fun x y => y.register < x.register := by
    rw [List.pairwise_filterMap]
    have hdown : (List.finRange 16).reverse.Pairwise fun x y : Register => y <
        x := by
      decide
    refine hdown.imp fun hlt x hx y hy => ?_
    obtain ⟨-, -, rfl⟩ := Option.map_eq_some_iff.mp hx
    obtain ⟨-, -, rfl⟩ := Option.map_eq_some_iff.mp hy
    exact hlt
  generalize ((List.finRange 16).reverse.filterMap fun r =>
    ((b.domain? r).bind (·.displacement? location sectionId)).map
      (Choice.mk r)) = items at *
  cases items with
  | nil => simp at h
  | cons found rest =>
      obtain ⟨best, hbest, hfold, hbeats⟩ := foldl_better hordered
      have hsame : best = c := Option.some.inj (hfold.symm.trans h)
      subst hsame
      exact ⟨hmem.mp hbest, fun register d displacement hd hcovers =>
        hbeats ⟨register, displacement⟩ (hmem.mpr ⟨d, hd, hcovers⟩)⟩

end BaseRegisters

/-! ### What statements promise -/

namespace Record

/-- The register that an operand of a record names. -/
def register? (t : SymbolTable) (r : Record) (text : Bytes) : Option Register :=
  match (Expression.absolute t r.place text).result with
  | .ok n => Generate.registerOf? n
  | .error _ => none

/-- Whether a record is a directive that takes effect when code is generated.  A
record with an error is passed over. -/
structure Executes (r : Record) (directive : Directive) : Prop where
  ok : r.errored = false
  body : r.body = .located
  directive : r.directive = some directive

/-- The domain that the register number `k` of a `USING` statement gets for a
value: it begins 4096 octets behind that of the register before, and reaches as
far as the section does. -/
def usedDomain (t : SymbolTable) (v : Value) (k : Nat) (line : Int) :
    Domain where
  base := v.number + Int64.ofNat k * 4096
  sectionId := v.sectionId
  remaining := match Generate.remainingFrom t v with
    | some n => if n - Int64.ofNat k * 4096 < 0 then 0 else
      n - Int64.ofNat k * 4096
    | none => Int64.maxValue
  line := line

/-- Whether the operands of a `USING` statement are some registers for a value:
they all exist and differ, and the value is absolute or in a section. -/
structure Offers (t : SymbolTable) (r : Record) (registers : List Register)
    (v : Value) : Prop where
  named : (r.statement.operands.drop 1).map (r.register? t) = registers.map some
  differ : registers.Nodup
  address : ∃ result,
    (Expression.evaluate t r.place (r.statement.operands.headD [])).result =
    .ok result ∧ result.value = v
  addressable : v.isAbsolute = true ∨ v.sectionId ≠ 0

/-- Whether a record is a successful `USING` that gives a register a domain. -/
structure Uses (t : SymbolTable) (r : Record) (register : Register)
    (d : Domain) : Prop where
  executed : r.Executes .use
  given : ∃ (registers : List Register) (v : Value) (k : Nat),
    r.Offers t registers v ∧
    registers[k]? = some register ∧ d = usedDomain t v k r.statement.line

/-- Whether a record takes the domain of a register away: a `DROP` that names it
or names none at all, or the end. -/
def Drops (t : SymbolTable) (r : Record) (register : Register) : Prop :=
  r.Executes .ending ∨ r.Executes .drop ∧
    (r.statement.operands = [] ∨ ∃ text ∈ r.statement.operands,
      r.register? t text = some register)

/-- Whether a record changes what a register is promised to hold. -/
def Touches (t : SymbolTable) (r : Record) (register : Register) : Prop :=
  r.Drops t register ∨ ∃ d, r.Uses t register d

/-- A record that executes none of the three directives changes nothing. -/
theorem not_touches {t : SymbolTable} {r : Record}
    (hnone : ¬ r.Executes .use ∧ ¬ r.Executes .drop ∧ ¬ r.Executes .ending)
    (register : Register) :
    (∀ d, ¬ r.Uses t register d) ∧ ¬ r.Touches t register := by
  obtain ⟨huse, hdrop, hending⟩ := hnone
  have huses : ∀ d, ¬ r.Uses t register d := fun d hd => huse hd.executed
  refine ⟨huses, ?_⟩
  rintro ((hd | hd) | ⟨d, hd⟩)
  · exact hending hd
  · exact hdrop hd.1
  · exact huses d hd

/-- A statement has one set of registers and one value at most. -/
theorem Offers.unique {t : SymbolTable} {r : Record}
    {registers others : List Register} {v w : Value}
    (h : r.Offers t registers v) (h' : r.Offers t others w) :
    registers = others ∧ v = w := by
  obtain ⟨result, hresult, rfl⟩ := h.address
  obtain ⟨result', hresult', rfl⟩ := h'.address
  rw [hresult] at hresult'
  obtain rfl := Except.ok.inj hresult'
  have hmap : registers.map some = others.map some :=
    h.named.symm.trans h'.named
  exact ⟨(List.map_inj_right fun _ _ heq => Option.some.inj heq).mp hmap, rfl⟩

end Record

/-- The domain that a register has behind some records: that of the last `USING`
which names it, with nothing about it in between. -/
def InForce (t : SymbolTable) (records : List Record) (register : Register)
    (d : Domain) : Prop :=
  ∃ before r between, records = before ++ r :: between ∧ r.Uses t register d ∧
    ∀ s ∈ between, ¬ s.Touches t register

/-- A domain is in force behind a record if it was before and the record leaves
its register alone, or if the record opens it. -/
theorem inForce_cons {t : SymbolTable} {r : Record} {rest : List Record}
    {register : Register} {d : Domain} : InForce t (r :: rest) register d ↔
      InForce t rest register d ∨ r.Uses t register d ∧ ∀ s ∈ rest,
      ¬ s.Touches t register := by
  constructor
  · rintro ⟨before, q, between, heq, huses, hquiet⟩
    cases before with
    | nil =>
        obtain ⟨rfl, rfl⟩ := List.cons.inj heq
        exact Or.inr ⟨huses, hquiet⟩
    | cons first before =>
        exact Or.inl ⟨before, q, between, (List.cons.inj heq).2, huses, hquiet⟩
  · rintro (⟨before, q, between, rfl, huses, hquiet⟩ | ⟨huses, hquiet⟩)
    · exact ⟨r :: before, q, between, rfl, huses, hquiet⟩
    · exact ⟨[], r, rest, rfl, huses, hquiet⟩

namespace BaseRegisters

/-- `USING` of a register replaces the domain of that register. -/
theorem promise?_use (b : BaseRegisters) (r register : Register) (base : Int64)
    (sectionId : Int) (remaining : Int64) (line : Int) :
    (b.use r base sectionId remaining line).promise? register =
      if register = r then
        some { base, sectionId, line
               remaining :=
                 if remaining < 0 then Int64.maxValue else remaining }
      else b.promise? register := by
  unfold promise? domain? use
  simp only [Fin.getElem_fin, Vector.getElem_set, Fin.val_inj,
    @eq_comm _ register r]
  split <;> rfl

/-- `DROP` of a register closes the domain of that register. -/
theorem promise?_drop (b : BaseRegisters) (r register : Register) :
    (b.drop r).promise? register = if register = r then none else
      b.promise? register := by
  unfold promise? domain? drop
  simp only [Fin.getElem_fin, Vector.getElem_set, Fin.val_inj,
    @eq_comm _ register r]
  split <;> rfl

@[simp] theorem promise?_empty (register : Register) :
    promise? {} register = none := by
  simp [promise?, domain?]

end BaseRegisters

namespace Generate

variable {t : SymbolTable} {r : Record} {g : Generation}

/-! ### Reporting, and nothing else -/

/-- Whatever is wrong with an absolute expression is an error. -/
theorem isError_absolute {usage : Usage} {text : Bytes} {problem : Problem}
    (h : (exec (absolute usage text) r g).1 = .error problem) :
    problem.severity.isError = true :=
  Expression.isError_absolute h

/-- Whatever is wrong with a register is an error. -/
theorem isError_register {usage : Usage} {text : Bytes} {problem : Problem}
    (h : (exec (register usage text) r g).1 = .error problem) :
    problem.severity.isError = true := by
  unfold register at h
  rw [exec_bind] at h
  cases hvalue : (exec (absolute usage text) r g).1 with
  | error problem' =>
      rw [hvalue] at h
      obtain rfl : problem' = problem := Except.error.inj h
      exact isError_absolute hvalue
  | ok n =>
      rw [hvalue] at h
      cases hregister : registerOf? n with
      | some q =>
          simp only [hregister] at h
          cases h
      | none =>
          simp only [hregister] at h
          obtain rfl : Problem.invalidRegister = problem := Except.error.inj h
          rfl

/-- What is reported between two states whose base registers are the same,
displacements included. -/
structure Spares (more : List Diagnostic) (g g' : Generation) : Prop where
  diagnostics : g'.diagnostics = g.diagnostics ++ more
  bases : g'.bases = g.bases

theorem Spares.refl (g : Generation) : Spares [] g g :=
  ⟨(List.append_nil _).symm, rfl⟩

theorem Spares.trans {more others : List Diagnostic} {g g' g'' : Generation}
    (h : Spares more g g') (h' : Spares others g' g'') :
    Spares (more ++ others) g g'' :=
  ⟨by rw [h'.diagnostics, h.diagnostics, List.append_assoc],
    h'.bases.trans h.bases⟩

/-- One error, and nothing else. -/
def Refuses (g g' : Generation) : Prop := ∃ d :
  Diagnostic, d.severity.isError = true ∧ Spares [d] g g'

/-- A step without reports in front of a refusal. -/
theorem Spares.refuses {g g' g'' : Generation} (h : Spares [] g g')
    (h' : Refuses g' g'') :
    Refuses g g'' := by
  obtain ⟨d, herror, hspares⟩ := h'
  exact ⟨d, herror, h.trans hspares⟩

/-- A report of an error is a refusal. -/
theorem refuses_report {problem : Problem} (h : problem.severity.isError = true)
    (cursor : Cursor) (r : Record) (g : Generation) :
    Refuses g (exec (report cursor problem) r g).2.2 :=
  ⟨⟨cursor, problem⟩, h, rfl, rfl⟩

/-- An expression reports nothing by itself and moves no domain. -/
theorem spares_evaluate (usage : Usage) (text : Bytes) (r : Record)
    (g : Generation) :
    Spares [] g (exec (evaluate usage text) r g).2.2 :=
  ⟨(List.append_nil _).symm, rfl⟩

theorem spares_register (usage : Usage) (text : Bytes) (r : Record)
    (g : Generation) :
    Spares [] g (exec (register usage text) r g).2.2 := by
  have habsolute : Spares [] g (exec (absolute usage text) r g).2.2 :=
    ⟨(List.append_nil _).symm, rfl⟩
  unfold register
  rw [exec_bind]
  split
  · exact habsolute
  · split <;> exact habsolute

/-- The registers of a `USING` statement are read without a word, or one of them
is an error. -/
theorem spares_baseOperands (operands : List (Nat × Bytes))
    (seen : List Register) (r : Record) (g : Generation) :
    (∀ registers ∈ (exec (baseOperands seen operands) r g).1,
      Spares [] g (exec (baseOperands seen operands) r g).2.2) ∧
    ((exec (baseOperands seen operands) r g).1 = none →
      Refuses g (exec (baseOperands seen operands) r g).2.2) := by
  induction operands generalizing seen r g with
  | nil =>
      exact ⟨fun _ _ => Spares.refl g,
        fun hnone => nomatch (show some seen = none from hnone)⟩
  | cons operand rest ih =>
      have hspares := spares_register .base operand.2 r g
      have herror := @isError_register r g .base operand.2
      unfold baseOperands
      simp only [exec_bind, exec_statement]
      generalize exec (register .base operand.2) r g = result at *
      obtain ⟨outcome, r₁, g₁⟩ := result
      cases outcome with
      | error problem =>
          refine ⟨fun registers hsome => ?_, fun _ => ?_⟩
          · exact nomatch (show none = some registers from hsome)
          · exact hspares.refuses (refuses_report (herror rfl) _ r₁ g₁)
      | ok q =>
          simp only
          split
          · refine ⟨fun registers hsome => ?_, fun _ => ?_⟩
            · exact nomatch (show none = some registers from hsome)
            · exact hspares.refuses (refuses_report rfl _ r₁ g₁)
          · obtain ⟨hread, hwrong⟩ := ih (seen ++ [q]) r₁ g₁
            exact ⟨fun registers hsome => hspares.trans (hread registers hsome),
              fun hnone => hspares.refuses (hwrong hnone)⟩

/-! ### Base registers given and taken away -/

/-- Evaluating a register gives the one that the operand names. -/
theorem register_spec (h : g.Reads t) (usage : Usage) (text : Bytes) :
    (exec (register usage text) r g).1.toOption = r.register? t text ∧
      (exec (register usage text) r g).2.1 = r := by
  have hrecord : (exec (absolute usage text) r g).2.1 = r := rfl
  unfold register Record.register?
  rw [exec_bind, result_absolute h]
  cases (Expression.absolute t r.place text).result with
  | error problem => exact ⟨rfl, hrecord⟩
  | ok n =>
      simp only
      split
      · rename_i hregister
        exact ⟨hregister.symm, hrecord⟩
      · rename_i hregister
        exact ⟨hregister.symm, hrecord⟩

/-- Whether names are those of registers that differ from each other and from
some that were seen before, behind which they stand. -/
def NamesBehind (seen : List Register) (names : List (Option Register))
    (out : List Register) :
    Prop :=
  ∃ registers,
    out = seen ++ registers ∧ names = registers.map some ∧ registers.Nodup ∧
    ∀ register ∈ registers, register ∉ seen

section NamesBehind

variable {seen out : List Register} {names : List (Option Register)}
  {q : Register}

theorem namesBehind_nil : NamesBehind seen [] out ↔ out = seen := by
  constructor
  · rintro ⟨registers, rfl, hnil, -⟩
    rw [eq_comm, List.map_eq_nil_iff] at hnil
    rw [hnil, List.append_nil]
  · rintro rfl
    exact ⟨[], (List.append_nil _).symm, rfl, List.nodup_nil, by simp⟩

/-- Behind nothing, the names are those of different registers. -/
theorem namesBehind_empty : NamesBehind [] names out ↔ names = out.map some ∧
    out.Nodup := by
  simp [NamesBehind]

theorem not_namesBehind_none : ¬ NamesBehind seen (none :: names) out := by
  rintro ⟨registers, -, hmap, -⟩
  cases registers <;> simp at hmap

theorem not_namesBehind_seen (hseen : q ∈ seen) :
    ¬ NamesBehind seen (some q :: names) out := by
  rintro ⟨registers, -, hmap, -, hnew⟩
  cases registers with
  | nil => simp at hmap
  | cons first others =>
      obtain rfl : q = first := Option.some.inj (List.cons.inj hmap).1
      exact hnew q List.mem_cons_self hseen

/-- A register that was not seen is seen from then on. -/
theorem namesBehind_cons (hseen : q ∉ seen) :
    NamesBehind seen (some q :: names) out ↔
      NamesBehind (seen ++ [q]) names out := by
  constructor
  · rintro ⟨registers, rfl, hmap, hnodup, hnew⟩
    cases registers with
    | nil => simp at hmap
    | cons first others =>
        obtain ⟨hfirst, hothers⟩ := List.cons.inj hmap
        obtain rfl : q = first := Option.some.inj hfirst
        obtain ⟨hq, hnodup'⟩ := List.nodup_cons.mp hnodup
        refine ⟨others, by simp, hothers, hnodup', fun register hmem hin => ?_⟩
        rcases List.mem_append.mp hin with hin | hin
        · exact hnew register (List.mem_cons_of_mem _ hmem) hin
        · exact hq (List.mem_singleton.mp hin ▸ hmem)
  · rintro ⟨registers, rfl, hmap, hnodup, hnew⟩
    refine ⟨q :: registers, by simp, by rw [hmap, List.map_cons], ?_, ?_⟩
    · exact List.nodup_cons.mpr ⟨fun hq => hnew q hq (by simp), hnodup⟩
    · intro register hmem
      rcases List.mem_cons.mp hmem with rfl | hmem
      · exact hseen
      · exact fun hin => hnew register hmem (List.mem_append_left _ hin)

end NamesBehind

/-- The registers of a `USING` statement are those of its operands, if they
exist and differ. -/
theorem baseOperands_spec {operands : List (Nat × Bytes)}
    {seen out : List Register} (h : g.Reads t) :
    (exec (baseOperands seen operands) r g).1 = some out ↔
    NamesBehind seen
      (operands.map fun operand => r.register? t operand.2) out := by
  induction operands generalizing seen g with
  | nil =>
      show some seen = some out ↔ _
      rw [List.map_nil, namesBehind_nil, Option.some.injEq, eq_comm]
  | cons operand rest ih =>
      obtain ⟨i, text⟩ := operand
      obtain ⟨hregister, hrecord⟩ := register_spec (r := r) h .base text
      have hkept := quiet_register .base text r g
      unfold baseOperands
      simp only [exec_bind, exec_statement, List.map_cons]
      rw [← hregister]
      generalize exec (register .base text) r g = result at *
      obtain ⟨outcome, r₁, g₁⟩ := result
      obtain rfl : r₁ = r := hrecord
      have h₁ := h.kept hkept
      have hrefused : ¬ (none : Option (List Register)) = some out := nofun
      cases outcome with
      | error problem => exact iff_of_false hrefused not_namesBehind_none
      | ok q =>
          simp only
          by_cases hseen : q ∈ seen
          · rw [if_pos hseen]
            exact iff_of_false hrefused (not_namesBehind_seen hseen)
          · rw [if_neg hseen]
            exact (ih h₁).trans (namesBehind_cons hseen).symm

/-- What giving registers their domains promises. -/
theorem useRegisters_spec (v : Value) (k : Nat) {registers : List Register}
    (hnodup : registers.Nodup) (r : Record) (g : Generation)
    (register : Register) :
    (∀ j, registers[j]? = some register →
      (exec (useRegisters v (remainingFrom t v) k registers) r
        g).2.2.bases.promise? register =
        some (Record.usedDomain t v (k + j) r.statement.line)) ∧
    (register ∉ registers →
      (exec (useRegisters v (remainingFrom t v) k registers) r
        g).2.2.bases.promise? register =
        g.bases.promise? register) := by
  induction registers generalizing k r g with
  | nil => exact ⟨by simp, fun _ => rfl⟩
  | cons q rest ih =>
      obtain ⟨hq, hrest⟩ := List.nodup_cons.mp hnodup
      let left : Int64 := match remainingFrom t v with
        | some n =>
            if n - Int64.ofNat k * 4096 < 0 then 0 else n - Int64.ofNat k * 4096
        | none => -1
      -- whatever is reported, the register gets its domain and the others
      -- follow
      have hexec : ∃ r₁ g₁, r₁.statement = r.statement ∧
          g₁.bases = g.bases.use q (v.number + Int64.ofNat k * 4096)
            v.sectionId left
            r.statement.line ∧
          exec (useRegisters v (remainingFrom t v) k (q :: rest)) r g =
            exec (useRegisters v (remainingFrom t v) (k + 1) rest) r₁ g₁ := by
        rw [useRegisters]
        simp only [exec_bind, exec_statement, exec_generation]
        split
        · refine ⟨_, _, ?_, ?_, rfl⟩ <;> rfl
        · refine ⟨_, _, ?_, ?_, rfl⟩ <;> rfl
      obtain ⟨r₁, g₁, hstatement, hbases, heq⟩ := hexec
      obtain ⟨hgiven, hother⟩ := ih (k + 1) hrest r₁ g₁
      rw [heq]
      have hused : g₁.bases.promise? q =
          some (Record.usedDomain t v k r.statement.line) := by
        rw [hbases, BaseRegisters.promise?_use, if_pos rfl]
        unfold Record.usedDomain left
        congr 2
        split
        · split <;> rfl
        · rfl
      refine ⟨fun j hj => ?_, fun hnot => ?_⟩
      · cases j with
        | zero =>
            obtain rfl : q = register := by simpa using hj
            rw [hother hq]
            exact hused
        | succ j =>
            rw [hgiven j (by simpa using hj), hstatement, Nat.add_right_comm]
            rfl
      · rw [List.mem_cons, not_or] at hnot
        obtain ⟨hne, hnot⟩ := hnot
        rw [hother hnot, hbases, BaseRegisters.promise?_use, if_neg hne]

/-- The operands of a statement behind the first. -/
theorem map_numbered_drop {α : Type} (s : Statement) (f : Bytes → α) :
    (s.numbered.drop 1).map (fun operand => f operand.2) =
      (s.operands.drop 1).map f := by
  rw [← s.map_snd_numbered, ← List.map_drop, List.map_map]
  rfl

/-- Reading a table, the ends of sections are its own. -/
theorem remainingFrom_congr (h : g.Reads t) (v : Value) :
    remainingFrom g.symbols v = remainingFrom t v := by
  unfold remainingFrom SymbolTable.section?
  rw [h.symbols]

/-- A `USING` statement gives its registers their domains.  One without
registers does nothing, and a wrong one is an error and does nothing else. -/
theorem useBases_cases (h : g.Reads t) :
    (∃ registers v r₁ g₁,
      registers ≠ [] ∧ r.Offers t registers v ∧ Kept [] r g r₁ g₁ ∧
      Spares [] g g₁ ∧
      exec useBases r g = exec
        (useRegisters v (remainingFrom t v) 0 registers) r₁ g₁) ∨
    (r.statement.operands.length < 2 ∧ exec useBases r g = ((), r, g)) ∨
    (2 ≤ r.statement.operands.length ∧
      (∀ registers v, ¬ r.Offers t registers v) ∧
      Refuses g (exec useBases r g).2.2) := by
  unfold useBases
  rw [exec_bind, exec_statement]
  simp only
  by_cases hfew : r.statement.operands.length < 2
  · right; left
    rw [if_pos hfew]
    exact ⟨hfew, rfl⟩
  have hmany : 2 ≤ r.statement.operands.length := by omega
  rw [if_neg hfew, exec_bind]
  have hkept := quiet_baseOperands [] (r.statement.numbered.drop 1) r g
  have hspec := @baseOperands_spec t r g (r.statement.numbered.drop 1) []
  obtain ⟨hread, hwrong⟩ :=
    spares_baseOperands (r.statement.numbered.drop 1) [] r g
  generalize exec (baseOperands [] (r.statement.numbered.drop 1)) r g =
    collected at *
  obtain ⟨found, r₁, g₁⟩ := collected
  simp only [namesBehind_empty, map_numbered_drop] at hkept hspec hread hwrong ⊢
  cases found with
  | none =>
      right; right
      refine ⟨hmany, fun registers v hoffers => ?_, hwrong rfl⟩
      exact nomatch (hspec h).mpr ⟨hoffers.named, hoffers.differ⟩
  | some registers =>
      obtain ⟨hmap, hnodup⟩ := (hspec h).mp rfl
      have hsome : registers ≠ [] := by
        rintro rfl
        have hlength := congrArg List.length hmap
        rw [List.length_map, List.length_map, List.length_drop,
          List.length_nil] at hlength
        omega
      have hplace : r₁.place = r.place := by rw [hkept.record]; rfl
      have hkept' :=
        hkept.trans (quiet_evaluate .base (r.statement.operands.headD []) r₁ g₁)
      have hspares := (hread _ rfl).trans
        (spares_evaluate .base (r.statement.operands.headD []) r₁ g₁)
      have hresult :
          (exec (evaluate .base (r.statement.operands.headD [])) r₁ g₁).1 =
          (Expression.evaluate t r.place
            (r.statement.operands.headD [])).result :=
        hplace ▸ result_evaluate (h.kept hkept) _ _
      simp only [exec_bind]
      rw [hresult]
      generalize exec (evaluate .base (r.statement.operands.headD [])) r₁ g₁ =
        evaluated
        at hkept' hspares
      obtain ⟨_, r₂, g₂⟩ := evaluated
      cases hvalue : (Expression.evaluate t r.place
        (r.statement.operands.headD [])).result with
      | error problem =>
          right; right
          refine ⟨hmany, fun others v hoffers => ?_, ?_⟩
          · obtain ⟨result, hok, -⟩ := hoffers.address
            rw [hvalue] at hok
            cases hok
          · exact hspares.refuses
              (refuses_report (Expression.isError_evaluate hvalue) _ r₂ g₂)
      | ok result =>
          simp only
          by_cases hbad : result.value.isAbsolute = false ∧
            result.value.sectionId = 0
          · right; right
            rw [if_pos hbad]
            refine ⟨hmany, fun others v hoffers => ?_,
              hspares.refuses (refuses_report rfl _ r₂ g₂)⟩
            obtain ⟨other, hok, rfl⟩ := hoffers.address
            rw [hvalue] at hok
            obtain rfl := Except.ok.inj hok
            rcases hoffers.addressable with habsolute | hsection
            · simp [habsolute] at hbad
            · exact absurd hbad.2 hsection
          · left
            rw [if_neg hbad, exec_bind, exec_generation,
              remainingFrom_congr (h.kept hkept')]
            refine ⟨registers, result.value, r₂, g₂, hsome,
              ⟨hmap, hnodup, ⟨result, hvalue, rfl⟩, ?_⟩, hkept', hspares, rfl⟩
            by_cases habsolute : result.value.isAbsolute = true
            · exact Or.inl habsolute
            · exact Or.inr fun hzero => hbad ⟨by simpa using habsolute, hzero⟩

/-- **A `USING` statement** gives registers their domains, if it succeeds. -/
theorem promise?_useBases (h : g.Reads t) (hexecuted : r.Executes .use)
    (register : Register) (d : Domain) :
    (exec useBases r g).2.2.bases.promise? register = some d ↔
    r.Uses t register d ∨
      (∀ d, ¬ r.Uses t register d) ∧ g.bases.promise? register = some d := by
  -- a statement that does not name the register leaves its promise alone
  have hnothing : (∀ d, ¬ r.Uses t register d) →
      (g.bases.promise? register = some d ↔
      r.Uses t register d ∨ (∀ d, ¬ r.Uses t register d) ∧
        g.bases.promise? register = some d) := by
    intro hnone
    exact ⟨fun hd => Or.inr ⟨hnone, hd⟩,
      fun hd => hd.elim (fun hu => absurd hu (hnone d)) (·.2)⟩
  rcases useBases_cases (r := r) h with
    ⟨registers, v, r₁, g₁, -, hoffers, hkept, -, hexec⟩ | ⟨hfew, hexec⟩ | ⟨-,
      hnone, _, -, hspares⟩
  · have hstatement : r₁.statement = r.statement := by rw [hkept.record]
    obtain ⟨hgiven, hother⟩ :=
      useRegisters_spec (t := t) v 0 hoffers.differ r₁ g₁ register
    rw [hexec]
    by_cases hmem : register ∈ registers
    · obtain ⟨k, hk⟩ := List.getElem?_of_mem hmem
      have huses :
          r.Uses t register (Record.usedDomain t v k r.statement.line) :=
        ⟨hexecuted, registers, v, k, hoffers, hk, rfl⟩
      rw [hgiven k hk, Nat.zero_add, hstatement]
      constructor
      · intro hd
        exact Or.inl (Option.some.inj hd ▸ huses)
      · rintro (⟨-, others, w, j, hoffers', hj, rfl⟩ | ⟨hnone, -⟩)
        · obtain ⟨rfl, rfl⟩ := hoffers.unique hoffers'
          have hkj : k = j := by
            have hlt := (List.getElem?_eq_some_iff.mp hk).1
            exact (List.getElem?_inj hlt hoffers.differ).mp (hk.trans hj.symm)
          rw [hkj]
        · exact absurd huses (hnone _)
    · rw [hother hmem, hkept.promises]
      refine hnothing ?_
      rintro d ⟨-, others, w, j, hoffers', hj, -⟩
      obtain ⟨rfl, -⟩ := hoffers.unique hoffers'
      exact hmem (List.mem_of_getElem? hj)
  · rw [hexec]
    refine hnothing ?_
    rintro d ⟨-, others, w, j, hoffers, hj, -⟩
    have hlength := congrArg List.length hoffers.named
    rw [List.length_map, List.length_map, List.length_drop] at hlength
    obtain rfl := List.length_eq_zero_iff.mp (show others.length = 0 by omega)
    simp at hj
  · rw [hspares.bases]
    refine hnothing ?_
    rintro d ⟨-, others, w, j, hoffers, -⟩
    exact hnone others w hoffers

/-- One operand of a `DROP` statement. -/
theorem promise?_dropOperand (h : g.Reads t) (operand : Nat × Bytes)
    (register : Register) :
    (exec (dropOperand operand) r g).2.2.bases.promise? register =
      if r.register? t operand.2 = some register then none else
        g.bases.promise? register := by
  obtain ⟨hregister, hrecord⟩ := register_spec (r := r) h .drop operand.2
  have hkept := quiet_register .drop operand.2 r g
  unfold dropOperand
  simp only [exec_bind, exec_statement]
  rw [← hregister]
  generalize exec (Generate.register .drop operand.2) r g = result at *
  obtain ⟨outcome, r₁, g₁⟩ := result
  cases outcome with
  | error problem => exact hkept.promises register
  | ok q =>
      have hdropped : (g₁.bases.drop q).promise? register =
          if some q = some register then none else
            g.bases.promise? register := by
        rw [BaseRegisters.promise?_drop, hkept.promises register]
        simp only [Option.some.injEq, @eq_comm _ register q]
      rw [exec_bind, exec_generation]
      simp only
      split <;> exact hdropped

/-- `DROP` of several registers closes the domains that they name. -/
theorem promise?_dropOperands (h : g.Reads t) (operands : List (Nat × Bytes))
    (register : Register) (d : Domain) :
    (exec (operands.forM dropOperand) r g).2.2.bases.promise?
      register = some d ↔
      (∀ operand ∈ operands, r.register? t operand.2 ≠ some register) ∧
        g.bases.promise? register = some d := by
  induction operands generalizing r g with
  | nil =>
      show g.bases.promise? register = some d ↔ _
      simp
  | cons operand rest ih =>
      have hheld := mild_dropOperand operand r g
      have hregister : (exec (dropOperand operand) r g).2.1.register? t =
          r.register? t := by
        rw [hheld.record]
        rfl
      have hfirst := promise?_dropOperand (r := r) h operand register
      have hrest := @ih (exec (dropOperand operand) r g).2.1
        (exec (dropOperand operand) r g).2.2
        (h.held hheld)
      rw [hregister, hfirst] at hrest
      have hcons : exec ((operand :: rest).forM dropOperand) r g =
          exec (rest.forM dropOperand)
        (exec (dropOperand operand) r g).2.1
          (exec (dropOperand operand) r g).2.2 := rfl
      rw [hcons, hrest, List.forall_mem_cons]
      split
      · rename_i hnamed
        simp [hnamed]
      · rename_i hnamed
        simp only [ne_eq, hnamed, not_false_eq_true, true_and]

/-- **A `DROP` statement** takes the domains of its registers away, or those of
all. -/
theorem promise?_dropBases (h : g.Reads t) (hexecuted : r.Executes .drop)
    (register : Register) (d : Domain) :
    (exec dropBases r g).2.2.bases.promise? register = some d ↔
    ¬ r.Drops t register ∧ g.bases.promise? register = some d := by
  unfold dropBases
  rw [exec_bind, exec_statement]
  have hdrops : r.Drops t register ↔ r.statement.operands = [] ∨
      ∃ text ∈ r.statement.operands, r.register? t text = some register := by
    refine ⟨?_, fun hnamed => Or.inr ⟨hexecuted, hnamed⟩⟩
    rintro (hending | ⟨-, hnamed⟩)
    · have := hexecuted.directive.symm.trans hending.directive
      simp at this
    · exact hnamed
  rw [hdrops]
  by_cases hnil : r.statement.operands = []
  · rw [if_pos hnil]
    show BaseRegisters.promise? {} register = some d ↔ _
    simp [hnil]
  · rw [if_neg hnil, promise?_dropOperands h]
    simp only [hnil, false_or, not_exists, not_and]
    rw [← r.statement.map_snd_numbered, List.forall_mem_map]

/-- The end takes all domains away. -/
theorem promise?_endProgram (register : Register) :
    (exec endProgram r g).2.2.bases.promise? register = none := by
  have hdropped : ∀ {x : Generate Unit} {r' : Record} {g' : Generation},
      Quiet x →
      g'.bases.promise? register = none →
        (exec x r' g').2.2.bases.promise? register = none :=
    fun hx hnone => ((hx _ _).promises register).trans hnone
  unfold endProgram
  rw [exec_bind, exec_bind, exec_statement]
  have hempty : (exec dropAll r g).2.2.bases.promise? register = none :=
    BaseRegisters.promise?_empty register
  simp only
  split
  · rw [exec_bind, exec_generation]
    split
    · exact hempty
    · exact hempty
  · rename_i text _ _
    have hkept :=
      quiet_evaluate .plain text (exec dropAll r g).2.1 (exec dropAll r g).2.2
    have hevaluated := (hkept.promises register).trans hempty
    rw [exec_bind]
    split
    · exact hdropped (quiet_report _ _) hevaluated
    · rw [exec_bind, exec_generation]
      split
      · exact hevaluated
      · exact hdropped (quiet_report _ _) hevaluated

/-- Emission leaves the domains alone. -/
theorem bases_emit (data : Bytes) (r : Record) (g : Generation) :
    (exec (emit data) r g).2.2.bases = g.bases := by
  rw [exec_emit]
  simp only
  split <;> rfl

theorem bases_emitParts (parts : List (Int64 × Bytes)) (r : Record)
    (g : Generation) :
    (exec (emitParts parts) r g).2.2.bases = g.bases := by
  unfold emitParts
  rw [exec_bind, exec_record]
  split
  · exact bases_emit _ _ _
  · rfl

/-- A record that executes none of the three directives leaves what it promises
to those before. -/
theorem promise?_of_same {g' : Generation} {register : Register} (d : Domain)
    (hnone : ¬ r.Executes .use ∧ ¬ r.Executes .drop ∧ ¬ r.Executes .ending)
    (hsame : g'.bases.promise? register = g.bases.promise? register) :
    g'.bases.promise? register = some d ↔
      r.Uses t register d ∨ ¬ r.Touches t register ∧
      g.bases.promise? register = some d := by
  obtain ⟨huses, htouches⟩ := Record.not_touches (t := t) hnone register
  rw [hsame]
  simp [huses, htouches]

/-- **What generating a record does to the promise of a register.** -/
theorem promise?_generate (h : g.Reads t) (hok : r.errored = false)
    (register : Register) (d : Domain) :
    (exec generate r g).2.2.bases.promise? register = some d ↔
    r.Uses t register d ∨ ¬ r.Touches t register ∧
    g.bases.promise? register = some d := by
  -- all but three kinds of records leave the promises alone
  have hbody : ∀ {body : Record.Body}, r.body = body → body ≠ .located →
      ¬ r.Executes .use ∧ ¬ r.Executes .drop ∧ ¬ r.Executes .ending := by
    intro body hbody hne
    refine ⟨?_, ?_, ?_⟩ <;> exact fun hd => hne (hbody.symm.trans hd.body)
  unfold generate
  rw [exec_bind, exec_record]
  simp only
  split
  · rename_i hinstruction
    refine promise?_of_same d (hbody hinstruction (by simp)) ?_
    rw [exec_bind, bases_emit]
    exact (quiet_instructionOctets _ r g).promises register
  · rename_i hstorage _
    refine promise?_of_same d (hbody hstorage (by simp)) ?_
    rw [exec_bind, bases_emitParts]
    obtain ⟨_, hkept⟩ := steady_storageParts _ r g
    exact hkept.promises register
  · rename_i hpool
    refine promise?_of_same d (hbody hpool (by simp)) ?_
    rw [exec_bind, bases_emitParts]
    obtain ⟨_, hkept⟩ := steady_poolParts _ r g
    exact hkept.promises register
  · rename_i hequate
    exact promise?_of_same d (hbody hequate (by simp))
      ((quiet_forM (fun _ => quiet_discard (quiet_evaluate _ _)) r g).promises
        register)
  · rename_i hlocated hused
    have hexecuted : r.Executes .use := ⟨hok, hlocated, hused⟩
    have hdrops : ¬ r.Drops t register := by
      rintro (hd | ⟨hd, -⟩) <;> simpa [hused] using hd.directive
    rw [promise?_useBases h hexecuted]
    simp [Record.Touches, hdrops]
  · rename_i hlocated hdropped
    have huses : ∀ d, ¬ r.Uses t register d := fun d hd => by
      simpa [hdropped] using hd.executed.directive
    rw [promise?_dropBases h ⟨hok, hlocated, hdropped⟩]
    simp [Record.Touches, huses]
  · rename_i hlocated hended
    have huses : ¬ r.Uses t register d := fun hd => by
      simpa [hended] using hd.executed.directive
    have htouches : r.Touches t register :=
      Or.inl (Or.inl ⟨hok, hlocated, hended⟩)
    rw [promise?_endProgram]
    simp [huses, htouches]
  · rename_i hlocated hfill
    refine promise?_of_same d ⟨fun hd => ?_, fun hd => ?_, fun hd => ?_⟩ ?_
    iterate 3 exact absurd (hfill.symm.trans hd.directive) (by simp)
    split
    · rfl
    · rw [bases_emit]
  · rename_i hinstruction hstorage hpool hequate huse hdrop hending hfill
    refine promise?_of_same d ⟨fun hd => ?_, fun hd => ?_, fun hd => ?_⟩ rfl
    · exact huse hd.body hd.directive
    · exact hdrop hd.body hd.directive
    · exact hending hd.body hd.directive

end Generate

namespace Generation

variable {t : SymbolTable}

/-- **One record**: a register holds what the record promises, or what it held
before. -/
theorem promise?_step {r : Record} {g : Generation} (h : g.Reads t)
    (hfault : g.fault = none) (register : Register) (d : Domain) :
    (g.step r).2.bases.promise? register = some d ↔
      r.Uses t register d ∨ ¬ r.Touches t register ∧
      g.bases.promise? register = some d := by
  unfold step
  split
  · rename_i hskipped
    have herrored : r.errored = true := by simpa [hfault] using hskipped
    have hidle : ∀ directive, ¬ r.Executes directive := fun directive hd => by
      simpa [herrored] using hd.ok
    obtain ⟨huses, htouches⟩ :=
      Record.not_touches (t := t) ⟨hidle _, hidle _, hidle _⟩ register
    simp [huses, htouches]
  · rename_i hexecuted
    have hok : r.errored = false :=
      Bool.eq_false_iff.mpr fun he => hexecuted (Or.inl he)
    exact Generate.promise?_generate h hok register d

/-- **All records one after the other**: a register holds what the last record
about it promises. -/
theorem promise?_run {records : List Record} {g : Generation}
    (hready : ∀ r ∈ records, Ready r) (h : g.Reads t)
    (hfault : (g.run records).2.fault = none)
    (register : Register) (d : Domain) :
    (g.run records).2.bases.promise? register = some d ↔
      InForce t records register d ∨
        (∀ r ∈ records, ¬ r.Touches t register) ∧
        g.bases.promise? register = some d := by
  induction records generalizing g with
  | nil =>
      have hnever : ¬ InForce t [] register d := by
        rintro ⟨before, r, between, hnil, -⟩
        simp at hnil
      simp [run, hnever]
  | cons r rest ih =>
      have hrest : ((g.step r).2.run rest).2.fault = none := hfault
      obtain ⟨-, hadds⟩ := step_spec g (hready r List.mem_cons_self)
      have hrun := ih (fun r hr => hready r (List.mem_cons_of_mem _ hr))
        (h.adds hadds) hrest
      have hnofault : g.fault = none := @fault_of_run g (r :: rest) hfault
      have hstep := promise?_step (r := r) h hnofault register d
      show ((g.step r).2.run rest).2.bases.promise? register = some d ↔ _
      rw [hrun, hstep, inForce_cons, List.forall_mem_cons]
      grind

end Generation

end System370
