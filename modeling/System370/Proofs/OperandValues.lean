import System370.Proofs.BaseDisplacements

/-!
# What operands stand for

An operand is evaluated against the symbols that are defined and the promises of
the base registers.  `Record.Denotes` says what an operand in storage stands for
without running anything: its base register and displacement, its index register
or length, and the length attribute that it carries.

* `BaseRegisters.choose?_eq_some_iff`: a register is chosen if and only if it is
  the best;
* `Generate.storageOperand_eq_iff`: an operand in storage is accepted if and
  only if it stands for something, and it is that;
* `Generate.grave_storageOperand`: whatever is not accepted is an error.
-/

namespace System370

namespace BaseRegisters

/-- There is one best way to address a location. -/
theorem Choice.Best.unique {holds : Register → Domain → Prop} {address : Int64}
    {sectionId : Int} {c other : Choice} (h : c.Best holds address sectionId)
    (h' : other.Best holds address sectionId) :
    c = other := by
  obtain ⟨d, hd, hcovers⟩ := h.covers
  obtain ⟨d', hd', hcovers'⟩ := h'.covers
  have hbeats : c.Beats other := h.beats _ _ _ hd' hcovers'
  have hbeaten : other.Beats c := h'.beats _ _ _ hd hcovers
  obtain ⟨register, displacement⟩ := c
  obtain ⟨register', displacement'⟩ := other
  simp only [Choice.Beats, Int64.lt_iff_toInt_lt, ← Int64.toInt_inj, Fin.le_def]
    at hbeats hbeaten
  rw [Choice.mk.injEq, Fin.ext_iff, ← Int64.toInt_inj]
  omega

/-- A location that some register covers is addressed in some way. -/
theorem exists_choose? {b : BaseRegisters} {location displacement : Int64}
    {sectionId : Int} {register : Register}
    {d : Domain} (hd : b.Promises register d)
    (hcovers : d.Covers location sectionId displacement) :
    ∃ c, b.choose? location sectionId = some c := by
  have hsome : ∀ (items : List Choice) (found : Choice), ∃ c,
      items.foldl better (some found) = some c := by
    intro items
    induction items with
    | nil => exact fun found => ⟨found, rfl⟩
    | cons next rest ih =>
        intro found
        rw [List.foldl_cons, better]
        split <;> exact ih _
  have hmem := (@mem_candidates b location sectionId ⟨register,
    displacement⟩).mpr ⟨d, hd, hcovers⟩
  unfold choose?
  generalize ((List.finRange 16).reverse.filterMap fun r =>
    ((b.domain? r).bind (·.displacement? location sectionId)).map
      (Choice.mk r)) = items at *
  cases items with
  | nil => simp at hmem
  | cons first rest => exact hsome rest first

/-- **A way to address a location is chosen if and only if it is the best.** -/
theorem choose?_eq_some_iff {b : BaseRegisters} {location : Int64}
    {sectionId : Int} {c : Choice} :
    b.choose? location sectionId = some c ↔
      c.Best b.Promises location sectionId := by
  refine ⟨choose?_spec, fun h => ?_⟩
  obtain ⟨d, hd, hcovers⟩ := h.covers
  obtain ⟨found, hfound⟩ := exists_choose? hd hcovers
  rw [hfound, (choose?_spec hfound).unique h]

/-- How a value is addressed, given what registers hold.  A number below 4096
needs no register; other numbers and places in sections take the best
register. -/
inductive Choice.Addresses (holds : Register → Domain → Prop) (v : Value) :
    Choice → Prop where
  | low (hclass : v.classify = .absolute) (hlow : 0 ≤ v.number)
      (hhigh : v.number < 4096) :
      Addresses holds v ⟨0, v.number⟩
  | far {c : Choice} (hclass : v.classify = .absolute)
      (hfar : v.number < 0 ∨ 4096 ≤ v.number)
      (hbest : c.Best holds v.number 0) : Addresses holds v c
  | inside {c : Choice} (hclass : v.classify = .relocatable)
      (hsection : v.sectionId ≠ 0) (hbest : c.Best holds v.number v.sectionId) :
        Addresses holds v c

/-- What a choice addresses is a matter of the domains in force. -/
theorem Choice.Addresses.congr {holds others : Register → Domain → Prop}
    {v : Value} {c : Choice} (h : c.Addresses holds v)
    (hsame : ∀ register d, holds register d ↔ others register d) :
    c.Addresses others v := by
  cases h with
  | low hclass hlow hhigh => exact .low hclass hlow hhigh
  | far hclass hfar hbest => exact .far hclass hfar (hbest.congr hsame)
  | inside hclass hsection hbest =>
      exact .inside hclass hsection (hbest.congr hsame)

/-- A value is addressed by a displacement of twelve bits. -/
theorem Choice.Addresses.bounds {holds : Register → Domain → Prop} {v : Value}
    {c : Choice} (h : c.Addresses holds v) :
    0 ≤ c.displacement ∧ c.displacement < 4096 := by
  have hbest : ∀ {address sectionId}, c.Best holds address sectionId →
      0 ≤ c.displacement ∧ c.displacement < 4096 := by
    intro address sectionId h
    obtain ⟨d, -, hcovers⟩ := h.covers
    exact ⟨hcovers.nonneg, hcovers.small⟩
  cases h with
  | low _ hlow hhigh => exact ⟨hlow, hhigh⟩
  | far _ _ h => exact hbest h
  | inside _ _ h => exact hbest h

end BaseRegisters

/-- How many parts the parentheses of a storage operand may have.  If they have
as many, the last one is the base register. -/
def Inner.allowed (kind : Inner) : Nat := if kind = .base then 1 else 2

/-- The address of a literal. -/
def Literal.address (literal : Literal) : Int64 :=
  (literal.place.map (·.address)).getD 0

/-- The length attribute of the first value of a literal. -/
def Literal.lengthAttribute (literal : Literal) : Nat :=
  (literal.descriptor.map (·.lengthAttribute)).getD 1

namespace Record

/-- What is written first in the parentheses of a storage operand: nothing, the
number of an index register, or a length. -/
inductive Writes (t : SymbolTable) (r : Record) :
    Inner → List Bytes → Option Int64 → Prop where
  | nothing {kind : Inner} {parts : List Bytes}
      (h : kind = .base ∨ isBlank (parts.headD []) = true) :
      Writes t r kind parts none
  | index {parts : List Bytes} {register : Register}
      (hwritten : isBlank (parts.headD []) = false)
      (hregister : r.register? t (parts.headD []) = some register) :
      Writes t r .index parts (some (Int64.ofNat register.val))
  | length {parts : List Bytes} {n : Int64}
      (hwritten : isBlank (parts.headD []) = false)
      (hlength : (Expression.absolute t r.place (parts.headD [])).result =
        .ok n) :
      Writes t r .length parts (some n)

/-- A register operand is a matter of its text and its place. -/
theorem register?_congr {r r' : Record} (t : SymbolTable)
    (hplace : r'.place = r.place) (text : Bytes) :
    r'.register? t text = r.register? t text := by
  rw [register?, hplace]
  rfl

/-- What is written depends on the place of the record only. -/
theorem Writes.congr {t : SymbolTable} {r r' : Record} {kind : Inner}
    {parts : List Bytes} {inner : Option Int64}
    (h : r.Writes t kind parts inner) (hplace : r'.place = r.place) :
    r'.Writes t kind parts inner := by
  cases h with
  | nothing h => exact .nothing h
  | index hwritten hregister =>
      exact .index hwritten (register?_congr t hplace _ ▸ hregister)
  | length hwritten hlength => exact .length hwritten (hplace ▸ hlength)

/-- What a storage operand of a record stands for: the place of a literal, the
value of an expression, or a displacement with its base register.  `holds` is
what the registers hold.  The length attribute of an operand that names its base
register is not kept. -/
inductive Denotes (t : SymbolTable) (literals : LiteralPool)
    (holds : Register → Domain → Prop) (r : Record) (i : Nat) (kind : Inner) :
      StorageOperand → Prop where
  | literal {literal : Literal} {choice : BaseRegisters.Choice}
      (hbound : Generate.boundLiteral? r literals i = some literal)
      (hchoice : choice.Addresses holds
        (Value.relocatable literal.address literal.sectionId)) :
      Denotes t literals holds r i kind
        { choice, address := some literal.address
          length := Int64.ofNat literal.lengthAttribute }
  | implicit {result : Expression.Result} {inner : Option Int64}
      {choice : BaseRegisters.Choice}
      (hbound : Generate.boundLiteral? r literals i = none)
      (htext : (r.operand i).head? ≠ some (octet '='))
      (hparts : (splitAddress (r.operand i)).2.length < kind.allowed)
      (hresult : (Expression.evaluate t r.place
        (splitAddress (r.operand i)).1).result = .ok result)
      (hinner : r.Writes t kind (splitAddress (r.operand i)).2 inner)
      (hchoice : choice.Addresses holds result.value) :
      Denotes t literals holds r i kind
        { choice, inner, length := result.length
          address := if result.value.classify = .relocatable then
            some result.value.number else none }
  | explicit {result : Expression.Result} {inner : Option Int64}
      {register : Register}
      (hbound : Generate.boundLiteral? r literals i = none)
      (htext : (r.operand i).head? ≠ some (octet '='))
      (hparts : (splitAddress (r.operand i)).2.length = kind.allowed)
      (hresult : (Expression.evaluate t r.place
        (splitAddress (r.operand i)).1).result = .ok result)
      (hinner : r.Writes t kind (splitAddress (r.operand i)).2 inner)
      (hregister : r.register? t ((splitAddress (r.operand i)).2.getLastD []) =
        some register) (habsolute : result.value.isAbsolute = true)
      (hrange : 0 ≤ result.value.number ∧ result.value.number < 4096) :
      Denotes t literals holds r i kind
        { choice := ⟨register, result.value.number⟩, inner }

/-- The displacement of an operand has twelve bits. -/
theorem Denotes.bounds {t : SymbolTable} {literals : LiteralPool}
    {holds : Register → Domain → Prop} {r : Record} {i : Nat} {kind : Inner}
    {operand : StorageOperand} (h : r.Denotes t literals holds i kind operand) :
    0 ≤ operand.choice.displacement ∧ operand.choice.displacement < 4096 := by
  cases h with
  | literal _ hchoice | implicit _ _ _ _ _ hchoice => exact hchoice.bounds
  | explicit _ _ _ _ _ _ _ hrange => exact hrange

/-- An operand that may have an index register has the number of one, or
none. -/
theorem Denotes.index {t : SymbolTable} {literals : LiteralPool}
    {holds : Register → Domain → Prop} {r : Record}
    {i : Nat} {operand : StorageOperand}
    (h : r.Denotes t literals holds i .index operand) :
    ∃ n < 16, (operand.inner.getD 0).toInt = (n : Nat) := by
  have hwritten : ∀ {parts inner}, r.Writes t .index parts inner →
      ∃ n < 16, (inner.getD 0).toInt = (n : Nat) := by
    intro parts inner hinner
    cases hinner with
    | nothing => exact ⟨0, by decide, rfl⟩
    | @index _ register =>
        have hregister := register.isLt
        exact ⟨register.val, hregister, Int64.toInt_ofNat_of_lt (by omega)⟩
  cases h with
  | literal => exact ⟨0, by decide, rfl⟩
  | implicit _ _ _ _ hinner | explicit _ _ _ _ hinner => exact hwritten hinner

/-- What an operand stands for that is no literal. -/
theorem denotes_expression_iff {t : SymbolTable} {literals : LiteralPool}
    {holds : Register → Domain → Prop} {r : Record} {i : Nat} {kind : Inner}
    {operand : StorageOperand}
    (hbound : Generate.boundLiteral? r literals i = none)
    (htext : (r.operand i).head? ≠ some (octet '=')) :
    r.Denotes t literals holds i kind operand ↔
      (splitAddress (r.operand i)).2.length ≤ kind.allowed ∧ ∃ result,
      (Expression.evaluate t r.place (splitAddress (r.operand i)).1).result =
        .ok result ∧
      ∃ inner, r.Writes t kind (splitAddress (r.operand i)).2 inner ∧
        if (splitAddress (r.operand i)).2.length = kind.allowed then
          ∃ register, r.register? t
            ((splitAddress (r.operand i)).2.getLastD []) = some register ∧
            result.value.isAbsolute = true ∧
            (0 ≤ result.value.number ∧ result.value.number < 4096) ∧
            operand = { choice := ⟨register, result.value.number⟩, inner }
        else ∃ choice : BaseRegisters.Choice,
            choice.Addresses holds result.value ∧
          operand = { choice, inner, length := result.length
                      address := if result.value.classify = .relocatable
                        then some result.value.number else none } := by
  constructor
  · intro hdenotes
    cases hdenotes with
    | literal hbound' => simp [hbound] at hbound'
    | implicit _ _ hparts hresult hinner hchoice =>
        refine ⟨by omega, _, hresult, _, hinner, ?_⟩
        rw [if_neg (by omega)]
        exact ⟨_, hchoice, rfl⟩
    | explicit _ _ hparts hresult hinner hregister habsolute hrange =>
        refine ⟨by omega, _, hresult, _, hinner, ?_⟩
        rw [if_pos hparts]
        exact ⟨_, hregister, habsolute, hrange, rfl⟩
  · rintro ⟨hle, result, hresult, inner, hinner, h⟩
    split at h
    · rename_i hparts
      obtain ⟨register, hregister, habsolute, hrange, rfl⟩ := h
      exact .explicit hbound htext hparts hresult hinner hregister
        habsolute hrange
    · rename_i hparts
      obtain ⟨choice, hchoice, rfl⟩ := h
      exact .implicit hbound htext (by omega) hresult hinner hchoice

end Record

namespace Generate

variable {t : SymbolTable} {r : Record} {g : Generation}

/-- A register operand is read as the register that it names. -/
theorem register_eq_ok_iff (h : g.Reads t) (usage : Usage) (text : Bytes)
    (q : Register) :
    (exec (register usage text) r g).1 = .ok q ↔
      r.register? t text = some q := by
  rw [← (register_spec h usage text).1]
  cases (exec (register usage text) r g).1 <;> simp [Except.toOption]

/-! ### Steps that may fail -/

section Fallible

variable {α β : Type}

/-- What goes well behind a step that may fail, if nothing does behind its
failure. -/
theorem bind_iff {x : Generate (Except Problem α)}
    {f : Except Problem α → Generate β} (P : β → Prop)
    (hfail : ∀ problem r g, ¬ P (exec (f (.error problem)) r g).1) :
    P (exec (x >>= f) r g).1 ↔ ∃ a, (exec x r g).1 = .ok a ∧
      P (exec (f (.ok a)) (exec x r g).2.1 (exec x r g).2.2).1 := by
  rw [exec_bind]
  cases (exec x r g).1 with
  | error problem =>
      exact ⟨fun h => absurd h (hfail _ _ _), fun ⟨_, h, _⟩ => nomatch h⟩
  | ok a =>
      refine ⟨fun h => ⟨a, rfl, h⟩, ?_⟩
      rintro ⟨_, ⟨⟩, h⟩
      exact h

end Fallible

/-- Nothing is written first in parentheses. -/
theorem exec_innerValue_nothing {kind : Inner} {parts : List Bytes}
    (h : kind = .base ∨ isBlank (parts.headD []) = true) :
    exec (innerValue kind parts) r g = (.ok none, r, g) := by
  unfold innerValue
  cases parts with
  | nil => cases kind <;> rfl
  | cons text more =>
      cases kind with
      | base => rfl
      | index | length =>
          have hblank : isBlank text = true := h.resolve_left (by decide)
          simp only [if_pos hblank]
          rfl

/-- What is written first in parentheses. -/
theorem innerValue_eq_ok_iff (h : g.Reads t) {kind : Inner}
    {parts : List Bytes} {inner : Option Int64} :
    (exec (innerValue kind parts) r g).1 = .ok inner ↔
      r.Writes t kind parts inner := by
  by_cases hnothing : kind = .base ∨ isBlank (parts.headD []) = true
  · rw [exec_innerValue_nothing hnothing]
    refine ⟨fun hok => Except.ok.inj hok ▸ .nothing hnothing, fun hwrites => ?_⟩
    cases hwrites with
    | nothing => rfl
    | index hwritten | length hwritten =>
        exact absurd (hnothing.resolve_left (by decide))
          (Bool.eq_false_iff.mp hwritten)
  · have hnot := not_or.mp hnothing
    cases parts with
    | nil => exact absurd (by decide) hnot.2
    | cons text more =>
        have hwritten : isBlank text = false := Bool.eq_false_iff.mpr hnot.2
        unfold innerValue
        cases kind with
        | base => exact absurd rfl hnot.1
        | index =>
            simp only [hwritten, Bool.false_eq_true, if_false, if_true]
            refine (bind_iff
              (fun out : Except Problem (Option Int64) => out = .ok inner)
              (by rintro _ _ _ ⟨⟩)).trans ?_
            simp only [register_eq_ok_iff h]
            constructor
            · rintro ⟨q, hq, hok⟩
              exact Except.ok.inj hok ▸ .index hwritten hq
            · intro hwrites
              cases hwrites with
              | nothing hblank => exact absurd hblank hnothing
              | index _ hq => exact ⟨_, hq, rfl⟩
        | length =>
            simp only [hwritten, Bool.false_eq_true, if_false, reduceCtorEq]
            refine (bind_iff
              (fun out : Except Problem (Option Int64) => out = .ok inner)
              (by rintro _ _ _ ⟨⟩)).trans ?_
            simp only [result_absolute h]
            constructor
            · rintro ⟨n, hn, hok⟩
              exact Except.ok.inj hok ▸ .length hwritten hn
            · intro hwrites
              cases hwrites with
              | nothing hblank => exact absurd hblank hnothing
              | length _ hn => exact ⟨_, hn, rfl⟩

/-! ### Base registers -/

/-- Looking for a way to address a value. -/
theorem resolve_eq_ok_iff {v : Value} {c : BaseRegisters.Choice} :
    (exec (resolve v) r g).1 = .ok c ↔ c.Addresses g.bases.Promises v := by
  unfold resolve
  extract_lets search
  have hsearch : ∀ sectionId, (exec (search sectionId) r g).1 = .ok c ↔
      c.Best g.bases.Promises v.number sectionId := by
    intro sectionId
    rw [← BaseRegisters.choose?_eq_some_iff]
    unfold search
    rw [exec_bind, exec_generation]
    simp only [exec_bind, exec_modifyGeneration, BaseRegisters.resolve]
    cases g.bases.choose? v.number sectionId <;> simp
  have hlimit : Domain.limit = 4096 := rfl
  cases hclass : v.classify with
  | absolute =>
      simp only
      split
      · rename_i hlow
        rw [hlimit] at hlow
        refine ⟨fun hok => Except.ok.inj hok ▸ .low hclass hlow.1 hlow.2,
          fun haddresses => ?_⟩
        cases haddresses with
        | low => rfl
        | far _ hfar =>
            simp only [Int64.lt_iff_toInt_lt, Int64.le_iff_toInt_le]
              at hlow hfar
            omega
        | inside hother => simp [hclass] at hother
      · rename_i hlow
        rw [hsearch]
        refine ⟨fun hbest => .far hclass ?_ hbest, fun haddresses => ?_⟩
        · rwa [hlimit, Classical.not_and_iff_not_or_not, Int64.not_le,
            Int64.not_lt] at hlow
        · cases haddresses with
          | low _ hzero hhigh => exact absurd ⟨hzero, hhigh⟩ hlow
          | far _ _ hbest => exact hbest
          | inside hother => simp [hclass] at hother
  | relocatable =>
      have hinside : c.Addresses g.bases.Promises v ↔
          v.sectionId ≠ 0 ∧ c.Best g.bases.Promises v.number v.sectionId := by
        refine ⟨fun haddresses => ?_, fun h => .inside hclass h.1 h.2⟩
        cases haddresses with
        | low hother | far hother => simp [hclass] at hother
        | inside _ hsection hbest => exact ⟨hsection, hbest⟩
      simp only
      rw [hinside]
      split
      · rename_i hzero
        simp [hzero]
      · rename_i hsection
        rw [hsearch, and_iff_right hsection]
  | complex =>
      refine ⟨fun hok => ?_, fun haddresses => ?_⟩
      · cases hok
      · cases haddresses with
        | low hother | far hother | inside hother => simp [hclass] at hother

/-- A step that leaves promises alone leaves the ways to address a value. -/
theorem addresses_kept {more : List Deck.Relocation} {r' : Record}
    {g' : Generation} (h : Kept more r g r' g')
    {v : Value} {c : BaseRegisters.Choice} :
    c.Addresses g'.bases.Promises v ↔ c.Addresses g.bases.Promises v :=
  ⟨fun h' => h'.congr h.promised,
    fun h' => h'.congr fun register d => (h.promised register d).symm⟩

/-- An implicit base is the best choice among the domains. -/
theorem implicitBase_eq_iff {operand operand' : StorageOperand} {v : Value} :
    (exec (implicitBase operand v) r g).1 = (operand', none) ↔
      ∃ choice : BaseRegisters.Choice, choice.Addresses g.bases.Promises v ∧
        operand' = { operand with choice } := by
  unfold implicitBase
  refine (bind_iff
    (fun out : StorageOperand × Option Problem => out = (operand', none))
    (by rintro _ _ _ ⟨⟩)).trans ?_
  simp only [resolve_eq_ok_iff, exec_pure, Prod.mk.injEq, and_true,
    @eq_comm _ _ operand']

/-- An explicit base is the register that is written, with a displacement below
4096. -/
theorem explicitBase_eq_iff (h : g.Reads t) {operand operand' : StorageOperand}
    {v : Value} {text : Bytes} :
    (exec (explicitBase operand v text) r g).1 = (operand', none) ↔
    ∃ register, r.register? t text = some register ∧ v.isAbsolute = true ∧
      (0 ≤ v.number ∧ v.number < 4096) ∧
      operand' = { operand with choice := ⟨register, v.number⟩ } := by
  unfold explicitBase
  refine (bind_iff
    (fun out : StorageOperand × Option Problem => out = (operand', none))
    (by rintro _ _ _ ⟨⟩)).trans ?_
  simp only [register_eq_ok_iff h]
  refine exists_congr fun register => and_congr_right fun _ => ?_
  cases habsolute : v.isAbsolute with
  | false => simp
  | true =>
      have hrange : ¬ (v.number < 0 ∨ Domain.limit ≤ v.number) ↔ 0 ≤ v.number ∧
          v.number < 4096 := by
        rw [not_or, Int64.not_lt, Int64.not_le]
        rfl
      simp only [Bool.true_eq_false, if_false, true_and, ← hrange]
      split
      · rename_i hout
        simp [hout]
      · rename_i hin
        simp only [hin, not_false_eq_true, true_and, exec_pure, Prod.mk.injEq,
          and_true, @eq_comm _ _ operand']

/-! ### Operands in storage -/

/-- The place of a record stays. -/
theorem Kept.place {more : List Deck.Relocation} {r' : Record} {g' : Generation}
    (h : Kept more r g r' g') : r'.place = r.place := by
  rw [h.record]
  rfl

/-- So does what its operands write in parentheses. -/
theorem Kept.writes {more : List Deck.Relocation} {r' : Record}
    {g' : Generation} (h : Kept more r g r' g')
    {kind : Inner} {parts : List Bytes} {inner : Option Int64} :
    r'.Writes t kind parts inner ↔ r.Writes t kind parts inner :=
  ⟨fun h' => h'.congr h.place.symm, fun h' => h'.congr h.place⟩

/-- An operand that is an expression is read as what it denotes. -/
theorem expressionOperand_eq_iff (h : g.Reads t) {kind : Inner} {usage : Usage}
    {i : Nat} {operand : StorageOperand}
    (hbound : boundLiteral? r g.literals i = none)
    (htext : (r.operand i).head? ≠ some (octet '=')) :
    (exec (expressionOperand kind usage (r.operand i)) r g).1 =
      (operand, none) ↔
      r.Denotes t g.literals g.bases.Promises i kind operand := by
  have hallowed : (if kind = .base then 1 else 2) = kind.allowed := rfl
  rw [Record.denotes_expression_iff hbound htext]
  unfold expressionOperand
  simp only [hallowed]
  by_cases hparts : kind.allowed < (splitAddress (r.operand i)).2.length
  · rw [if_pos hparts]
    refine ⟨nofun, fun ⟨hle, _⟩ => absurd hparts (Nat.not_lt.mpr hle)⟩
  · rw [if_neg hparts, and_iff_right (Nat.not_lt.mp hparts)]
    refine (bind_iff
      (fun out : StorageOperand × Option Problem => out = (operand, none))
      (by rintro _ _ _ ⟨⟩)).trans ?_
    have hkept := quiet_evaluate usage (splitAddress (r.operand i)).1 r g
    rw [result_evaluate h]
    refine exists_congr fun result => and_congr_right fun _ => ?_
    refine (bind_iff
      (fun out : StorageOperand × Option Problem => out = (operand, none))
      (by rintro _ _ _ ⟨⟩)).trans ?_
    have hkept' :=
      hkept.trans (quiet_innerValue kind (splitAddress (r.operand i)).2 _ _)
    refine exists_congr fun inner =>
      and_congr ((innerValue_eq_ok_iff (h.kept hkept)).trans hkept.writes) ?_
    simp only
    split
    · rw [explicitBase_eq_iff (h.kept hkept')]
      simp only [Record.register?_congr t hkept'.place]
    · rw [implicitBase_eq_iff]
      simp only [addresses_kept hkept']

/-- **An operand in storage is accepted if and only if it stands for
something**, and it is that. -/
theorem storageOperand_eq_iff (h : g.Reads t) {op : Instruction} {kind : Inner}
    {i : Nat} {operand : StorageOperand} :
    (exec (storageOperand op kind i (r.operand i)) r g).1 = (operand, none) ↔
      r.Denotes t g.literals g.bases.Promises i kind operand := by
  unfold storageOperand
  rw [exec_bind, exec_record, exec_bind, exec_generation]
  simp only
  cases hbound : boundLiteral? r g.literals i with
  | some literal =>
      simp only
      rw [implicitBase_eq_iff]
      constructor
      · rintro ⟨choice, hchoice, rfl⟩
        exact .literal hbound hchoice
      · intro hdenotes
        cases hdenotes with
        | literal hbound' hchoice =>
            obtain rfl := Option.some.inj (hbound.symm.trans hbound')
            exact ⟨_, hchoice, rfl⟩
        | implicit hbound' | explicit hbound' => simp [hbound] at hbound'
  | none =>
      simp only
      split
      · rename_i htext
        refine ⟨nofun, fun hdenotes => ?_⟩
        cases hdenotes with
        | literal hbound' => simp [hbound] at hbound'
        | implicit _ htext' | explicit _ htext' => exact absurd htext htext'
      · rename_i htext
        exact expressionOperand_eq_iff h hbound htext

/-- What an operand stands for does not change while other operands are
evaluated. -/
theorem Kept.denotes {more : List Deck.Relocation} {r' : Record}
    {g' : Generation} (h : Kept more r g r' g')
    {i : Nat} {kind : Inner} {operand : StorageOperand}
    (hdenotes : r'.Denotes t g'.literals g'.bases.Promises i kind operand) :
    r.Denotes t g.literals g.bases.Promises i kind operand := by
  have hoperand : r'.operand i = r.operand i := by rw [h.record]; rfl
  have hbound : boundLiteral? r' g'.literals i =
      boundLiteral? r g.literals i := by
    rw [h.record, h.literals]
    rfl
  have hplace := h.place
  cases hdenotes with
  | literal hliteral hchoice =>
      exact .literal (hbound ▸ hliteral) ((addresses_kept h).mp hchoice)
  | implicit hnone htext hparts hresult hinner hchoice =>
      rw [hoperand] at *
      exact .implicit (hbound ▸ hnone) htext hparts (hplace ▸ hresult)
        (h.writes.mp hinner)
        ((addresses_kept h).mp hchoice)
  | explicit hnone htext hparts hresult hinner hregister habsolute hrange =>
      rw [hoperand] at *
      exact .explicit (hbound ▸ hnone) htext hparts (hplace ▸ hresult)
        (h.writes.mp hinner)
        (Record.register?_congr t hplace _ ▸ hregister) habsolute hrange

/-! ### Problems of operands -/

/-- Whether the problem of an operand is an error, if there is one. -/
def Grave (out : StorageOperand × Option Problem) : Prop :=
  ∀ problem, out.2 = some problem → problem.severity.isError = true

theorem grave_none (operand : StorageOperand) : Grave (operand, none) := nofun

/-- An outcome with an error is grave. -/
theorem grave_some (operand : StorageOperand) {problem : Problem}
    (h : problem.severity.isError = true) : Grave (operand, some problem) := by
  rintro _ ⟨⟩
  exact h

/-- A step that may fail with an error only. -/
theorem grave_bind {α : Type} {x : Generate (Except Problem α)}
    {f : Except Problem α → Generate (StorageOperand × Option Problem)}
    (hx : ∀ problem, (exec x r g).1 = .error problem →
      problem.severity.isError = true)
    (hfail : ∀ problem, problem.severity.isError = true → ∀ r g,
      Grave (exec (f (.error problem)) r g).1)
    (hf : ∀ a r g, Grave (exec (f (.ok a)) r g).1) :
    Grave (exec (x >>= f) r g).1 := by
  rw [exec_bind]
  cases hresult : (exec x r g).1 with
  | error problem => exact hfail problem (hx problem hresult) _ _
  | ok a => exact hf a _ _

/-- A choice fails if no domain reaches the value. -/
theorem isFailure_resolve {v : Value}
    {problem : Problem} (h : (exec (resolve v) r g).1 = .error problem) :
    Expression.IsFailure problem := by
  unfold resolve at h
  extract_lets search at h
  have hsearch : ∀ sectionId, (exec (search sectionId) r g).1 = .error problem →
      Expression.IsFailure problem := by
    intro sectionId h
    unfold search at h
    rw [exec_bind, exec_generation] at h
    simp only [exec_bind, exec_modifyGeneration] at h
    split at h
    · cases h
    · cases h
      exact ⟨rfl, nofun⟩
  split at h
  · split at h
    · cases h
    · exact hsearch _ h
  · split at h
    · cases h
      exact ⟨rfl, nofun⟩
    · exact hsearch _ h
  · cases h
    exact ⟨rfl, nofun⟩

theorem isError_evaluate {usage : Usage} {text : Bytes} {problem : Problem}
    (h : (exec (evaluate usage text) r g).1 = .error problem) :
    problem.severity.isError = true :=
  Expression.isError_evaluate h

/-- What is wrong with an implicit base is an error. -/
theorem grave_implicitBase (operand : StorageOperand) (v : Value) :
    Grave (exec (implicitBase operand v) r g).1 :=
  grave_bind (fun _ h => (isFailure_resolve h).1)
    (fun _ h _ _ => grave_some _ h)
    fun _ _ _ => grave_none _

/-- So is what is wrong with an explicit one. -/
theorem grave_explicitBase (operand : StorageOperand) (v : Value)
    (text : Bytes) :
    Grave (exec (explicitBase operand v text) r g).1 := by
  refine grave_bind (fun _ => isError_register) (fun _ h _ _ => grave_some _ h)
    fun q r g => ?_
  simp only
  split
  · exact grave_some _ rfl
  · split
    · exact grave_some _ rfl
    · exact grave_none _

/-- So is what is wrong with an expression. -/
theorem grave_expressionOperand (kind : Inner) (usage : Usage) (text : Bytes) :
    Grave (exec (expressionOperand kind usage text) r g).1 := by
  have hallowed : (if kind = .base then 1 else 2) = kind.allowed := rfl
  unfold expressionOperand
  simp only [hallowed]
  split
  · exact grave_some _ rfl
  · refine grave_bind (fun _ => isError_evaluate)
      (fun _ h _ _ => grave_some _ h) fun result r g => ?_
    refine grave_bind (fun _ => isError_innerValue)
      (fun _ h _ _ => grave_some _ h) fun inner r g => ?_
    simp only
    split
    · exact grave_explicitBase _ _ _
    · exact grave_implicitBase _ _

/-- **Whatever is wrong with an operand in storage is an error.** -/
theorem grave_storageOperand (op : Instruction) (kind : Inner) (i : Nat)
    (text : Bytes) :
    Grave (exec (storageOperand op kind i text) r g).1 := by
  unfold storageOperand
  rw [exec_bind, exec_record, exec_bind, exec_generation]
  simp only
  split
  · exact grave_implicitBase _ _
  · split
    · exact grave_some _ rfl
    · exact grave_expressionOperand _ _ _

end Generate

end System370
