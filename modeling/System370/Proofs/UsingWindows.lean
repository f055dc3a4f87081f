import Mathlib.Data.Fintype.Card
import System370.Proofs.RegisterCalls

/-!
# Windows of base registers

A `USING` statement for a value opens one window of 4096 octets after the other,
each with its own register.  Together they serve the addresses from the value
on, up to the end of the section that the value is in; those of an absolute
value serve every section.

* `Record.covers_usedDomain`: what one register of the statement reaches;
* `BaseRegisters.window_of_promises`: what all of them reach;
* `Generate.windows_useBases`: a `USING` statement opens its windows, or reports
  an error and does nothing.
-/

namespace System370

/-- The address behind the last octet of a section.  Dummy sections begin at
zero. -/
def Section.limit (s : Section) : Int64 :=
  if 0 < s.id then s.base + s.length else s.length

namespace Record

/-- How many octets some registers reach from a value on, without leaving its
section. -/
def reachFrom (t : SymbolTable) (v : Value) (count : Nat) : Int :=
  match Generate.remainingFrom t v with
  | some left => min (4096 * count) left.toInt
  | none => 4096 * count

variable {t : SymbolTable} {v : Value} {s : Section}
  {address displacement : Int64} {sectionId : Int}

/-- An absolute value is not in any section. -/
theorem reachFrom_of_isAbsolute (h : v.isAbsolute = true) (count : Nat) :
    reachFrom t v count = 4096 * count := by
  unfold reachFrom Generate.remainingFrom
  rw [if_pos h]

/-- What remains of a section behind a value, and nothing if it lies behind. -/
theorem remainingFrom_of_section (h : v.isAbsolute = false)
    (hsection : t.section? v.sectionId = some s) : Generate.remainingFrom t v =
      some (if s.limit - v.number < 0 then 0 else s.limit - v.number) := by
  unfold Generate.remainingFrom Section.limit
  rw [if_neg (by simp [h]), hsection]
  by_cases hcontrol : 0 < s.id
  · simp only [if_pos hcontrol]
  · simp only [if_neg hcontrol]

/-- A value in a section reaches to its end, if it is not behind it already. -/
theorem reachFrom_of_section (h : v.isAbsolute = false)
    (hsection : t.section? v.sectionId = some s)
    (hdistance : (s.limit - v.number).toInt = s.limit.toInt - v.number.toInt)
    (count : Nat) :
    reachFrom t v count =
      min (4096 * (count : Int)) (max 0 (s.limit.toInt - v.number.toInt)) := by
  unfold reachFrom
  rw [remainingFrom_of_section h hsection]
  simp only
  split
  · rename_i hbehind
    rw [Int64.lt_iff_toInt_lt, Int64.toInt_zero, hdistance] at hbehind
    rw [Int64.toInt_zero]
    omega
  · rename_i hwithin
    rw [Int64.lt_iff_toInt_lt, Int64.toInt_zero, hdistance] at hwithin
    rw [hdistance]
    omega

theorem remainingFrom_nonneg {left : Int64}
    (h : Generate.remainingFrom t v = some left) :
    0 ≤ left.toInt := by
  unfold Generate.remainingFrom at h
  split at h
  · cases h
  · extract_lets distance at h
    obtain rfl := Option.some.inj h
    split
    · exact Int.le_refl _
    · rename_i hnonneg
      rwa [Int64.lt_iff_toInt_lt, Int64.toInt_zero, Int.not_lt] at hnonneg

section Reach

variable {count k : Nat} (hk : k < count) (hcount : count ≤ 16)
include hk hcount

theorem toInt_skip : (Int64.ofNat k * 4096).toInt = 4096 * k := by
  rw [Int64.toInt_mul, Int64.toInt_ofNat_of_lt (by omega),
    show (4096 : Int64).toInt = 4096 from rfl,
    Int.bmod_eq_of_le (by omega) (by omega)]
  omega

/-- What remains for a register is enough just if the displacement stays in
reach. -/
theorem lt_remaining_iff (line : Int)
    (hlow : 0 ≤ displacement.toInt) (hhigh : displacement.toInt < 4096) :
    displacement < (usedDomain t v k line).remaining ↔
    4096 * k + displacement.toInt < reachFrom t v count := by
  have hskip := toInt_skip hk hcount
  unfold usedDomain reachFrom
  cases hleft : Generate.remainingFrom t v with
  | none =>
      rw [Int64.lt_iff_toInt_lt,
        show Int64.maxValue.toInt = 2 ^ 63 - 1 from rfl]
      simp only
      omega
  | some left =>
      have hnonneg := remainingFrom_nonneg hleft
      have hlt := left.toInt_lt
      have hsub : (left - Int64.ofNat k * 4096).toInt =
          left.toInt - 4096 * k := by
        rw [toInt_sub_of_range (by omega) (by omega), hskip]
      simp only [Int64.lt_iff_toInt_lt, Int64.toInt_zero, hsub]
      split
      · rw [Int64.toInt_zero]
        omega
      · rw [hsub]
        omega

/-- Within reach no sum wraps. -/
theorem add_eq_iff_of_reach
    (hend : v.number.toInt + reachFrom t v count ≤ 2 ^ 63)
    (hlow : 0 ≤ displacement.toInt)
    (hreach : 4096 * k + displacement.toInt < reachFrom t v count) :
    v.number + Int64.ofNat k * 4096 + displacement = address ↔
      address.toInt = v.number.toInt + 4096 * k + displacement.toInt := by
  have hvalue := v.number.le_toInt
  have hskip := toInt_skip hk hcount
  have hbase : (v.number + Int64.ofNat k * 4096).toInt =
      v.number.toInt + 4096 * k := by
    rw [toInt_add_of_range (by omega) (by omega), hskip]
  have htotal : (v.number + Int64.ofNat k * 4096 + displacement).toInt =
      v.number.toInt + 4096 * k + displacement.toInt := by
    rw [toInt_add_of_range (by omega) (by omega), hbase]
  rw [← Int64.toInt_inj, htotal, eq_comm]

end Reach

/-- **One register** reaches the 4096 octets behind those of the registers
before it, as far as there are any. -/
theorem covers_usedDomain {count k : Nat} (hk : k < count) (hcount : count ≤ 16)
    (hend : v.number.toInt + reachFrom t v count ≤ 2 ^ 63) (line : Int) :
    (usedDomain t v k line).Covers address sectionId displacement ↔
      (v.sectionId = sectionId ∨ v.sectionId = 0) ∧
      0 ≤ displacement.toInt ∧ displacement.toInt < 4096 ∧
      address.toInt = v.number.toInt + 4096 * k + displacement.toInt ∧
      4096 * k + displacement.toInt < reachFrom t v count := by
  have hsmall : displacement < 4096 ↔ displacement.toInt < 4096 := by
    rw [Int64.lt_iff_toInt_lt]
    rfl
  constructor
  · intro h
    have hlow := (nonneg_iff _).mp h.nonneg
    have hhigh := hsmall.mp h.small
    have hreach := (lt_remaining_iff hk hcount line hlow hhigh).mp h.remaining
    exact ⟨h.scope, hlow, hhigh,
      (add_eq_iff_of_reach hk hcount hend hlow hreach).mp h.sum, hreach⟩
  · rintro ⟨hscope, hlow, hhigh, haddress, hreach⟩
    exact ⟨(add_eq_iff_of_reach hk hcount hend hlow hreach).mpr haddress,
      hscope, (nonneg_iff _).mpr hlow, hsmall.mpr hhigh,
      (lt_remaining_iff hk hcount line hlow hhigh).mpr hreach⟩

end Record

namespace BaseRegisters

/-- Whether questions about a section have an answer just for the addresses from
`start` up to `stop`, and the registers in turn answer for 4096 of them each. -/
def Window (b : BaseRegisters) (registers : List Register) (sectionId : Int)
    (start : Int64) (stop : Int) : Prop :=
  ∀ address : Int64,
    ((b.resolve address sectionId).1.isSome ↔
      start.toInt ≤ address.toInt ∧ address.toInt < stop) ∧
    ∀ c ∈ (b.resolve address sectionId).1, ∃ k : Nat,
      (k : Int) = (address.toInt - start.toInt) / 4096 ∧
      registers[k]? = some c.register ∧
      c.displacement.toInt = address.toInt - start.toInt - 4096 * k

variable {b : BaseRegisters} {t : SymbolTable} {v : Value}
  {registers : List Register} {line : Int}

/-- Different registers are sixteen at most. -/
theorem length_le_of_nodup (h : registers.Nodup) : registers.length ≤ 16 := by
  have hle := h.length_le_card
  simpa using hle

/-- The ways to reach an address are those of the registers that have a
domain. -/
theorem reaches_iff_used
    (hpromises : ∀ register d, b.promise? register = some d ↔ ∃ k : Nat,
      registers[k]? = some register ∧ d = Record.usedDomain t v k line)
    {address : Int64} {sectionId : Int} {c : Choice} :
    b.Reaches address sectionId c ↔
    ∃ k : Nat, registers[k]? = some c.register ∧
      (Record.usedDomain t v k line).Covers address sectionId
        c.displacement := by
  rw [reaches_iff_promises]
  constructor
  · rintro ⟨d, hd, hcovers⟩
    obtain ⟨k, hk, rfl⟩ := (hpromises _ _).mp hd
    exact ⟨k, hk, hcovers⟩
  · rintro ⟨k, hk, hcovers⟩
    exact ⟨_, (hpromises _ _).mpr ⟨k, hk, rfl⟩, hcovers⟩

/-- **All registers** of a statement together reach one window. -/
theorem window_of_promises (hnodup : registers.Nodup)
    (hpromises : ∀ register d, b.promise? register = some d ↔ ∃ k : Nat,
      registers[k]? = some register ∧ d = Record.usedDomain t v k line)
    (hend : v.number.toInt + Record.reachFrom t v registers.length ≤ 2 ^ 63)
    {sectionId : Int} (hscope : v.sectionId = sectionId ∨ v.sectionId = 0) :
    b.Window registers sectionId v.number
      (v.number.toInt + Record.reachFrom t v registers.length) := by
  have hcount := length_le_of_nodup hnodup
  have hreaches : ∀ (address : Int64) (c : Choice),
      b.Reaches address sectionId c ↔
      ∃ k : Nat, registers[k]? = some c.register ∧
        (0 ≤ c.displacement.toInt ∧ c.displacement.toInt < 4096 ∧
          address.toInt = v.number.toInt + 4096 * k + c.displacement.toInt ∧
          4096 * k + c.displacement.toInt < Record.reachFrom t v
            registers.length) := by
    intro address c
    rw [reaches_iff_used hpromises]
    refine exists_congr fun k => and_congr_right fun hk => ?_
    have hlt := (List.getElem?_eq_some_iff.mp hk).1
    rw [Record.covers_usedDomain hlt hcount hend]
    exact and_iff_right hscope
  intro address
  have hresolves := b.resolves address sectionId
  refine ⟨hresolves.found.trans ⟨?_, ?_⟩, fun c hc => ?_⟩
  · rintro ⟨c, hc⟩
    obtain ⟨k, -, hlow, -, haddress, hreach⟩ := (hreaches _ _).mp hc
    omega
  · -- the register and the displacement are quotient and remainder
    rintro ⟨hlow, hhigh⟩
    have hle : Record.reachFrom t v registers.length ≤
        4096 * registers.length := by
      unfold Record.reachFrom
      split <;> omega
    obtain ⟨distance, hdistance⟩ :=
      Int.eq_ofNat_of_zero_le (show 0 ≤ address.toInt - v.number.toInt by omega)
    have hlt : distance / 4096 < registers.length := by omega
    have hdisplacement : (Int64.ofNat (distance % 4096)).toInt =
        (distance % 4096 : Nat) :=
      Int64.toInt_ofNat_of_lt (by omega)
    refine ⟨⟨registers[distance / 4096], Int64.ofNat (distance % 4096)⟩,
      (hreaches _ _).mpr
      ⟨distance / 4096, List.getElem?_eq_getElem hlt, ?_⟩⟩
    simp only [hdisplacement]
    omega
  · obtain ⟨k, hk, hlow, hhigh, haddress, -⟩ :=
      (hreaches _ _).mp (hresolves.best c hc).1
    exact ⟨k, by omega, hk, by omega⟩

/-- The windows that registers open at a value, where neither the addresses in
them nor the distance to the end of the section wrap.  Those of an absolute
value serve every section, and those of any other value only its own, up to the
end of it. -/
structure Windows (b : BaseRegisters) (t : SymbolTable)
    (registers : List Register) (v : Value) :
    Prop where
  absolute : v.isAbsolute = true →
    v.number.toInt + 4096 * registers.length ≤ 2 ^ 63 →
    ∀ sectionId, b.Window registers sectionId v.number
      (v.number.toInt + 4096 * registers.length)
  relocatable : v.isAbsolute = false → ∀ s, t.section? v.sectionId = some s →
    (s.limit - v.number).toInt = s.limit.toInt - v.number.toInt →
      b.Window registers v.sectionId v.number
        (min (v.number.toInt + 4096 * registers.length) s.limit.toInt)
  foreign : v.isAbsolute = false → ∀ sectionId ≠ v.sectionId, ∀ address,
    (b.resolve address sectionId).1 = none

/-- **The windows of a statement** follow from what it promises. -/
theorem windows_of_promises (line : Int) (hnodup : registers.Nodup)
    (haddressable : v.isAbsolute = true ∨ v.sectionId ≠ 0)
    (hpromises : ∀ register d, b.promise? register = some d ↔ ∃ k : Nat,
      registers[k]? = some register ∧ d = Record.usedDomain t v k line) :
    b.Windows t registers v := by
  constructor
  case absolute =>
    intro habsolute hend sectionId
    have hscope : v.sectionId = 0 := by
      unfold Value.sectionId
      rw [List.isEmpty_iff.mp habsolute]
    have hreach :=
      Record.reachFrom_of_isAbsolute (t := t) habsolute registers.length
    rw [← hreach] at hend ⊢
    exact window_of_promises hnodup hpromises hend (Or.inr hscope)
  case relocatable =>
    intro hrelocatable s hsection hdistance
    have hreach := Record.reachFrom_of_section hrelocatable hsection hdistance
      registers.length
    have hvalue := v.number.toInt_lt
    have hlimit := s.limit.toInt_lt
    have hwindow := window_of_promises hnodup hpromises (by omega)
      (Or.inl (rfl : v.sectionId = v.sectionId))
    intro address
    obtain ⟨hfound, hchoice⟩ := hwindow address
    exact ⟨hfound.trans (by omega), hchoice⟩
  case foreign =>
    intro hrelocatable sectionId hne address
    have hresolves := b.resolves address sectionId
    cases hanswer : (b.resolve address sectionId).1 with
    | none => rfl
    | some c =>
        obtain ⟨k, -, hcovers⟩ :=
          (reaches_iff_used hpromises).mp (hresolves.best c hanswer).1
        have hzero : v.sectionId ≠ 0 :=
          haddressable.resolve_left (by simp [hrelocatable])
        rcases hcovers.scope with hsame | hnone
        · exact absurd hsame.symm hne
        · exact absurd hnone hzero

end BaseRegisters

namespace Generate

/-- A register that had a domain before is mentioned, but not as an error. -/
theorem reports_useRegisters (v : Value) (remaining : Option Int64) (k : Nat)
    (registers : List Register) (r : Record) (g : Generation) :
    ∃ more, (exec (useRegisters v remaining k registers) r g).2.2.diagnostics =
        g.diagnostics ++ more ∧ ∀ d ∈ more, d.severity.isError = false := by
  induction registers generalizing k r g with
  | nil => exact ⟨[], (List.append_nil _).symm, by simp⟩
  | cons q rest ih =>
      rw [useRegisters]
      simp only [exec_bind, exec_statement, exec_generation]
      cases g.bases.domain? q with
      | none => exact ih _ _ _
      | some previous =>
          obtain ⟨more, hmore, hmild⟩ := ih (k + 1) _ _
          refine ⟨_ :: more, hmore.trans (List.append_assoc _ _ _),
            fun d hd => ?_⟩
          rcases List.mem_cons.mp hd with rfl | hd
          · rfl
          · exact hmild d hd

/-- **A `USING` statement opens its windows, or does nothing.**  It reports an
error just if it has registers, but one of them is wrong or named twice, or its
first operand has no value in a section or without one; then no domain changes.
Otherwise it is for some registers and a value.  Where no register had a domain
before, the registers in turn serve 4096 addresses each from the value on: all
of them for an absolute value, and else those before the end of its section. -/
theorem windows_useBases (r : Record) (g : Generation) :
    ∃ more, (exec useBases r g).2.2.diagnostics = g.diagnostics ++ more ∧
      ((∃ d ∈ more, d.severity.isError = true) ↔
        2 ≤ r.statement.operands.length ∧
        ∀ registers v, ¬ r.Offers g.symbols registers v) ∧
      ((∃ d ∈ more, d.severity.isError = true) →
        (exec useBases r g).2.2.bases = g.bases) ∧
      (g.bases = {} → ∀ registers v, r.Offers g.symbols registers v →
        (exec useBases r g).2.2.bases.Windows g.symbols registers v) := by
  have hreads : g.Reads g.symbols := ⟨rfl, fun _ => rfl⟩
  rcases useBases_cases (r := r) hreads with
    ⟨registers, v, r₁, g₁, hsome, hoffers, hkept, hspares, hexec⟩ |
    ⟨hfew, hexec⟩ | ⟨hmany, hnone, d, herror, hspares⟩
  case inl =>
    have hstatement : r₁.statement = r.statement := by rw [hkept.record]
    obtain ⟨more, hmore, hmild⟩ :=
      reports_useRegisters v (remainingFrom g.symbols v) 0 registers r₁ g₁
    have hnotError : ¬ ∃ d ∈ more, d.severity.isError = true := by
      rintro ⟨d, hd, herror⟩
      simp [hmild d hd] at herror
    rw [hexec]
    refine ⟨more, ?_, ?_, fun herror => absurd herror hnotError,
      fun hempty others w hothers => ?_⟩
    · rw [hmore, hspares.diagnostics, List.append_nil]
    · exact iff_of_false hnotError fun ⟨_, hnone⟩ => hnone registers v hoffers
    · obtain ⟨rfl, rfl⟩ := hoffers.unique hothers
      refine BaseRegisters.windows_of_promises r.statement.line hoffers.differ
        hoffers.addressable fun register d => ?_
      obtain ⟨hgiven, hother⟩ :=
        useRegisters_spec (t := g.symbols) v 0 hoffers.differ r₁ g₁ register
      rw [hstatement] at hgiven
      constructor
      · intro hd
        by_cases hmem : register ∈ registers
        · obtain ⟨k, hk⟩ := List.getElem?_of_mem hmem
          rw [hgiven k hk, Nat.zero_add] at hd
          exact ⟨k, hk, (Option.some.inj hd).symm⟩
        · rw [hother hmem, hspares.bases, hempty,
            BaseRegisters.promise?_empty] at hd
          cases hd
      · rintro ⟨k, hk, rfl⟩
        rw [hgiven k hk, Nat.zero_add]
  case inr.inl =>
    rw [hexec]
    refine ⟨[], (List.append_nil _).symm, ?_, fun _ => rfl,
      fun hempty registers v hoffers => ?_⟩
    · exact iff_of_false (by simp) fun ⟨hmany, _⟩ => absurd hmany (by omega)
    · have hlength := congrArg List.length hoffers.named
      rw [List.length_map, List.length_map, List.length_drop] at hlength
      obtain rfl :=
        List.length_eq_zero_iff.mp (show registers.length = 0 by omega)
      refine BaseRegisters.windows_of_promises 0 hoffers.differ
        hoffers.addressable
        fun register d => ?_
      simp [hempty]
  case inr.inr =>
    refine ⟨[d], hspares.diagnostics, ?_, fun _ => hspares.bases,
      fun _ registers v hoffers => ?_⟩
    · simp [herror, hmany, hnone]
    · exact absurd hoffers (hnone registers v)

/-- Two registers for octet 8 of a section with 6000 octets: the second one
serves only the octets that are there. -/
theorem windows_useBases_short :
    let t : SymbolTable :=
      { sections :=
          [{ id := 1, label := bytes "CODE", kind := .named, length := 6000
             line := 1 }] }
    let s : Statement :=
      { line := 2, lines := [], position := { line := 2, column := 1 }
        operands := [bytes "*", bytes "12", bytes "11"] }
    let r : Record :=
      { statement := s, directive := some .use, body := .located
        sectionId := 1, loc := 8 }
    let g : Generation := { symbols := t, literals := { limit := 0 } }
    (exec useBases r g).2.2.bases.Window [12, 11] 1 8 6000 := by
  intro t s r g
  obtain ⟨more, -, -, -, hwindows⟩ := windows_useBases r g
  have hoffers : r.Offers t [12, 11] (.relocatable 8 1) :=
    ⟨by decide +kernel, by decide, ⟨⟨_, 1⟩, by decide +kernel, rfl⟩,
      Or.inr (by decide)⟩
  exact (hwindows rfl [12, 11] _ hoffers).relocatable rfl _ rfl
    (by decide +kernel)

end Generate

end System370
