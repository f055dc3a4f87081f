import Mathlib.Data.List.Induction
import System370.Proofs.BaseHistory

/-!
# Calls on the base registers

The registers are given domains, lose them and are asked for addresses in any
order.  `Call` lists the three kinds of calls; `after` makes them one after the
other, and `events` keeps what each of them chose.

Asking for an address gives the register that leads there by the smallest
displacement, the highest one of several (`resolves`).  It leaves a trace in the
domain of that register alone: a domain knows the greatest displacement that its
register won since it got the domain (`peak_after`).

* `map_active_after`: the active registers are those whose last `use` was not
  followed by a `drop`;
* `selects_nearest`: what one question comes to, and what domains know after any
  calls.
-/

namespace System370

namespace BaseRegisters

variable {b : BaseRegisters} {register : Register} {address : Int64}
  {sectionId : Int}

/-! ### Domains after a call -/

/-- `USING` of a register replaces its domain. -/
theorem domain?_use (b : BaseRegisters) (r register : Register) (base : Int64)
    (sectionId : Int) (remaining : Int64) (line : Int) :
    (b.use r base sectionId remaining line).domain? register =
      if register = r then
        some { base, sectionId, line
               remaining :=
                 if remaining < 0 then Int64.maxValue else remaining }
      else b.domain? register := by
  unfold domain? use
  simp only [Fin.getElem_fin, Vector.getElem_set, Fin.val_inj,
    @eq_comm _ register r]

/-- `DROP` of a register closes its domain. -/
theorem domain?_drop (b : BaseRegisters) (r register : Register) :
    (b.drop r).domain? register = if register = r then none else
      b.domain? register := by
  unfold domain? drop
  simp only [Fin.getElem_fin, Vector.getElem_set, Fin.val_inj,
    @eq_comm _ register r]

@[simp] theorem domain?_empty (register : Register) :
    domain? {} register = none := by
  simp [domain?]

/-! ### One question -/

/-- Whether the domain of a register reaches an address by a displacement. -/
def Reaches (b : BaseRegisters) (address : Int64) (sectionId : Int)
    (c : Choice) : Prop :=
  ∃ d, b.domain? c.register = some d ∧ d.Covers address sectionId c.displacement

/-- What the displacements used before are does not matter. -/
theorem reaches_iff_promises {c : Choice} : b.Reaches address sectionId c ↔
    ∃ d, b.Promises c.register d ∧
      d.Covers address sectionId c.displacement := by
  unfold Reaches Promises promise?
  constructor
  · rintro ⟨d, hd, hcovers⟩
    exact ⟨{ d with maxDisplacement := -1 }, by rw [hd]; rfl, hcovers.sum,
      hcovers.scope, hcovers.nonneg, hcovers.small, hcovers.remaining⟩
  · rintro ⟨d, hd, hcovers⟩
    obtain ⟨d₀, hd₀, rfl⟩ := Option.map_eq_some_iff.mp hd
    exact ⟨d₀, hd₀, hcovers.sum, hcovers.scope, hcovers.nonneg, hcovers.small,
      hcovers.remaining⟩

/-- Nothing is chosen only if no domain reaches the address. -/
theorem not_reaches_of_choose? (h : b.choose? address sectionId = none)
    (c : Choice) :
    ¬ b.Reaches address sectionId c := by
  intro hreaches
  have hmem := mem_candidates.mpr (reaches_iff_promises.mp hreaches)
  unfold choose? at h
  generalize ((List.finRange 16).reverse.filterMap fun r =>
    ((b.domain? r).bind (·.displacement? address sectionId)).map
      (Choice.mk r)) = items at *
  have hkept : ∀ (items : List Choice) (found : Choice),
      (items.foldl better (some found)).isSome := by
    intro items
    induction items with
    | nil => exact fun _ => rfl
    | cons next rest ih =>
        intro found
        rw [List.foldl_cons, better]
        split
        · exact ih next
        · exact ih found
  cases items with
  | nil => cases hmem
  | cons first rest =>
      have hsome := hkept rest first
      rw [List.foldl_cons, better] at h
      rw [h] at hsome
      cases hsome

/-- What a question for an address comes to. -/
structure Resolves (b : BaseRegisters) (address : Int64) (sectionId : Int)
    (outcome : Option Choice × BaseRegisters) : Prop where
  /-- There is an answer just if some domain reaches the address. -/
  found : outcome.1.isSome ↔ ∃ c, b.Reaches address sectionId c
  /-- No answer changes no domain. -/
  failed : outcome.1 = none → outcome.2 = b
  /-- The answer has the smallest displacement, and the highest register of
  those that have it. -/
  best : ∀ c ∈ outcome.1, b.Reaches address sectionId c ∧
    ∀ other, b.Reaches address sectionId other → c.Beats other
  /-- The domain of the answer keeps the greatest displacement, and the others
  stay. -/
  noted : ∀ c ∈ outcome.1, ∀ register, outcome.2.domain? register =
    if register = c.register then (b.domain? register).map fun d =>
      { d with maxDisplacement := max d.maxDisplacement c.displacement }
    else b.domain? register

theorem max_eq_ite (x y : Int64) : max x y = if x ≤ y then y else x := rfl

/-- A domain keeps the greatest displacement. -/
theorem note_eq (d : Domain) (displacement : Int64) :
    d.note displacement =
      { d with maxDisplacement := max d.maxDisplacement displacement } := by
  unfold Domain.note
  rw [max_eq_ite]
  by_cases hless : d.maxDisplacement < displacement
  · rw [if_pos hless, if_pos (Int64.le_of_lt hless)]
  · rw [if_neg hless]
    split
    · rename_i hle
      have hsame : d.maxDisplacement = displacement := by
        rw [Int64.lt_iff_toInt_lt] at hless
        rw [Int64.le_iff_toInt_le] at hle
        rw [← Int64.toInt_inj]
        omega
      rw [← hsame]
    · rfl

/-- **A question for an address** gives the nearest base register. -/
theorem resolves (b : BaseRegisters) (address : Int64) (sectionId : Int) :
    b.Resolves address sectionId (b.resolve address sectionId) := by
  unfold resolve
  cases hchoice : b.choose? address sectionId with
  | none =>
      have hnone := not_reaches_of_choose? hchoice
      constructor
      case found => simp [hnone]
      case failed => exact fun _ => rfl
      case best => exact fun c hc => nomatch hc
      case noted => exact fun c hc => nomatch hc
  | some c =>
      have hbest := choose?_spec hchoice
      have hreaches : b.Reaches address sectionId c :=
        reaches_iff_promises.mpr hbest.covers
      constructor
      case found =>
        simp only [Option.isSome_some, true_iff]
        exact ⟨c, hreaches⟩
      case failed => exact fun hnone => nomatch hnone
      case best =>
        intro c' hc'
        obtain rfl : c = c' := Option.some.inj hc'
        refine ⟨hreaches, fun other hother => ?_⟩
        obtain ⟨d, hd, hcovers⟩ := reaches_iff_promises.mp hother
        exact hbest.beats other.register d other.displacement hd hcovers
      case noted =>
        intro c' hc' register
        obtain rfl : c = c' := Option.some.inj hc'
        unfold domain?
        simp only [Fin.getElem_fin, Vector.getElem_set, Fin.val_inj,
          @eq_comm _ register c.register]
        split
        · rename_i hsame
          rw [hsame]
          congr 1
          funext d
          exact note_eq d c.displacement
        · rfl

/-! ### Calls one after the other -/

/-- What is asked of the base registers. -/
inductive Call where
  | use (register : Register) (base : Int64) (sectionId : Int)
      (remaining : Int64) (line : Int)
  | drop (register : Register)
  | resolve (address : Int64) (sectionId : Int)
  deriving DecidableEq, Repr

/-- Whether a call gives a register its domain. -/
def Call.activates (register : Register) : Call → Bool
  | .use other .. => other = register
  | .drop _ | .resolve .. => false

/-- What a call chooses, and the registers after it. -/
def perform (b : BaseRegisters) : Call → Option Choice × BaseRegisters
  | .use register base sectionId remaining line =>
    (none, b.use register base sectionId remaining line)
  | .drop register => (none, b.drop register)
  | .resolve address sectionId => b.resolve address sectionId

/-- The registers after calls made one after the other. -/
def after (b : BaseRegisters) (calls : List Call) : BaseRegisters :=
  calls.foldl (fun b call => (b.perform call).2) b

/-- Calls made one after the other, with what each of them chose. -/
def events (b : BaseRegisters) : List Call → List (Call × Option Choice)
  | [] => []
  | call :: rest => (call, (b.perform call).1) :: events (b.perform call).2 rest

/-- The displacement by which an event chose a register. -/
def win? (register : Register) (event : Call × Option Choice) : Option Int64 :=
  (event.2.filter (·.register = register)).map (·.displacement)

/-- The displacements that a register won behind the last call that gave it a
domain, the latest first. -/
def wins (register : Register) (events : List (Call × Option Choice)) :
    List Int64 :=
  (events.reverse.takeWhile fun event => !event.1.activates register).filterMap
    (win? register)

@[simp] theorem after_concat (b : BaseRegisters) (calls : List Call)
    (call : Call) :
    b.after (calls ++ [call]) = ((b.after calls).perform call).2 := by
  simp [after]

/-- One call more, one event more. -/
theorem events_concat (b : BaseRegisters) (calls : List Call) (call : Call) :
    b.events (calls ++ [call]) =
      b.events calls ++ [(call, ((b.after calls).perform call).1)] := by
  induction calls generalizing b with
  | nil => rfl
  | cons first rest ih =>
      rw [List.cons_append, events, ih, events]
      rfl

/-- The last event ends what was won before, or is itself a win or none. -/
theorem wins_concat (register : Register) (events : List (Call × Option Choice))
    (event : Call × Option Choice) : wins register (events ++ [event]) =
      if event.1.activates register then []
      else (win? register event).toList ++ wins register events := by
  unfold wins
  rw [List.reverse_append, List.reverse_singleton, List.singleton_append,
    List.takeWhile_cons]
  cases event.1.activates register with
  | true => rfl
  | false =>
      simp only [Bool.not_false, if_true, Bool.false_eq_true, if_false,
        List.filterMap_cons]
      cases win? register event <;> rfl

/-! ### The registers in use -/

/-- Whether a call leaves a register in use, if it says anything about the
register. -/
def Call.leaves? (register : Register) : Call → Option Bool
  | .use other .. => if other = register then some true else none
  | .drop other => if other = register then some false else none
  | .resolve .. => none

/-- Whether the last call that says anything about a register leaves it in
use. -/
def inUse (calls : List Call) (register : Register) : Bool :=
  (calls.reverse.findSome? (·.leaves? register)).getD false

/-- **One call** leaves a register in use, takes it out of use, or leaves it as
it was. -/
theorem isSome_domain?_perform (b : BaseRegisters) (call : Call)
    (register : Register) :
    ((b.perform call).2.domain? register).isSome =
      (call.leaves? register).getD (b.domain? register).isSome := by
  cases call with
  | use other base sectionId remaining line =>
      simp only [perform, domain?_use, Call.leaves?, eq_comm (a := other)]
      split <;> rfl
  | drop other =>
      simp only [perform, domain?_drop, Call.leaves?, eq_comm (a := other)]
      split <;> rfl
  | resolve address sectionId =>
      have hresolves := b.resolves address sectionId
      simp only [perform, Call.leaves?, Option.getD_none]
      cases hanswer : (b.resolve address sectionId).1 with
      | none => rw [hresolves.failed hanswer]
      | some c =>
          rw [hresolves.noted c hanswer]
          split
          · exact Option.isSome_map ..
          · rfl

/-- A register has a domain if the last call that names it opened one. -/
theorem isSome_domain?_after (calls : List Call) (register : Register) :
    ((after {} calls).domain? register).isSome = inUse calls register := by
  induction calls using List.reverseRecOn with
  | nil =>
      rw [after, List.foldl_nil, domain?_empty]
      rfl
  | append_singleton calls call ih =>
      rw [after_concat, isSome_domain?_perform, ih, inUse, inUse,
        List.reverse_append,
        List.reverse_singleton, List.singleton_append, List.findSome?_cons]
      cases call.leaves? register <;> rfl

/-- **The active registers** after any calls are those that were given a domain
and kept it, in increasing order. -/
theorem map_active_after (calls : List Call) :
    (after {} calls).active.map (·.1) =
      (List.finRange 16).filter (inUse calls) := by
  unfold active
  rw [List.map_filterMap, ← List.filterMap_eq_filter]
  refine List.filterMap_congr fun register _ => ?_
  rw [Option.guard, ← isSome_domain?_after]
  cases (after {} calls).domain? register <;> rfl

/-! ### The greatest displacement -/

/-- Whether a number is the greatest of some displacements, or `-1` for none.
Displacements are below 4096, and so is the greatest one. -/
structure Peak (greatest : Int64) (displacements : List Int64) : Prop where
  bounds : -1 ≤ greatest ∧ greatest < 4096
  greatest : displacements = [] ∧ greatest = -1 ∨
    greatest ∈ displacements ∧ ∀ x ∈ displacements, x ≤ greatest

theorem peak_nil : Peak (-1) [] := ⟨by decide, Or.inl ⟨rfl, rfl⟩⟩

/-- One more displacement. -/
theorem Peak.cons {greatest displacement : Int64} {displacements : List Int64}
    (h : Peak greatest displacements) (hlow : 0 ≤ displacement)
    (hhigh : displacement < 4096) :
    Peak (max greatest displacement) (displacement :: displacements) := by
  obtain ⟨⟨hleast, hmost⟩, hgreatest⟩ := h
  have hless : (-1 : Int64) ≤ displacement := Int64.le_trans (by decide) hlow
  rw [max_eq_ite]
  split
  · rename_i hle
    refine ⟨⟨hless, hhigh⟩, Or.inr ⟨List.mem_cons_self, fun x hx => ?_⟩⟩
    rcases List.mem_cons.mp hx with rfl | hx
    · exact Int64.le_refl _
    · rcases hgreatest with ⟨rfl, -⟩ | ⟨-, hbound⟩
      · cases hx
      · exact Int64.le_trans (hbound x hx) hle
  · rename_i hnot
    refine ⟨⟨hleast, hmost⟩, Or.inr ?_⟩
    rcases hgreatest with ⟨-, rfl⟩ | ⟨hmem, hbound⟩
    · exact absurd hless hnot
    · refine ⟨List.mem_cons_of_mem _ hmem, fun x hx => ?_⟩
      rcases List.mem_cons.mp hx with rfl | hx
      · exact Int64.le_of_lt (Int64.not_le.mp hnot)
      · exact hbound x hx

/-- **One call** keeps the greatest displacements. -/
theorem peak_perform {events : List (Call × Option Choice)} (call : Call)
    (h : ∀ d ∈ b.domain? register,
      Peak d.maxDisplacement (wins register events)) :
    ∀ d ∈ (b.perform call).2.domain? register,
      Peak d.maxDisplacement
        (wins register (events ++ [(call, (b.perform call).1)])) := by
  intro d hd
  rw [wins_concat]
  cases call with
  | use r base sectionId remaining line =>
      simp only [perform, domain?_use] at hd
      split at hd
      · rename_i hsame
        obtain rfl := Option.some.inj hd
        have hactive : (Call.use r base sectionId remaining line).activates
            register = true := by
          simp [Call.activates, hsame]
        rw [if_pos hactive]
        exact peak_nil
      · rename_i hne
        rw [if_neg (by simpa [Call.activates] using Ne.symm hne)]
        exact h d hd
  | drop r =>
      simp only [perform, domain?_drop] at hd
      split at hd
      · cases hd
      · exact h d hd
  | resolve address sectionId =>
      have hresolves := b.resolves address sectionId
      simp only [perform, Call.activates] at hd ⊢
      cases hanswer : (b.resolve address sectionId).1 with
      | none =>
          rw [hresolves.failed hanswer] at hd
          exact h d hd
      | some c =>
          rw [hresolves.noted c hanswer] at hd
          split at hd
          · rename_i hsame
            obtain ⟨d₀, hd₀, rfl⟩ := Option.map_eq_some_iff.mp hd
            obtain ⟨_, -, hcovers⟩ := (hresolves.best c hanswer).1
            have hwin : win? register (.resolve address sectionId, some c) =
                some c.displacement := by
              simp [win?, hsame]
            rw [hwin]
            exact (h d₀ hd₀).cons hcovers.nonneg hcovers.small
          · rename_i hne
            have hnone : win? register (.resolve address sectionId,
                some c) = none := by
              simp [win?, Ne.symm hne]
            rw [hnone]
            exact h d hd

/-- **After any calls** a domain knows the greatest displacement that its
register won since it got the domain. -/
theorem peak_after (calls : List Call) (register : Register) :
    ∀ d ∈ (after {} calls).domain? register,
      Peak d.maxDisplacement (wins register (events {} calls)) := by
  induction calls using List.reverseRecOn with
  | nil =>
      intro d hd
      rw [after, List.foldl_nil, domain?_empty] at hd
      cases hd
  | append_singleton calls call ih =>
      rw [after_concat, events_concat]
      exact peak_perform call ih

/-- **The nearest base register is chosen.**  Whatever the domains are, a
question for an address has an answer just if some domain of its section, or an
absolute one, reaches it by a displacement below 4096 within what remains of the
section.  The answer has the smallest displacement, and the highest register of
those that have it; the domain of that register notes the displacement, and
nothing else changes.  After any calls on new registers, a domain has noted the
greatest displacement that its register won since the domain was given, or
none. -/
theorem selects_nearest :
    (∀ (b : BaseRegisters) (target extra : Int64) (sectionId : Int), b.Resolves
        (target + extra) sectionId (b.resolve (target + extra) sectionId)) ∧
    ∀ (calls : List Call) (register : Register),
    ∀ d ∈ (after {} calls).domain? register,
      Peak d.maxDisplacement (wins register (events {} calls)) :=
  ⟨fun b target extra sectionId => b.resolves (target + extra) sectionId,
    peak_after⟩

/-- Of an absolute domain and one of the section with the same displacement, the
higher register wins.  Giving it another domain forgets what it won. -/
example :
    let calls : List Call :=
  [.use 3 0 0 (-1) 1, .use 5 0 1 64 2, .resolve 16 1, .resolve 64 1,
      .use 5 32 1 32 3, .resolve 40 1]
    (events {} calls).map (·.2) =
        [none, none, some ⟨5, 16⟩, some ⟨3, 64⟩, none, some ⟨5, 8⟩] ∧
      ((after {} calls).domain? 5).map (·.maxDisplacement) = some 8 := by
  decide +kernel

end BaseRegisters

end System370
