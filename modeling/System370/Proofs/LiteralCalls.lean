import System370.Proofs.ProgramLayout
import Mathlib.Data.List.Dedup
import Mathlib.Data.List.Nodup

/-!
# Calls on the literal pool

Statements ask the pool for literals and flush the sections in any order.
`Call` lists both kinds of calls, `after` and `replies` make them one after the
other.

A literal is known by its number.  From the call that adds it until its section
is flushed it waits and has no place (`mem_waiting_after`); that flush places
it, and no later call names or changes it (`after_settled`).  The texts that
wait in a section are different, so interning one of them finds its literal
(`Kept.intern_again`).

* `pool_laws`: what holds after any calls, of the next call and of all that
  follow.
-/

namespace System370

namespace LiteralPool

/-! ### The calls -/

/-- What is asked of the pool. -/
inductive Call where
  | intern (sectionId : Int) (text : Bytes)
      (descriptor : Option Constant.Descriptor) (line : Int)
  | flush (sectionId : Int) (loc : Int64)
  deriving DecidableEq, Repr

/-- Whether a call flushes a section. -/
def Call.Flushes (sectionId : Int) : Call → Prop
  | .intern .. => False
  | .flush other _ => other = sectionId

/-- What the pool answers. -/
inductive Reply where
  | interned (literal : Literal)
  | refused (e : LiteralError)
  | flushed (placed : List Literal) (behind : Int64)
  deriving DecidableEq, Repr

/-- The number of the literal that interning gave. -/
def Reply.interned? : Reply → Option Nat
  | .interned literal => some literal.id
  | .refused _ | .flushed .. => none

/-- The numbers of all literals in a reply. -/
def Reply.ids : Reply → List Nat
  | .interned literal => [literal.id]
  | .refused _ => []
  | .flushed placed _ => placed.map (·.id)

/-- The reply to a call, and the pool after it. -/
def perform (p : LiteralPool) : Call → Reply × LiteralPool
  | .intern sectionId text descriptor line =>
    match p.intern sectionId text descriptor line with
    | .ok (p, literal) => (.interned literal, p)
    | .error e => (.refused e, p)
  | .flush sectionId loc =>
    let f := p.flush sectionId loc
    (.flushed f.placed f.behind, f.pool)

/-- The pool after calls made one after the other. -/
def after (p : LiteralPool) (calls : List Call) : LiteralPool :=
  calls.foldl (fun p call => (p.perform call).2) p

/-- The replies to calls made one after the other. -/
def replies (p : LiteralPool) : List Call → List Reply
  | [] => []
  | call :: rest => (p.perform call).1 :: replies (p.perform call).2 rest

/-- The numbers that interning gave. -/
def interned (p : LiteralPool) (calls : List Call) : List Nat :=
  (p.replies calls).filterMap Reply.interned?

variable {p : LiteralPool} {sectionId : Int}

@[simp] theorem after_cons (p : LiteralPool) (call : Call) (rest : List Call) :
    p.after (call :: rest) = (p.perform call).2.after rest := rfl

/-! ### Interning -/

/-- No literal is found by a text that none of those that wait has. -/
theorem find?_eq_none_iff {text : Bytes} :
    p.find? sectionId text = none ↔ ∀ l ∈ p.waiting sectionId,
    l.text ≠ text := by
  rw [find?_eq, List.find?_eq_none]
  simp

/-- What interning comes to. -/
inductive Interns (p : LiteralPool) (sectionId : Int) (text : Bytes)
    (descriptor : Option Constant.Descriptor) (line : Int) :
    Except LiteralError (LiteralPool × Literal) → Prop where
  | outside (h : sectionId ≤ 0) :
      Interns p sectionId text descriptor line (.error (.outsideSection text))
  | again {l : Literal} (h : 0 < sectionId) (hl : l ∈ p.waiting sectionId)
      (htext : l.text = text) :
      Interns p sectionId text descriptor line (.ok (p, l))
  | full (h : 0 < sectionId) (hnew : p.find? sectionId text = none)
      (hfull : p.limit ≤ p.literals.length) :
      Interns p sectionId text descriptor line (.error (.tooMany p.limit))
  | first (h : 0 < sectionId) (hnew : p.find? sectionId text = none)
      (hroom : p.literals.length < p.limit) :
      Interns p sectionId text descriptor line
        (.ok (p.add sectionId text descriptor line hnew,
          p.fresh sectionId text descriptor line))

/-- `intern` does what is said of it. -/
theorem interns_intern (p : LiteralPool) (sectionId : Int)
    (text : Bytes) (descriptor : Option Constant.Descriptor) (line : Int) :
    Interns p sectionId text descriptor line
      (p.intern sectionId text descriptor line) := by
  rcases Int.lt_or_le 0 sectionId with hpos | hle
  · cases hfound : p.find? sectionId text with
    | some l =>
        rw [intern_of_some descriptor line hpos hfound]
        rw [find?_eq] at hfound
        have htext := List.find?_some hfound
        exact .again hpos (List.mem_of_find?_eq_some hfound)
          (by simpa using htext)
    | none =>
        rw [intern_of_none descriptor line hpos hfound, p.inStep.counted]
        split
        · exact .full hpos hfound ‹_›
        · exact .first hpos hfound (by omega)
  · rw [intern_outside descriptor line hle]
    exact .outside hle

/-- A literal that was added waits in its section, and nothing else has
changed. -/
theorem waiting_add (p : LiteralPool) {text : Bytes}
    (descriptor : Option Constant.Descriptor) (line : Int)
    (hnew : p.find? sectionId text = none) (other : Int) :
    (p.add sectionId text descriptor line hnew).waiting other =
      if other = sectionId then
        p.waiting other ++ [p.fresh sectionId text descriptor line]
      else p.waiting other := by
  simp only [waiting_eq, add, List.filter_append]
  by_cases hsame : other = sectionId
  · simp [Literal.waitsIn, fresh, hsame]
  · have hnot : (p.fresh sectionId text descriptor line).waitsIn other =
        false := by
      simp [Literal.waitsIn, fresh, Ne.symm hsame]
    simp [hnot, hsame]

/-! ### What holds between calls -/

/-- What every call keeps: literals belong to control sections, and the texts
that wait in a section are different. -/
structure Kept (p : LiteralPool) : Prop where
  housed : ∀ l ∈ p.literals, 0 < l.sectionId
  texts : ∀ sectionId, ((p.waiting sectionId).map (·.text)).Nodup

/-- The number of a literal is among those given so far. -/
theorem id_lt {l : Literal} (hl : l ∈ p.literals) : l.id < p.literals.length :=
  (List.getElem?_eq_some_iff.mp (p.inStep.getElem?_id hl)).1

/-- The empty pool keeps the laws. -/
theorem kept_new (limit : Int) : Kept { limit } := by
  constructor <;> simp [waiting_eq]

/-- A literal joins and the laws are kept. -/
theorem Kept.add (h : p.Kept) {text : Bytes}
    (descriptor : Option Constant.Descriptor)
    (line : Int) (hpos : 0 < sectionId) (hnew : p.find? sectionId text = none) :
    (p.add sectionId text descriptor line hnew).Kept := by
  refine ⟨fun l hl => ?_, fun other => ?_⟩
  · rcases List.mem_append.mp hl with hold | hlast
    · exact h.housed l hold
    · rw [List.mem_singleton.mp hlast]
      exact hpos
  · rw [waiting_add]
    by_cases hsame : other = sectionId
    · subst hsame
      rw [if_pos rfl, List.map_append, List.map_singleton, List.nodup_append]
      refine ⟨h.texts other, by simp, fun a ha b hb => ?_⟩
      obtain ⟨l, hl, rfl⟩ := List.mem_map.mp ha
      rw [List.mem_singleton.mp hb]
      exact find?_eq_none_iff.mp hnew l hl
    · rw [if_neg hsame]
      exact h.texts other

/-! ### Flushing -/

/-- The literals of a section are placed by boundaries, from a doubleword on. -/
theorem placed_flush_eq (p : LiteralPool) (sectionId : Int) (loc : Int64) :
    (p.flush sectionId loc).placed =
      (placeFrom (alignUp loc 8) (grouped (p.waiting sectionId))).1 := by
  by_cases hnil : p.waiting sectionId = []
  · rw [flush_of_nil hnil, hnil]
    rfl
  · rw [flush_of_ne hnil]

/-- Flushing a section takes its table away. -/
theorem waiting_flush (p : LiteralPool) (sectionId : Int) (loc : Int64)
    (other : Int) :
    (p.flush sectionId loc).pool.waiting other =
      if other = sectionId then [] else p.waiting other := by
  obtain ⟨start, hpool⟩ : ∃ start,
      (p.flush sectionId loc).pool = p.settle sectionId start :=
    ⟨_, rfl⟩
  have hliterals : (p.settle sectionId start).literals =
      p.literals.map (replace
        (placeFrom start (grouped (waitingOf p.literals sectionId))).1) := by
    show p.literals.map
      (replace (placeFrom start (grouped (p.waiting sectionId))).1) = _
    rw [waiting_eq, waitingOf]
  rw [hpool, waiting_eq, waiting_eq, hliterals]
  exact waitingOf_map
    (fun l hl => p.inStep.replace_spec sectionId start hl) other

/-- A flush keeps the laws. -/
theorem Kept.flush (h : p.Kept) (sectionId : Int) (loc : Int64) :
    (p.flush sectionId loc).pool.Kept := by
  refine ⟨fun l hl => ?_, fun other => ?_⟩
  · obtain ⟨old, hold, heq⟩ := (flush_spec p sectionId loc).described l hl
    rw [heq]
    exact h.housed old hold
  · rw [waiting_flush]
    split
    · exact List.nodup_nil
    · exact h.texts other

/-! ### One call -/

/-- **Every call** keeps the laws. -/
theorem Kept.perform (h : p.Kept) (call : Call) : (p.perform call).2.Kept := by
  cases call with
  | intern sectionId text descriptor line =>
      have hcases := interns_intern p sectionId text descriptor line
      simp only [LiteralPool.perform]
      cases hresult : p.intern sectionId text descriptor line with
      | error e => exact h
      | ok result =>
          rw [hresult] at hcases
          cases hcases with
          | again => exact h
          | first hpos hnew => exact h.add descriptor line hpos hnew
  | flush sectionId loc => exact h.flush sectionId loc

/-- A call other than a flush of its section leaves a literal waiting. -/
theorem mem_waiting_perform {l : Literal} (hl : l ∈ p.waiting sectionId)
    {call : Call} (hcall : ¬ call.Flushes sectionId) :
    l ∈ (p.perform call).2.waiting sectionId := by
  cases call with
  | intern other text descriptor line =>
      have hcases := interns_intern p other text descriptor line
      simp only [LiteralPool.perform]
      cases hresult : p.intern other text descriptor line with
      | error e => exact hl
      | ok result =>
          rw [hresult] at hcases
          cases hcases with
          | again => exact hl
          | first =>
              simp only [waiting_add]
              split
              · exact List.mem_append_left _ hl
              · exact hl
  | flush other loc =>
      have hne : sectionId ≠ other := fun heq => hcall heq.symm
      simp only [LiteralPool.perform]
      rwa [waiting_flush, if_neg hne]

/-- **A literal that has its place** keeps it, and no call names it any more. -/
theorem perform_settled {l : Literal} (hl : l ∈ p.literals)
    (hplace : l.place.isSome) (call : Call) :
    l ∈ (p.perform call).2.literals ∧ l.id ∉ (p.perform call).1.ids := by
  cases call with
  | intern sectionId text descriptor line =>
      have hcases := interns_intern p sectionId text descriptor line
      simp only [LiteralPool.perform]
      cases hresult : p.intern sectionId text descriptor line with
      | error e => exact ⟨hl, by simp [Reply.ids]⟩
      | ok result =>
          rw [hresult] at hcases
          cases hcases with
          | @again other _ hother =>
              refine ⟨hl, fun hid => ?_⟩
              obtain ⟨hmem, hwaits, -⟩ := mem_waiting.mp hother
              have hsame :=
                p.inStep.eq_of_id hl hmem (List.mem_singleton.mp hid)
              rw [hsame, hwaits] at hplace
              simp at hplace
          | first =>
              refine ⟨List.mem_append_left _ hl, fun hid => ?_⟩
              have hlt := id_lt hl
              rw [List.mem_singleton.mp hid, ← p.inStep.counted] at hlt
              exact Nat.lt_irrefl _ hlt
  | flush sectionId loc =>
      have hflush := flush_spec p sectionId loc
      refine ⟨List.mem_of_getElem?
        (hflush.keeps _ l (p.inStep.getElem?_id hl) hplace), fun hid => ?_⟩
      obtain ⟨old, hold, hwaits, -⟩ := hflush.pending.waiting _ hid
      rw [p.inStep.getElem?_id hl] at hold
      rw [Option.some.inj hold, hwaits] at hplace
      simp at hplace

/-- The literals after a call are those before it and the one that interning
gave. -/
theorem lt_length_perform (p : LiteralPool) (call : Call) (id : Nat) :
    id < (p.perform call).2.literals.length ↔
      id < p.literals.length ∨ (p.perform call).1.interned? = some id := by
  cases call with
  | intern sectionId text descriptor line =>
      have hcases := interns_intern p sectionId text descriptor line
      simp only [LiteralPool.perform]
      cases hresult : p.intern sectionId text descriptor line with
      | error e => simp [Reply.interned?]
      | ok result =>
          rw [hresult] at hcases
          cases hcases with
          | @again l _ hl =>
              have hlt := id_lt (mem_waiting.mp hl).1
              refine ⟨Or.inl,
                fun hid => hid.elim (fun hlt => hlt) fun hid => ?_⟩
              rwa [← Option.some.inj hid]
          | first _ hnew =>
              have hlength :
                  (p.add sectionId text descriptor line hnew).literals.length =
                  p.literals.length + 1 := by
                simp [add]
              have hid : (p.fresh sectionId text descriptor line).id =
                  p.literals.length :=
                p.inStep.counted
              simp only [hlength, Reply.interned?, hid, Option.some.injEq]
              omega
  | flush sectionId loc =>
      have hlength := (flush_spec p sectionId loc).length
      simp [LiteralPool.perform, Reply.interned?, hlength]

/-- No call changes the limit. -/
theorem limit_perform (p : LiteralPool) (call : Call) :
    (p.perform call).2.limit = p.limit := by
  cases call with
  | intern sectionId text descriptor line =>
      have hcases := interns_intern p sectionId text descriptor line
      simp only [perform]
      cases hresult : p.intern sectionId text descriptor line with
      | error e => rfl
      | ok result =>
          rw [hresult] at hcases
          cases hcases with
          | again => rfl
          | first => rfl
  | flush sectionId loc =>
      rfl

/-! ### Any calls -/

/-- So do any calls, by induction on them. -/
theorem Kept.after (h : p.Kept) (calls : List Call) : (p.after calls).Kept := by
  induction calls generalizing p with
  | nil => exact h
  | cons call rest ih => exact ih (h.perform call)

theorem limit_after (p : LiteralPool) (calls : List Call) :
    (p.after calls).limit = p.limit := by
  induction calls generalizing p with
  | nil => rfl
  | cons call rest ih => exact (ih _).trans (limit_perform p call)

/-- **A literal waits until its section is flushed.** -/
theorem mem_waiting_after {l : Literal} (hl : l ∈ p.waiting sectionId)
    {calls : List Call} (hcalls : ∀ call ∈ calls, ¬ call.Flushes sectionId) :
    l ∈ (p.after calls).waiting sectionId := by
  induction calls generalizing p with
  | nil => exact hl
  | cons call rest ih =>
      obtain ⟨hcall, hrest⟩ := List.forall_mem_cons.mp hcalls
      exact ih (mem_waiting_perform hl hcall) hrest

/-- **A literal that has its place** keeps it through all calls, and none of
them names it. -/
theorem after_settled {l : Literal}
    (hl : l ∈ p.literals) (hplace : l.place.isSome) (calls : List Call) :
    l ∈ (p.after calls).literals ∧ ∀ reply ∈ p.replies calls,
    l.id ∉ reply.ids := by
  induction calls generalizing p with
  | nil => exact ⟨hl, by simp [replies]⟩
  | cons call rest ih =>
      obtain ⟨hstays, hnot⟩ := perform_settled hl hplace call
      obtain ⟨hlast, hothers⟩ := ih hstays
      exact ⟨hlast, List.forall_mem_cons.mpr ⟨hnot, hothers⟩⟩

/-- A number is that of a literal if it was before or has been interned. -/
theorem lt_length_after (p : LiteralPool) (calls : List Call) (id : Nat) :
    id < (p.after calls).literals.length ↔
      id < p.literals.length ∨ id ∈ p.interned calls := by
  induction calls generalizing p with
  | nil => simp [interned, replies, show p.after [] = p from rfl]
  | cons call rest ih =>
      rw [after_cons, ih, lt_length_perform p call, interned, interned, replies,
        or_assoc]
      simp [List.mem_filterMap]

/-- **All literals were added by interning**, each under its own number. -/
theorem mem_interned (limit : Int) (calls : List Call) (id : Nat) :
    id ∈ interned { limit } calls ↔
      id < (after { limit } calls).literals.length := by
  rw [lt_length_after]
  simp

/-- As many literals are there as numbers have been interned. -/
theorem length_dedup_interned (limit : Int) (calls : List Call) :
    (interned { limit } calls).dedup.length =
      (after { limit } calls).literals.length := by
  have hperm : (interned { limit } calls).dedup.Perm
      (List.range (after { limit } calls).literals.length) := by
    rw [List.perm_ext_iff_of_nodup (List.nodup_dedup _) List.nodup_range]
    intro id
    rw [List.mem_dedup, List.mem_range, mem_interned]
  rw [hperm.length_eq, List.length_range]

/-! ### What is flushed -/

/-- Placing literals changes nothing but their places. -/
theorem map_placeFrom (literals : List Literal) (loc : Int64) :
    (placeFrom loc literals).1.map (fun l => { l with place := none }) =
      literals.map fun l => { l with place := none } := by
  induction literals generalizing loc with
  | nil => rfl
  | cons first rest ih => simp [placeFrom, ih]

/-- Grouping only rearranges: every literal belongs to just one of the
groups. -/
theorem perm_grouped (literals : List Literal) :
    (grouped literals).Perm literals := by
  rw [List.perm_iff_count]
  intro l
  have hcount : ∀ m, (literals.filter (Literal.group ·.length = m)).count l =
      if Literal.group l.length = m then literals.count l else 0 := by
    intro m
    split
    · exact List.count_filter (by simpa using ‹_›)
    · exact List.count_eq_zero.mpr fun hl =>
        ‹¬ _› (of_decide_eq_true (List.mem_filter.mp hl).2)
  unfold grouped
  simp only [List.count_flatMap, List.map_cons, List.map_nil, List.sum_cons,
    List.sum_nil, Function.comp_apply, hcount]
  unfold Literal.group
  repeat' split
  all_goals simp_all

/-- A flush places the literals that waited, in the order of their groups. -/
theorem unplaced_placed (p : LiteralPool) (sectionId : Int) (loc : Int64) :
    ((p.flush sectionId loc).placed.map fun l => { l with place := none }) =
      grouped (p.waiting sectionId) := by
  rw [placed_flush_eq, map_placeFrom]
  refine (List.map_congr_left fun l hl => ?_).trans (List.map_id _)
  simp [← (mem_waiting.mp (mem_grouped.mp hl)).2.1]

/-- **A flush gives just the literals that waited**, each of them once. -/
theorem perm_placed (p : LiteralPool) (sectionId : Int) (loc : Int64) :
    ((p.flush sectionId loc).placed.map fun l => { l with place := none }).Perm
      (p.waiting sectionId) := by
  rw [unplaced_placed]
  exact perm_grouped _

/-- What waited has its place after a flush. -/
theorem exists_placed (loc : Int64) {l : Literal}
    (hl : l ∈ p.waiting sectionId) :
    ∃ spot, { l with place := some spot } ∈ (p.flush sectionId loc).placed ∧
      { l with place := some spot } ∈
        (p.flush sectionId loc).pool.literals := by
  have hplaces := places_placeFrom p sectionId (alignUp loc 8)
  rw [← placed_flush_eq] at hplaces
  obtain ⟨hmem, hplace, hsection⟩ := mem_waiting.mp hl
  obtain ⟨q, hq, hid⟩ :=
    List.mem_map.mp (hplaces.complete l hmem hplace hsection)
  obtain ⟨old, hold, -, -, spot, rfl⟩ := hplaces.waited q hq
  obtain rfl := p.inStep.eq_of_id hold hmem hid
  have hflushed := (flush_spec p sectionId loc).mem _ hq
  exact ⟨spot, hq, List.mem_of_getElem? hflushed.1⟩

/-! ### The laws of the pool -/

/-- What holds of a pool with a limit when interning has given the literals of
some numbers: each number stands for one literal, whatever the number of times
it was given. -/
structure Laws (p : LiteralPool) (limit : Int) (given : List Nat) : Prop where
  /-- Only control sections have literals. -/
  outside : ∀ sectionId ≤ 0, ∀ text descriptor line,
    p.perform (.intern sectionId text descriptor line) =
      (.refused (.outsideSection text), p)
  /-- A text that waits is not added once more, whether there is room or not. -/
  again : ∀ sectionId, ∀ l ∈ p.waiting sectionId, ∀ descriptor line,
    p.perform (.intern sectionId l.text descriptor line) = (.interned l, p)
  /-- Any other text gets a literal of its own, behind those that wait. -/
  first : ∀ sectionId > 0, ∀ text, (∀ l ∈ p.waiting sectionId, l.text ≠ text) →
    given.dedup.length < limit → ∀ descriptor line, ∃ id ∉ given, ∃ p',
      p.perform (.intern sectionId text descriptor line) =
        (.interned ⟨id, text, sectionId, descriptor, line, none⟩, p') ∧
      ∀ other, p'.waiting other = if other = sectionId
        then p.waiting other ++ [⟨id, text, sectionId, descriptor, line, none⟩]
          else p.waiting other
  /-- Unless as many literals as there may be were added. -/
  full : ∀ sectionId > 0, ∀ text, (∀ l ∈ p.waiting sectionId, l.text ≠ text) →
    limit ≤ given.dedup.length → ∀ descriptor line,
      p.perform (.intern sectionId text descriptor line) =
        (.refused (.tooMany limit), p)
  /-- A literal waits until its section is flushed.  That flush places it, and
  nothing that comes later names or changes it. -/
  lifetime : ∀ sectionId, ∀ l ∈ p.waiting sectionId, ∀ calls,
    (∀ call ∈ calls, ¬ call.Flushes sectionId) →
      l ∈ (p.after calls).waiting sectionId ∧
      ∀ loc, ∃ spot, { l with place := some spot } ∈
        ((p.after calls).flush sectionId loc).placed ∧
        ∀ later, ((((p.after calls).flush sectionId loc).pool.after
          later).literals[l.id]? =
            some { l with place := some spot }) ∧
          ∀ reply ∈ ((p.after calls).flush sectionId loc).pool.replies later,
          l.id ∉ reply.ids
  /-- A flush gives the literals that waited and leaves the other sections
  alone. -/
  flushed : ∀ sectionId loc, ∃ placed behind p',
    p.perform (.flush sectionId loc) = (.flushed placed behind, p') ∧
    (placed.map fun l => { l with place := none }).Perm (p.waiting sectionId) ∧
    ∀ other, p'.waiting other = if other = sectionId then [] else
      p.waiting other
  /-- The sections with waiting literals are listed in increasing order. -/
  ordered : p.waitingSections.Pairwise (· < ·)
  sections : ∀ sectionId, sectionId ∈ p.waitingSections ↔
    p.waiting sectionId ≠ []

/-- A text that waits is found again. -/
theorem Kept.intern_again (h : p.Kept) {l : Literal}
    (hl : l ∈ p.waiting sectionId) (descriptor : Option Constant.Descriptor)
    (line : Int) :
    p.intern sectionId l.text descriptor line = .ok (p, l) := by
  have hcases := interns_intern p sectionId l.text descriptor line
  have hpos : 0 < sectionId := by
    obtain ⟨hmem, -, hsection⟩ := mem_waiting.mp hl
    exact hsection ▸ h.housed l hmem
  generalize p.intern sectionId l.text descriptor line = result at *
  cases hcases with
  | outside hle => omega
  | @again other _ hother htext =>
      rw [List.inj_on_of_nodup_map (h.texts sectionId) hother hl htext]
  | full _ hnew => exact absurd rfl (find?_eq_none_iff.mp hnew l hl)
  | first _ hnew => exact absurd rfl (find?_eq_none_iff.mp hnew l hl)

/-- **The life of a literal**: it waits, is placed by the next flush of its
section, stays where it is and is never named by a reply again. -/
theorem lifetime {l : Literal} (hl : l ∈ p.waiting sectionId) (loc : Int64) :
    ∃ spot, { l with place := some spot } ∈ (p.flush sectionId loc).placed ∧
      ∀ later,
      (((p.flush sectionId loc).pool.after later).literals[l.id]? =
          some { l with place := some spot }) ∧
        ∀ reply ∈ (p.flush sectionId loc).pool.replies later,
        l.id ∉ reply.ids := by
  obtain ⟨spot, hplaced, hmem⟩ := exists_placed loc hl
  refine ⟨spot, hplaced, fun later => ?_⟩
  obtain ⟨hstays, hnot⟩ := after_settled hmem rfl later
  exact ⟨(LiteralPool.inStep _).getElem?_id hstays, hnot⟩

/-- **The literal pool.**  Whatever calls were made on a new pool, interning
gives the literal that waits for a text or a new one up to the limit, a literal
waits until its section is flushed and is settled from then on, and a refused
call changes nothing. -/
theorem pool_laws (limit : Int) (calls : List Call) :
    (after { limit } calls).Laws limit (interned { limit } calls) := by
  have hkept := (kept_new limit).after calls
  have hlimit : (after { limit } calls).limit = limit := limit_after _ calls
  have hlength := length_dedup_interned limit calls
  have hinterned := mem_interned limit calls
  generalize after { limit } calls = p at *
  generalize interned { limit } calls = given at *
  subst hlimit
  refine ⟨fun sectionId hle text descriptor line => ?_,
    fun sectionId l hl descriptor line => ?_,
    fun sectionId hpos text hnew hroom descriptor line => ?_,
    fun sectionId hpos text hnew hfull descriptor line => ?_,
    fun sectionId l hl between hcalls => ?_, fun sectionId loc => ?_,
    pairwise_waitingSections p, fun _ => mem_waitingSections_iff⟩
  · simp only [perform, intern_outside descriptor line hle]
  · simp only [perform, hkept.intern_again hl]
  · have hnone := find?_eq_none_iff.mpr hnew
    have hlt : ¬ p.limit ≤ p.count := by rw [p.inStep.counted]; omega
    simp only [perform, intern_of_none descriptor line hpos hnone, if_neg hlt]
    refine ⟨p.count, fun hin => ?_, _, rfl, waiting_add p descriptor line hnone⟩
    rw [p.inStep.counted] at hin
    exact Nat.lt_irrefl _ ((hinterned _).mp hin)
  · have hle : p.limit ≤ p.count := by rw [p.inStep.counted]; omega
    simp only [perform, intern_of_none descriptor line hpos
      (find?_eq_none_iff.mpr hnew), if_pos hle]
  · have hwaits := mem_waiting_after hl hcalls
    exact ⟨hwaits, lifetime hwaits⟩
  · exact ⟨_, _, _, rfl, perm_placed p sectionId loc,
      waiting_flush p sectionId loc⟩

/-- A text that was flushed is a new one, and a pool that is full still knows
what waits. -/
example :
    (replies { limit := 2 } [.intern 1 [1] none 1,
    .intern 2 [1] none 2, .flush 1 0,
    .intern 1 [1] none 3, .intern 2 [1] none 4]).map Reply.interned? =
      [some 0, some 1, none, none, some 1] := by
  decide

end LiteralPool

end System370
