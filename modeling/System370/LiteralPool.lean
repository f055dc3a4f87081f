import System370.Constant.Basic
import System370.Field
import System370.KeyedList

/-!
# Literals

An operand such as `=F'1'` asks for a constant that the assembler places itself.
A section collects its literals, each text once, until they are flushed at
`LTORG` or at the end.  Flushing places them behind each other from a doubleword
boundary on: first those whose length is a multiple of eight, then of four, of
two, and all others.  No gaps are left, and none are needed.

The pool keeps all literals, and two tables of those that wait: by section in
the order of their first use, and by section and text.  They hold the ids of the
literals, and a pool comes with the proof that they are in step with them
(`LiteralPool.InStep`).

* `LiteralPool.intern` finds or adds a literal;
* `LiteralPool.flush` places the waiting literals of a section.
-/

namespace System370

/-- Where a literal is placed. -/
structure Literal.Place where
  address : Int64
  /-- The boundary of the group it was placed with. -/
  boundary : Int64
  deriving DecidableEq, Repr

/-- A literal of some section. -/
structure Literal where
  /-- The position among all literals of the assembly. -/
  id : Nat
  text : Bytes
  sectionId : Int
  descriptor : Option Constant.Descriptor
  line : Int
  place : Option Literal.Place := none
  deriving DecidableEq, Repr

namespace Literal

/-- The number of octets. -/
def length (l : Literal) : Nat := (l.descriptor.map (·.size)).getD 0

/-- The boundary of the group that a literal of a given length belongs to. -/
def group (length : Nat) : Nat :=
  if length = 0 then 1
  else if length % 8 = 0 then 8
  else if length % 4 = 0 then 4
  else if length % 2 = 0 then 2
  else 1

theorem group_mem (length : Nat) : group length ∈ [8, 4, 2, 1] := by
  unfold group
  repeat' split
  all_goals decide

/-- Whether the literal waits for a place in a section. -/
def waitsIn (l : Literal) (sectionId : Int) : Bool :=
  l.place.isNone && l.sectionId = sectionId

end Literal

/-- Why a literal is refused. -/
inductive LiteralError where
  /-- Only control sections have literals. -/
  | outsideSection (text : Bytes)
  | tooMany (limit : Int)
  deriving DecidableEq, Repr

/-- The text of the failure. -/
def LiteralError.message : LiteralError → Bytes
  | outsideSection text => bytes "Literal " ++ text ++
    bytes " is outside of any control section"
  | tooMany limit => bytes "More than " ++ decimal limit ++ bytes " literals"

namespace LiteralPool

/-- The literals of a list that wait in a section. -/
def waitingOf (literals : List Literal) (sectionId : Int) : List Literal :=
  literals.filter (·.waitsIn sectionId)

/-- **The tables of a pool say what its literals say**: which of them wait in a
section, which one has a text, and how many there are. -/
structure InStep (literals : List Literal) (pending : KeyedList Int (List Nat))
    (index : KeyedList Int (KeyedList Bytes Nat)) (count : Nat) : Prop where
  numbered : ∀ (i : Nat) l, literals[i]? = some l → l.id = i
  counted : count = literals.length
  once : (pending.map (·.1)).Nodup
  /-- No section has a table without literals. -/
  busy : (∀ entry ∈ pending, entry.2 ≠ []) ∧ ∀ entry ∈ index, entry.2 ≠ []
  waiting : ∀ sectionId,
    (pending.get? sectionId).getD [] = (waitingOf literals sectionId).map (·.id)
  found : ∀ sectionId text,
    KeyedList.get? ((index.get? sectionId).getD []) text =
    ((waitingOf literals sectionId).find? (·.text = text)).map (·.id)

/-- Empty tables are in step. -/
theorem inStep_nil : InStep [] [] [] 0 where
  numbered := by simp
  counted := rfl
  once := List.nodup_nil
  busy := by simp
  waiting _ := rfl
  found _ _ := rfl

end LiteralPool

/-- The literals of an assembly. -/
@[ext]
structure LiteralPool where
  /-- How many literals there may be. -/
  limit : Int
  /-- All literals in the order of their first use; the one at position `i` has
  the id `i`. -/
  literals : List Literal := []
  /-- The ids of the literals that wait in a section. -/
  pending : KeyedList Int (List Nat) := []
  /-- The ids of the literals that wait in a section, found by their texts. -/
  index : KeyedList Int (KeyedList Bytes Nat) := []
  /-- How many literals there are. -/
  count : Nat := 0
  inStep : LiteralPool.InStep literals pending index count := by
    exact LiteralPool.inStep_nil
  deriving DecidableEq, Repr

namespace LiteralPool

/-- The literals of a section that wait for a place. -/
def waiting (p : LiteralPool) (sectionId : Int) : List Literal :=
  ((p.pending.get? sectionId).getD []).filterMap (p.literals[·]?)

/-- The literal of a section that has a text and waits. -/
def find? (p : LiteralPool) (sectionId : Int) (text : Bytes) : Option Literal :=
  (KeyedList.get? ((p.index.get? sectionId).getD []) text).bind (p.literals[·]?)

namespace InStep

variable {literals : List Literal} {pending : KeyedList Int (List Nat)}
  {index : KeyedList Int (KeyedList Bytes Nat)} {count : Nat}

/-- A literal stands where its id says. -/
theorem getElem?_id (h : InStep literals pending index count) {l : Literal}
    (hl : l ∈ literals) :
    literals[l.id]? = some l := by
  obtain ⟨i, hi⟩ := List.getElem?_of_mem hl
  rw [h.numbered i l hi, hi]

/-- Literals with one id are the same. -/
theorem eq_of_id (h : InStep literals pending index count) {l l' : Literal}
    (hl : l ∈ literals) (hl' : l' ∈ literals) (hid : l.id = l'.id) :
    l = l' := by
  have hget := h.getElem?_id hl
  rw [hid, h.getElem?_id hl'] at hget
  exact (Option.some.inj hget).symm

/-- Changing literals keeps the tables in step if the changes do not concern
them. -/
theorem map (h : InStep literals pending index count) {f : Literal → Literal}
    (hid : ∀ l, (f l).id = l.id) (htext : ∀ l, (f l).text = l.text)
    (hwaits : ∀ l sectionId, (f l).waitsIn sectionId = l.waitsIn sectionId) :
    InStep (literals.map f) pending index count := by
  have hwaiting : ∀ sectionId,
      waitingOf (literals.map f) sectionId =
        (waitingOf literals sectionId).map f := by
    intro sectionId
    unfold waitingOf
    rw [List.filter_map]
    congr 2
    exact funext fun l => hwaits l sectionId
  refine ⟨fun i l hl => ?_, by simpa using h.counted, h.once, h.busy,
    fun sectionId => ?_, fun sectionId text => ?_⟩
  · rw [List.getElem?_map] at hl
    obtain ⟨l', hl', rfl⟩ := Option.map_eq_some_iff.mp hl
    exact (hid l').trans (h.numbered i l' hl')
  · rw [h.waiting, hwaiting, List.map_map]
    exact List.map_congr_left fun l _ => (hid l).symm
  · rw [h.found, hwaiting, List.find?_map, Option.map_map]
    have hsame : ((fun l : Literal => decide (l.text = text)) ∘ f) =
        fun l => decide (l.text = text) := funext fun l => by simp [htext]
    rw [hsame]
    exact Option.map_congr fun l _ => (hid l).symm

/-- A literal with a new text joins those that wait in its section. -/
theorem append (h : InStep literals pending index count) {l : Literal}
    (hid : l.id = count) (hplace : l.place = none)
    (hnew : (waitingOf literals l.sectionId).find? (·.text = l.text) = none) :
    InStep (literals ++ [l])
      (pending.insert l.sectionId
        ((pending.get? l.sectionId).getD [] ++ [l.id]))
      (index.insert l.sectionId
        ((l.text, l.id) :: (index.get? l.sectionId).getD []))
      (count + 1) := by
  have hwaiting : ∀ sectionId, waitingOf (literals ++ [l]) sectionId =
      waitingOf literals sectionId ++ if sectionId = l.sectionId then
        [l] else [] := by
    intro sectionId
    by_cases heq : sectionId = l.sectionId
    · simp [waitingOf, Literal.waitsIn, hplace, heq]
    · have hne : l.sectionId ≠ sectionId := fun hsame => heq hsame.symm
      simp [waitingOf, Literal.waitsIn, hplace, heq, hne]
  refine ⟨fun i l' hl' => ?_, by simp [h.counted],
    KeyedList.keys_insert h.once _ _,
    ⟨KeyedList.forall_insert h.busy.1 (by simp),
      KeyedList.forall_insert h.busy.2 (by simp)⟩,
    fun sectionId => ?_, fun sectionId text => ?_⟩
  · rcases Nat.lt_or_ge i literals.length with hlt | hge
    · rw [List.getElem?_append_left hlt] at hl'
      exact h.numbered i l' hl'
    · rw [List.getElem?_append_right hge, List.getElem?_singleton] at hl'
      split at hl'
      · rw [← Option.some.inj hl', hid, h.counted]
        omega
      · cases hl'
  · rw [KeyedList.get?_insert, hwaiting]
    by_cases heq : sectionId = l.sectionId
    · simp [heq, h.waiting]
    · simp [heq, h.waiting]
  · rw [KeyedList.get?_insert, hwaiting]
    by_cases heq : sectionId = l.sectionId
    · subst heq
      by_cases htext : text = l.text
      · subst htext
        simp [KeyedList.get?_cons, List.find?_append, hnew]
      · have hne : l.text ≠ text := fun hsame => htext hsame.symm
        simp [KeyedList.get?_cons, htext, hne, h.found, List.find?_append]
    · simp [heq, h.found]

end InStep

variable {p : LiteralPool}

/-- **The literals that wait** are those without a place. -/
theorem waiting_eq (p : LiteralPool) (sectionId : Int) :
    p.waiting sectionId = p.literals.filter (·.waitsIn sectionId) := by
  unfold waiting
  rw [p.inStep.waiting, List.filterMap_map]
  have hsome : ∀ {ls : List Literal}, (∀ l ∈ ls, l ∈ p.literals) →
      ls.filterMap ((p.literals[·]?) ∘ (·.id)) = ls := by
    intro ls
    induction ls with
    | nil => exact fun _ => rfl
    | cons l rest ih =>
        intro hall
        obtain ⟨hl, hrest⟩ := List.forall_mem_cons.mp hall
        have hget : ((p.literals[·]?) ∘ (·.id)) l = some l :=
          p.inStep.getElem?_id hl
        rw [List.filterMap_cons, hget, ih hrest]
  exact hsome fun l hl => (List.mem_filter.mp hl).1

/-- **A literal is found** by its text among those that wait. -/
theorem find?_eq (p : LiteralPool) (sectionId : Int) (text : Bytes) :
    p.find? sectionId text = (p.waiting sectionId).find? (·.text = text) := by
  unfold find?
  rw [p.inStep.found, waiting_eq]
  unfold waitingOf
  cases hfound :
    (p.literals.filter (·.waitsIn sectionId)).find? (·.text = text) with
  | none => rfl
  | some l =>
      exact p.inStep.getElem?_id
        (List.mem_filter.mp (List.mem_of_find?_eq_some hfound)).1

/-- A new literal, as it is added on its first use. -/
def fresh (p : LiteralPool) (sectionId : Int) (text : Bytes)
    (descriptor : Option Constant.Descriptor) (line : Int) : Literal :=
  { id := p.count, text, sectionId, descriptor, line }

/-- The pool with a literal whose text does not wait yet. -/
def add (p : LiteralPool) (sectionId : Int) (text : Bytes)
    (descriptor : Option Constant.Descriptor) (line : Int)
    (h : p.find? sectionId text = none) : LiteralPool :=
  let l := p.fresh sectionId text descriptor line
  { limit := p.limit
    literals := p.literals ++ [l]
    pending :=
      p.pending.insert sectionId ((p.pending.get? sectionId).getD [] ++ [l.id])
    index := p.index.insert sectionId
      ((text, l.id) :: (p.index.get? sectionId).getD [])
    count := p.count + 1
    inStep :=
      p.inStep.append (l := l) rfl rfl (by rwa [find?_eq, waiting_eq] at h) }

/-- The waiting literal of a text, added on its first use. -/
def intern (p : LiteralPool) (sectionId : Int) (text : Bytes)
    (descriptor : Option Constant.Descriptor) (line : Int) :
    Except LiteralError (LiteralPool × Literal) :=
  if sectionId ≤ 0 then .error (.outsideSection text)
  else match h : p.find? sectionId text with
    | some l => .ok (p, l)
    | none =>
      if p.limit ≤ p.count then .error (.tooMany p.limit)
      else .ok (p.add sectionId text descriptor line h,
        p.fresh sectionId text descriptor line)

section Intern

variable {sectionId : Int} {text : Bytes}
  (descriptor : Option Constant.Descriptor) (line : Int)

/-- Only control sections have literals. -/
theorem intern_outside (h : sectionId ≤ 0) :
    p.intern sectionId text descriptor line = .error (.outsideSection text) :=
  if_pos h

/-- A text that waits is found, whether there is room for another one or not. -/
theorem intern_of_some (h : 0 < sectionId) {l : Literal}
    (hl : p.find? sectionId text = some l) :
    p.intern sectionId text descriptor line = .ok (p, l) := by
  unfold intern
  rw [if_neg (Int.not_le.mpr h)]
  split
  · rename_i found hfound
    rw [Option.some.inj (hl.symm.trans hfound)]
  · rename_i hnone
    cases hl.symm.trans hnone

/-- Any other text needs room. -/
theorem intern_of_none (h : 0 < sectionId)
    (hl : p.find? sectionId text = none) :
    p.intern sectionId text descriptor line =
      if p.limit ≤ p.count then .error (.tooMany p.limit)
      else .ok (p.add sectionId text descriptor line hl,
        p.fresh sectionId text descriptor line) := by
  unfold intern
  rw [if_neg (Int.not_le.mpr h)]
  split
  · rename_i found hfound
    cases hl.symm.trans hfound
  · rfl

end Intern

/-- Places literals one behind the other, and gives the location behind them. -/
def placeFrom (loc : Int64) : List Literal → List Literal × Int64
  | [] => ([], loc)
  | l :: rest =>
    let placed :=
      { l with place := some ⟨loc, Int64.ofNat (Literal.group l.length)⟩ }
    let (others, behind) := placeFrom (loc + Int64.ofNat l.length) rest
    (placed :: others, behind)

/-- Literals in the order of their groups. -/
def grouped (literals : List Literal) : List Literal :=
  [8, 4, 2, 1].flatMap fun boundary =>
    literals.filter (Literal.group ·.length = boundary)

theorem mem_grouped {literals : List Literal} {l : Literal} :
    l ∈ grouped literals ↔ l ∈ literals := by
  have hgroup := Literal.group_mem l.length
  unfold grouped
  simp only [List.mem_flatMap, List.mem_filter, decide_eq_true_eq]
  exact ⟨fun ⟨_, _, hl, _⟩ => hl, fun hl => ⟨_, hgroup, hl, rfl⟩⟩

/-- Placing changes the place of a literal and nothing else. -/
theorem placeFrom_spec (loc : Int64) (literals : List Literal) :
    (∀ l ∈ literals, ∃ spot,
      { l with place := some spot } ∈ (placeFrom loc literals).1) ∧
      ∀ placed ∈ (placeFrom loc literals).1, ∃ l ∈ literals, ∃ spot,
        placed = { l with place := some spot } := by
  induction literals generalizing loc with
  | nil => simp [placeFrom]
  | cons first rest ih =>
      obtain ⟨hall, hfrom⟩ := ih (loc + Int64.ofNat first.length)
      refine ⟨fun l hl => ?_, fun placed hplaced => ?_⟩
      · rcases List.mem_cons.mp hl with rfl | hl
        · exact ⟨_, List.mem_cons_self⟩
        · obtain ⟨spot, hspot⟩ := hall l hl
          exact ⟨spot, List.mem_cons_of_mem _ hspot⟩
      · rcases List.mem_cons.mp hplaced with rfl | hplaced
        · exact ⟨first, List.mem_cons_self, _, rfl⟩
        · obtain ⟨l, hl, spot, hspot⟩ := hfrom placed hplaced
          exact ⟨l, List.mem_cons_of_mem _ hl, spot, hspot⟩

/-- If the literals of a section get places, then none of them waits any
more. -/
theorem waitingOf_map {literals : List Literal} {f : Literal → Literal}
    {sectionId : Int}
    (hf : ∀ l ∈ literals, if l.waitsIn sectionId then ∃ spot,
      f l = { l with place := some spot } else f l = l) (other : Int) :
    waitingOf (literals.map f) other =
      if other = sectionId then [] else waitingOf literals other := by
  induction literals with
  | nil => simp [waitingOf]
  | cons l rest ih =>
      obtain ⟨hl, hrest⟩ := List.forall_mem_cons.mp hf
      have hothers := ih hrest
      unfold waitingOf at hothers ⊢
      rw [List.map_cons, List.filter_cons, List.filter_cons, hothers]
      split at hl
      · rename_i hwaits
        obtain ⟨spot, hspot⟩ := hl
        have hplaced : (f l).waitsIn other = false := by
          simp [hspot, Literal.waitsIn]
        have hhere : l.sectionId = sectionId := by
          simp only [Literal.waitsIn, Bool.and_eq_true,
            decide_eq_true_eq] at hwaits
          exact hwaits.2
        by_cases heq : other = sectionId
        · subst heq
          simp [hplaced]
        · have hne : l.sectionId ≠ other :=
            fun hsame => heq (hsame.symm.trans hhere)
          have hnot : l.waitsIn other = false := by simp [Literal.waitsIn, hne]
          simp [hplaced, hnot, heq]
      · rename_i hnot
        rw [hl]
        by_cases heq : other = sectionId
        · simp [heq, hnot]
        · simp [heq]

/-- A literal as it stands among placed ones. -/
def replace (placed : List Literal) (l : Literal) : Literal :=
  (placed.find? (·.id = l.id)).getD l

/-- Placing the literals of a section changes them, and no others. -/
theorem InStep.replace_spec {literals : List Literal}
    {pending : KeyedList Int (List Nat)}
    {index : KeyedList Int (KeyedList Bytes Nat)} {count : Nat}
    (h : InStep literals pending index count) (sectionId : Int) (loc : Int64)
    {l : Literal} (hl : l ∈ literals) :
    let placed := (placeFrom loc (grouped (waitingOf literals sectionId))).1
    if l.waitsIn sectionId then
      ∃ spot, replace placed l = { l with place := some spot }
    else replace placed l = l := by
  intro placed
  unfold replace
  obtain ⟨hall, hfrom⟩ :=
    placeFrom_spec loc (grouped (waitingOf literals sectionId))
  simp only [mem_grouped] at hall hfrom
  have hsame : ∀ found, placed.find? (·.id = l.id) = some found →
      l.waitsIn sectionId ∧ ∃ spot, found = { l with place := some spot } := by
    intro found hfound
    obtain ⟨old, hold, spot, rfl⟩ :=
      hfrom found (List.mem_of_find?_eq_some hfound)
    have hid := List.find?_some hfound
    obtain ⟨hmem, hwaits⟩ := List.mem_filter.mp hold
    obtain rfl := h.eq_of_id hmem hl (of_decide_eq_true hid)
    exact ⟨hwaits, spot, rfl⟩
  cases hfound : placed.find? (·.id = l.id) with
  | some found =>
      obtain ⟨hwaits, hspot⟩ := hsame found hfound
      rw [if_pos hwaits]
      exact hspot
  | none =>
      rw [if_neg]
      · rfl
      · intro hwaits
        obtain ⟨spot, hspot⟩ := hall l (List.mem_filter.mpr ⟨hl, hwaits⟩)
        have hnot := List.find?_eq_none.mp hfound _ hspot
        simp at hnot

/-- Without the literals of a section that are placed the tables stay in
step. -/
theorem InStep.settle {literals : List Literal}
    {pending : KeyedList Int (List Nat)}
    {index : KeyedList Int (KeyedList Bytes Nat)} {count : Nat}
    (h : InStep literals pending index count) (sectionId : Int) (loc : Int64) :
    InStep (literals.map
      (replace (placeFrom loc (grouped (waitingOf literals sectionId))).1))
      (pending.erase sectionId) (index.erase sectionId) count := by
  have hspec := fun l => h.replace_spec sectionId loc (l := l)
  simp only at hspec
  generalize (placeFrom loc (grouped (waitingOf literals sectionId))).1 =
    placed at hspec ⊢
  have hwaiting : ∀ other, waitingOf (literals.map (replace placed)) other =
      if other = sectionId then [] else waitingOf literals other :=
    waitingOf_map hspec
  have hid : ∀ l ∈ literals, (replace placed l).id = l.id := by
    intro l hl
    have h := hspec l hl
    split at h
    · obtain ⟨spot, hspot⟩ := h
      rw [hspot]
    · rw [h]
  refine ⟨fun i l hl => ?_, by simpa using h.counted,
    KeyedList.keys_erase h.once _,
    ⟨KeyedList.forall_erase h.busy.1 _, KeyedList.forall_erase h.busy.2 _⟩,
    fun other => ?_, fun other text => ?_⟩
  · rw [List.getElem?_map] at hl
    obtain ⟨old, hold, rfl⟩ := Option.map_eq_some_iff.mp hl
    rw [hid old (List.mem_of_getElem? hold)]
    exact h.numbered i old hold
  · rw [KeyedList.get?_erase, hwaiting]
    split
    · rfl
    · exact h.waiting other
  · rw [KeyedList.get?_erase, hwaiting]
    split
    · rfl
    · exact h.found other text

/-- What flushing a section gives. -/
structure Flushed where
  pool : LiteralPool
  /-- The literals placed, in the order of their addresses. -/
  placed : List Literal
  /-- The location behind them. -/
  behind : Int64

/-- The pool when the waiting literals of a section are placed from a location
on. -/
def settle (p : LiteralPool) (sectionId : Int) (loc : Int64) : LiteralPool where
  limit := p.limit
  literals :=
    p.literals.map (replace (placeFrom loc (grouped (p.waiting sectionId))).1)
  pending := p.pending.erase sectionId
  index := p.index.erase sectionId
  count := p.count
  inStep := by
    rw [waiting_eq]
    exact p.inStep.settle sectionId loc

/-- Places the waiting literals of a section from the next doubleword boundary
on. -/
def flush (p : LiteralPool) (sectionId : Int) (loc : Int64) : Flushed :=
  let pending := p.waiting sectionId
  let start := if pending.isEmpty then loc else alignUp loc 8
  let (placed, behind) := placeFrom start (grouped pending)
  ⟨p.settle sectionId start, placed, behind⟩

/-- The sections with waiting literals, in increasing order. -/
def waitingSections (p : LiteralPool) : List Int :=
  sortByKey id ((p.pending.filter (·.2 ≠ [])).map (·.1))

/-- Moves every placed literal by the base of its section. -/
def relocate (p : LiteralPool) (base : Int → Int64) : LiteralPool :=
  { p with
    literals := p.literals.map fun l =>
      { l with place := l.place.map fun spot =>
          { spot with address := spot.address + base l.sectionId } }
    inStep := p.inStep.map (fun _ => rfl) (fun _ => rfl) fun l _ => by
      simp [Literal.waitsIn] }

end LiteralPool

end System370
