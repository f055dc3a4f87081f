import System370.Proofs.ComparedLayouts
import System370.Proofs.PlacedExpressions

/-!
# Two programs side by side

Laying a whole program out treats statements that cannot be told apart alike,
and what counts for nothing may stand anywhere between them: two lists are
`Aligned` if they are related item by item once idle items are skipped.  A
record of nothing at all is idle.

* `Layout.Alike.step` is the step from one statement to the next;
* `Layout.Settling.settleAll` says that equates are settled alike, although idle
  records change how many rounds are allowed;
* `Program.Alike.normalize` places the sections of both programs.
-/

namespace System370

/-- Two lists whose items are related one by one, apart from idle ones. -/
inductive Aligned {α : Type} (idle : α → Prop) (rel : α → α → Prop) :
    List α → List α → Prop
  | nil : Aligned idle rel [] []
  | cons {a a' as as'} : rel a a' → Aligned idle rel as as' →
      Aligned idle rel (a :: as) (a' :: as')
  | left {a as as'} :
      idle a → Aligned idle rel as as' → Aligned idle rel (a :: as) as'
  | right {a' as as'} : idle a' → Aligned idle rel as as' →
      Aligned idle rel as (a' :: as')

namespace Aligned

variable {α : Type} {idle : α → Prop} {rel : α → α → Prop}
  {as as' bs bs' : List α}

theorem append (h : Aligned idle rel as as') (hb : Aligned idle rel bs bs') :
    Aligned idle rel (as ++ bs) (as' ++ bs') := by
  induction h with
  | nil => exact hb
  | cons ha _ ih => exact .cons ha ih
  | left ha _ ih => exact .left ha ih
  | right ha _ ih => exact .right ha ih

/-- Lists that correspond item by item are aligned. -/
theorem of_forall₂ (h : List.Forall₂ rel as as') : Aligned idle rel as as' := by
  induction h with
  | nil => exact .nil
  | cons ha _ ih => exact .cons ha ih

/-- Where no item is idle the lists are related item by item. -/
theorem forall₂ (h : Aligned idle rel as as') (hidle : ∀ a, ¬ idle a) :
    List.Forall₂ rel as as' := by
  induction h with
  | nil => exact .nil
  | cons ha _ ih => exact .cons ha ih
  | left ha _ _ => exact absurd ha (hidle _)
  | right ha _ _ => exact absurd ha (hidle _)

/-- Idle items behind everything else. -/
theorem idle_append (h : Aligned idle rel as as') (hidle : ∀ b ∈ bs, idle b) :
    Aligned idle rel as (as' ++ bs) := by
  induction h with
  | nil =>
      induction bs with
      | nil => exact .nil
      | cons b rest ih =>
          exact .right (hidle b List.mem_cons_self)
            (ih fun b hb => hidle b (List.mem_cons_of_mem _ hb))
  | cons ha _ ih => exact .cons ha ih
  | left ha _ ih => exact .left ha ih
  | right ha _ ih => exact .right ha ih

/-- Lists that are related item by item once the idle items are removed. -/
theorem of_filter {isIdle : α → Bool}
    (hidle : ∀ a ∈ as, isIdle a = true → idle a)
    (hidle' : ∀ a ∈ as', isIdle a = true → idle a)
    (h : List.Forall₂ rel (as.filter (!isIdle ·)) (as'.filter (!isIdle ·))) :
    Aligned idle rel as as' := by
  induction as generalizing as' with
  | nil =>
      refine idle_append .nil fun a' ha' => hidle' a' ha' ?_
      simpa using List.filter_eq_nil_iff.mp
        (List.forall₂_nil_left_iff.mp h) a' ha'
  | cons a rest ih =>
      rw [List.forall_mem_cons] at hidle
      by_cases ha : isIdle a = true
      · rw [List.filter_cons_of_neg (by simp [ha])] at h
        exact .left (hidle.1 ha) (ih hidle.2 hidle' h)
      · rw [List.filter_cons_of_pos (by simpa using ha)] at h
        induction as' with
        | nil => simp at h
        | cons a' rest' ih' =>
            rw [List.forall_mem_cons] at hidle'
            by_cases ha' : isIdle a' = true
            · rw [List.filter_cons_of_neg (by simp [ha'])] at h
              exact .right (hidle'.1 ha') (ih' hidle'.2 h)
            · rw [List.filter_cons_of_pos (by simpa using ha'),
                List.forall₂_cons] at h
              exact .cons h.1 (ih hidle.2 hidle'.2 h.2)

/-- Aligned lists stay aligned under maps that respect what is related and what
is idle. -/
theorem map {β : Type} {f f' : α → β} {idle' : β → Prop} {rel' : β → β → Prop}
    (h : Aligned idle rel as as') (hf : ∀ a, idle a → idle' (f a))
    (hf' : ∀ a, idle a → idle' (f' a))
    (hrel : ∀ a a', rel a a' → rel' (f a) (f' a')) :
    Aligned idle' rel' (as.map f) (as'.map f') := by
  induction h with
  | nil => exact .nil
  | cons ha _ ih => exact .cons (hrel _ _ ha) ih
  | left ha _ ih => exact .left (hf _ ha) ih
  | right ha _ ih => exact .right (hf' _ ha) ih

/-- Counting items that are never idle. -/
theorem countP_eq {p : α → Bool} (h : Aligned idle rel as as')
    (hidle : ∀ a, idle a → p a = false) (hrel : ∀ a a', rel a a' → p a' = p a) :
    as'.countP p = as.countP p := by
  induction h with
  | nil => rfl
  | cons ha _ ih => rw [List.countP_cons, List.countP_cons, ih, hrel _ _ ha]
  | left ha _ ih => rw [ih, List.countP_cons_of_neg (by simp [hidle _ ha])]
  | right ha _ ih => rw [List.countP_cons_of_neg (by simp [hidle _ ha]), ih]

end Aligned

/-- Whether a record stands for nothing at all. -/
def Record.IsIdle (r : Record) : Prop := r.body = .comment

variable {c : Comparison}

/-- What a comparison has to say of whole statements, their faults among it. -/
structure Comparison.Whole (c : Comparison) : Prop where
  isComment : ∀ {s s'}, c.statements s s' → s'.isComment = s.isComment
  position : ∀ {s s'}, c.statements s s' → c.cursors s.position s'.position
  faults : ∀ {s s' ds ds'}, c.statements s s' → c.diagnostics ds ds' →
    c.diagnostics (ds ++ s.faults) (ds' ++ s'.faults)
  serious : ∀ {s s'}, c.statements s s' →
    s'.faults.any (·.severity.isError) = s.faults.any (·.severity.isError)
  marks : ∀ {b b'}, c.marks b b' → b' = b
  marked : c.marks true true

/-- Two programs that a comparison does not tell apart. -/
structure Program.Alike (c : Comparison) (p p' : Program) : Prop where
  layout : p.layout.Alike c p'.layout
  records : Aligned Record.IsIdle (Record.Alike c) p.records p'.records

namespace Layout

/-- Two parts of programs that a comparison does not tell apart. -/
def Agree (c : Comparison) (out out' : Layout × List Record) : Prop :=
  (Program.mk out.1 out.2).Alike c ⟨out'.1, out'.2⟩

/-- Two parts of programs whose records correspond one by one. -/
structure Matched (c : Comparison)
    (out out' : Layout × List Record) : Prop where
  layout : out.1.Alike c out'.1
  records : List.Forall₂ (Record.Alike c) out.2 out'.2

/-- Parts that match agree. -/
theorem Matched.agree {out out' : Layout × List Record}
    (h : Matched c out out') :
    Agree c out out' :=
  ⟨h.layout, .of_forall₂ h.records⟩

variable {l l' : Layout} {s s' : Statement}

/-- The pool of a section at the end. -/
theorem Alike.flushSection (h : l.Alike c l') (hs : c.statements s s')
    (id : Int) :
    Matched c ((l.flushSection s id).1, (l.flushSection s id).2.toList)
      ((l'.flushSection s' id).1, (l'.flushSection s' id).2.toList) := by
  unfold Layout.flushSection
  rcases map_eq_map_cases (h.symbols.section? id) with
    ⟨hid, hid'⟩ | ⟨t, t', hid, hid', heq⟩
  · rw [hid, hid']
    exact ⟨h, .nil⟩
  · have hloc : t'.loc = t.loc := congrArg (·.loc) heq
    have hlength : t'.length = t.length := congrArg (·.length) heq
    rw [hid, hid']
    simp only [h.symbols.current, hloc, hlength]
    generalize (if l.symbols.current = some id then t.loc else t.length) = loc
    obtain ⟨hpool, hplaced, hbehind⟩ := h.literals.flush id loc
    cases hp : (l.literals.flush id loc).placed with
    | nil =>
        rw [hp, List.map_nil, List.map_eq_nil_iff] at hplaced
        rw [hplaced]
        exact ⟨h, .nil⟩
    | cons first rest =>
        cases hp' : (l'.literals.flush id loc).placed with
        | nil => simp [hp, hp'] at hplaced
        | cons first' rest' =>
            rw [hp, hp'] at hplaced
            simp only [hplaced, hbehind]
            refine ⟨{ h with literals := hpool, symbols := ?_ },
              .cons ⟨hs, rfl, rfl, rfl, rfl, rfl, rfl, rfl, rfl, rfl, rfl⟩ .nil⟩
            exact h.symbols.modifySection
              (f := (·.setLoc (l.literals.flush id loc).behind))
              (fun _ => rfl) id

/-- The pools of all sections at the end. -/
theorem Alike.flushSections (h : l.Alike c l') (hs : c.statements s s')
    (ids : List Int) :
    Matched c (l.flushSections s ids) (l'.flushSections s' ids) := by
  induction ids generalizing l l' with
  | nil => exact ⟨h, .nil⟩
  | cons id rest ih =>
      have hfirst := h.flushSection hs id
      have hrest := ih hfirst.layout
      exact ⟨hrest.layout, List.rel_append hfirst.records hrest.records⟩

variable {d d' : Draft}

/-- One statement, one record on both sides. -/
theorem Matched.single (h : d.Alike c d') :
    Matched c (d.layout, [d.record]) (d'.layout, [d'.record]) :=
  ⟨h.layout, .cons h.record .nil⟩

/-- `END`, with its pools. -/
theorem Matched.layOutEnd (h : d.Alike c d') :
    Matched c (layOutEnd d) (layOutEnd d') := by
  have hlocated := h.locate
  have hstart := hlocated.withBody .located
  have hended :
      Layout.Alike c { (d.locate.withBody .located).layout with ended := true }
      { (d'.locate.withBody .located).layout with ended := true } :=
    { hstart.layout with ended := rfl }
  have hflushed := hended.flushSections hstart.record.statement
    (d.locate.withBody .located).layout.literals.waitingSections
  unfold Layout.layOutEnd
  simp only [hstart.layout.literals.waitingSections]
  refine ⟨hflushed.layout, List.rel_append hflushed.records
    (.cons { hstart.record with loc := ?_ } .nil)⟩
  -- The record is behind the literals if those were placed in the section it is
  -- in.
  simp only [hstart.record.sectionId, hstart.record.loc]
  rcases map_eq_map_cases hflushed.layout.symbols.currentSection? with
    ⟨hid, hid'⟩ | ⟨u, u', hid, hid', heq⟩
  · erw [hid, hid']
  · have hsame : u'.id = u.id := congrArg (·.id) heq
    have hplace : u'.loc = u.loc := congrArg (·.loc) heq
    erw [hid, hid']
    simp only [hsame, hplace]

/-- **Statements.**  They are laid out alike if they cannot be told apart. -/
theorem Matched.layOutStatement (h : d.Alike c d') :
    Matched c (layOutStatement d) (layOutStatement d') := by
  unfold Layout.layOutStatement
  simp only [h.mnemonic]
  split
  · exact .single h.layOutMark
  · split
    · exact .single (h.layOutInstruction _)
    · split
      · rename_i directive _
        have hdirective : Draft.Alike c
            { d with record := { d.record with directive := some directive } }
            { d' with record := { d'.record with directive := some directive } } :=
          ⟨{ h.layout with }, { h.record with directive := rfl }⟩
        split
        · exact .layOutEnd hdirective
        · by_cases herrored : d.record.errored = true
          · rw [if_pos herrored, if_pos (h.record.errored.trans herrored)]
            exact .single hdirective.locate
          · rw [if_neg herrored, if_neg (h.record.errored ▸ herrored)]
            exact .single (hdirective.layOutDirective directive)
      · rw [h.record.errored]
        split
        · exact .single h
        · exact .single
            (h.report (c.mnemonicCursor h.record.statement) _).layOutMark

/-- **One statement** is laid out alike, wherever it stands. -/
theorem Alike.step (h : l.Alike c l') (hc : c.Whole) (hs : c.statements s s') :
    Matched c (l.step s) (l'.step s') := by
  have hreported :
      Layout.Alike c { l with diagnostics := l.diagnostics ++ s.faults }
      { l' with diagnostics := l'.diagnostics ++ s'.faults } :=
    { h with diagnostics := hc.faults hs h.diagnostics }
  have hblank : ∀ errored,
      Record.Alike c { statement := s, errored } { statement := s', errored } :=
    fun _ => ⟨hs, rfl, rfl, rfl, rfl, rfl, rfl, rfl, rfl, rfl, rfl⟩
  unfold Layout.step
  simp only [hc.isComment hs, h.ended, hc.serious hs]
  split
  · exact ⟨{ hreported with ended := rfl }, .cons (hblank false) .nil⟩
  · split
    · have hmarks : l'.afterEnd = l.afterEnd := hc.marks h.afterEnd
      cases hafter : l.afterEnd with
      | true =>
          have hafter' := hmarks.trans hafter
          simp only [hafter', if_true]
          exact ⟨{ hreported with ended := rfl, afterEnd := hc.marked },
            .cons (hblank false) .nil⟩
      | false =>
          have hafter' := hmarks.trans hafter
          simp only [hafter', Bool.false_eq_true, if_false]
          exact ⟨{ hreported with
            diagnostics := c.report hreported.diagnostics (hc.position hs) rfl
            ended := rfl
            afterEnd := hc.marked }, .cons (hblank false) .nil⟩
    · exact Matched.layOutStatement
        (Draft.Alike.checkLabel ⟨{ hreported with ended := rfl }, hblank _⟩)

/-! ### Equates -/

/-- The same equates wait. -/
theorem isWaiting_alike {r r' : Record} (h : r.Alike c r') :
    isWaiting r' = isWaiting r := by
  simp only [isWaiting, h.body]

/-- A record that says nothing does not wait. -/
theorem isWaiting_idle {r : Record} (h : r.IsIdle) : isWaiting r = false := by
  simp only [isWaiting, show r.body = .comment from h]

/-- What a relation of records has to say for equates to be settled alike: it
relates the equates that wait, which cannot be told apart. -/
structure Settling (c : Comparison) (idle : Record → Prop)
    (rel : Record → Record → Prop) :
    Prop where
  idle : ∀ {r}, idle r → isWaiting r = false
  waiting : ∀ {r r'}, rel r r' → isWaiting r' = isWaiting r
  alike : ∀ {r r'}, rel r r' → isWaiting r = true → r.Alike c r'
  rel : ∀ {r r'}, r.Alike c r' → rel r r'

theorem Settling.of_alike : Settling c Record.IsIdle (Record.Alike c) :=
  ⟨isWaiting_idle, isWaiting_alike, fun h _ => h, fun h => h⟩

namespace Settling

variable {idle : Record → Prop} {rel : Record → Record → Prop}
  {records records' : List Record}

/-- A round over the equates that wait settles the same ones. -/
theorem settleRound (hsettling : Settling c idle rel) (last : Bool)
    (h : l.Alike c l') (hrecords : Aligned idle rel records records') :
    (settleRound last l records).1.Alike c (settleRound last l' records').1 ∧
      Aligned idle rel (settleRound last l records).2
        (settleRound last l' records').2 := by
  induction hrecords generalizing l l' with
  | nil => exact ⟨h, .nil⟩
  | @cons r r' rest rest' hr _ ih =>
      unfold Layout.settleRound
      simp only [hsettling.waiting hr]
      by_cases hwaiting : isWaiting r = true
      · have hsettled : ((Draft.mk l r).settle last).Alike c
            ((Draft.mk l' r').settle last) :=
          Draft.Alike.settle ⟨h, hsettling.alike hr hwaiting⟩ last
        simp only [hwaiting, if_true]
        exact ⟨(ih hsettled.layout).1,
          .cons (hsettling.rel hsettled.record) (ih hsettled.layout).2⟩
      · simp only [hwaiting]
        exact ⟨(ih h).1, .cons hr (ih h).2⟩
  | left hidle _ ih =>
      simp only [Layout.settleRound, hsettling.idle hidle,
        Bool.false_eq_true, if_false]
      exact ⟨(ih h).1, .left hidle (ih h).2⟩
  | right hidle _ ih =>
      simp only [Layout.settleRound, hsettling.idle hidle,
        Bool.false_eq_true, if_false]
      exact ⟨(ih h).1, .right hidle (ih h).2⟩

theorem countP (hsettling : Settling c idle rel)
    (h : Aligned idle rel records records') :
    records'.countP isWaiting = records.countP isWaiting :=
  h.countP_eq (fun _ => hsettling.idle) fun _ _ => hsettling.waiting

/-- **Equates are settled alike.**  Any number of rounds that is large enough
for the equates that wait will do. -/
theorem settleAll (hsettling : Settling c idle rel) {fuel fuel' : Nat}
    (h : l.Alike c l') (hrecords : Aligned idle rel records records')
    (hfuel : records.countP isWaiting < fuel)
    (hfuel' : records.countP isWaiting < fuel') :
    (settleAll fuel l records).1.Alike c (settleAll fuel' l' records').1 ∧
      Aligned idle rel (settleAll fuel l records).2
        (settleAll fuel' l' records').2 := by
  induction fuel generalizing fuel' l l' records records' with
  | zero => omega
  | succ fuel ih =>
      obtain ⟨fuel', rfl⟩ : ∃ n, fuel' = n + 1 := ⟨fuel' - 1, by omega⟩
      obtain ⟨hlayout, hround⟩ := hsettling.settleRound false h hrecords
      have hle := countP_settleRound_le false l records
      unfold Layout.settleAll
      simp only [hsettling.countP hrecords, hsettling.countP hround]
      split
      · exact ⟨h, hrecords⟩
      · split
        · exact hsettling.settleRound true hlayout hround
        · exact ih hlayout hround (by omega) (by omega)

end Settling

theorem countP_isWaiting_aligned {records records' : List Record}
    (h : Aligned Record.IsIdle (Record.Alike c) records records') :
    records'.countP isWaiting = records.countP isWaiting :=
  Settling.of_alike.countP h

/-- All rounds settle the same equates, however many rounds each side has
left. -/
theorem Agree.settleAll {fuel fuel' : Nat} {records records' : List Record}
    (h : l.Alike c l')
    (hrecords : Aligned Record.IsIdle (Record.Alike c) records records')
    (hfuel : records.countP isWaiting < fuel)
    (hfuel' : records.countP isWaiting < fuel') :
    Agree c (settleAll fuel l records) (settleAll fuel' l' records') := by
  obtain ⟨hlayout, hsettled⟩ :=
    Settling.of_alike.settleAll h hrecords hfuel hfuel'
  exact ⟨hlayout, hsettled⟩

end Layout

namespace Program

theorem moveRecord_idle {r : Record} (t : SymbolTable) (h : r.IsIdle) :
    (moveRecord t r).IsIdle := by
  simp only [Record.IsIdle, moveRecord, show r.body = .comment from h]

/-- Records move with their sections. -/
theorem moveRecord_alike {t t' : SymbolTable} (ht : t.Alike c.line t')
    {r r' : Record} (h : r.Alike c r') :
    (moveRecord t r).Alike c (moveRecord t' r') := by
  have hoffset : ∀ id, t'.offset id = t.offset id := fun id => by
    rw [← SymbolTable.offset_mapLines c.line t', ht,
      SymbolTable.offset_mapLines]
  have hrelocate : ∀ v, t'.relocate v = t.relocate v := fun v => by
    rw [← SymbolTable.relocate_mapLines c.line t', ht,
      SymbolTable.relocate_mapLines]
  exact { h with
    body := by simp only [moveRecord, h.body, hrelocate]
    loc := by simp only [moveRecord, h.sectionId, h.loc, hoffset] }

/-- **Placing the sections of two programs.** -/
theorem Alike.normalize {p p' : Program} (h : p.Alike c p') :
    p.normalize.Alike c p'.normalize := by
  have hsymbols := h.layout.symbols.normalize
  have hoffset : p'.layout.symbols.normalize.offset =
      p.layout.symbols.normalize.offset := by
    funext id
    rw [← SymbolTable.offset_mapLines c.line, hsymbols,
      SymbolTable.offset_mapLines]
  refine ⟨{ h.layout with symbols := hsymbols, literals := ?_ }, h.records.map
    (fun _ => moveRecord_idle _) (fun _ => moveRecord_idle _) fun _ _ =>
      moveRecord_alike hsymbols⟩
  show LiteralPool.Alike c.line (p.layout.literals.relocate _)
    (p'.layout.literals.relocate _)
  unfold LiteralPool.Alike
  rw [hoffset, ← LiteralPool.relocate_mapLines, ← LiteralPool.relocate_mapLines,
    show p'.layout.literals.mapLines c.line = p.layout.literals.mapLines c.line
      from h.layout.literals]

end Program

end System370
