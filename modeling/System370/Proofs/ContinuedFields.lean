import System370.Proofs.OperandPlaces

/-!
# Operand fields over several lines

An operand field goes on with the next line of its statement.  The scanner
carries over what it knows of the text before, but looks ahead no further than
to the end of a line.  There are two apostrophes whose meaning depends on the
octet behind them:

* the first of two apostrophes that stand for one.  At the end of a line it
  closes the string, and the second one opens another, which comes to the same
  (`Scan.Meets`);
* the apostrophe of a length attribute.  At the end of a line it opens a string
  that the text does not have (`Scan.Severs`).

So a field is what its text is in a single line if no line ends behind the
apostrophe of a length attribute, and it is known exactly what it is otherwise
(`Statement.ofLines_laid`).
-/

namespace System370

namespace Scan

/-! ### Marks of texts in pieces -/

/-- The marks of a text that another octet may follow. -/
def markAhead (next : Option UInt8) (before : Bytes) (state : Quoting) :
    Bytes → List Mark × Quoting
  | [] => ([], state)
  | c :: rest =>
    let (quoted, after) := state.step before (rest.head?.or next) c
    let (marks, final) := markAhead next (c :: before) after rest
    (⟨c, quoted⟩ :: marks, final)

/-- The marks of pieces of a text, each of which is looked at without what
follows it. -/
def markPieces (before : Bytes) (state : Quoting) :
    List Bytes → List Mark × Quoting
  | [] => ([], state)
  | piece :: rest =>
    let (marks, after) := mark before state piece
    let (others, final) := markPieces (piece.reverse ++ before) after rest
    (marks ++ others, final)

/-- A text is cut behind the apostrophe of a length attribute: a piece ends with
an apostrophe that belongs to no string of the text, and there is more of the
text behind it. -/
def Severs (pieces : List Bytes) : Prop :=
  ∃ front back,
    pieces = front ++ back ∧ front.flatten ≠ [] ∧ back.flatten ≠ [] ∧
    (marks pieces.flatten)[front.flatten.length - 1]? = some ⟨quote, false⟩

theorem markAhead_none (before : Bytes) (state : Quoting) (text : Bytes) :
    markAhead none before state text = mark before state text := by
  induction text generalizing before state with
  | nil => rfl
  | cons c rest ih => simp only [markAhead, mark, Option.or_none, ih]

theorem length_markAhead (next : Option UInt8) (before : Bytes)
    (state : Quoting) (text : Bytes) :
    (markAhead next before state text).1.length = text.length := by
  induction text generalizing before state with
  | nil => rfl
  | cons c rest ih => simp only [markAhead, List.length_cons, ih]

/-- Two pieces are marked one after the other, the first with a look at the
second. -/
theorem markAhead_append (next : Option UInt8) (before : Bytes)
    (state : Quoting) (text others : Bytes) :
    markAhead next before state (text ++ others) =
      ((markAhead (others.head?.or next) before state text).1 ++
      (markAhead next (text.reverse ++ before)
        (markAhead (others.head?.or next) before state text).2 others).1,
    (markAhead next (text.reverse ++ before)
      (markAhead (others.head?.or next) before state text).2 others).2) := by
  induction text generalizing before state with
  | nil => rfl
  | cons c rest ih =>
      have hhead : (rest ++ others).head?.or next =
          rest.head?.or (others.head?.or next) := by
        rw [List.head?_append, Option.or_assoc]
      simp only [List.cons_append, markAhead, hhead, ih, List.reverse_cons,
        List.append_assoc, List.nil_append]

/-! ### Where pieces meet -/

/-- The states behind a piece, with and without a look at what follows.  They
are the same, but for a string that closes and opens again where the text has an
apostrophe in it. -/
def Meets (before : Bytes) (next : Option UInt8) (whole cut : Quoting) : Prop :=
  cut = whole ∨ whole = .doubled ∧ cut = .outside ∧ before.head? = some quote ∧
    next = some quote

/-- A cut that tells nothing changes nothing. -/
theorem Meets.eq {before : Bytes} {whole cut : Quoting}
    (h : Meets before none whole cut) :
    cut = whole := by
  rcases h with h | ⟨-, -, -, hnext⟩
  · exact h
  · cases hnext

/-- An apostrophe behind another one belongs to no length attribute. -/
theorem attributeQuote_quote {before : Bytes} (h : before.head? = some quote)
    (next : Option UInt8) :
    attributeQuote before next = false := by
  obtain ⟨rest, rfl⟩ := List.head?_eq_some_iff.mp h
  unfold attributeQuote
  cases rest <;> simp [quote]

/-- The states become the same with the next octet. -/
theorem Meets.step_eq {before : Bytes} {c : UInt8} {whole cut : Quoting}
    (h : Meets before (some c) whole cut) (next : Option UInt8) :
    cut.step before next c = whole.step before next c := by
  rcases h with rfl | ⟨rfl, rfl, hbefore, hnext⟩
  · rfl
  · rw [Option.some.inj hnext]
    simp [Quoting.step, attributeQuote_quote hbefore]

/-- Looking ahead matters behind an apostrophe only.  If that belongs to a
string, the states behind it meet. -/
theorem meets_step (before : Bytes) (state : Quoting)
    (next : Option UInt8) (c : UInt8)
    (h : next ≠ none → ¬ (c = quote ∧ (state.step before next c).1 = false)) :
    (state.step before none c).1 = (state.step before next c).1 ∧
      Meets (c :: before) next (state.step before next c).2
        (state.step before none c).2 := by
  cases next with
  | none => exact ⟨rfl, Or.inl rfl⟩
  | some d =>
      have hquoted := h (by simp)
      by_cases hc : c = quote
      · subst hc
        cases state with
        | outside =>
            have hattribute : attributeQuote before (some d) = false := by
              cases hvalue : attributeQuote before (some d) with
              | false => rfl
              | true => simp [Quoting.step, hvalue] at hquoted
            have hnone : attributeQuote before none = false := by
              unfold attributeQuote
              simp
            simp [Quoting.step, hattribute, hnone, Meets]
        | inside =>
            by_cases hd : d = quote
            · subst hd
              exact ⟨rfl, Or.inr ⟨rfl, rfl, rfl, rfl⟩⟩
            · simp [Quoting.step, hd, Meets]
        | doubled => exact ⟨rfl, Or.inl rfl⟩
      · cases state <;> simp [Quoting.step, hc, Meets]

/-- A piece has its marks whether what follows is looked at or not, unless it
ends with the apostrophe of a length attribute. -/
theorem Meets.mark {before : Bytes} {next : Option UInt8} {piece : Bytes}
    {whole cut : Quoting} (h : Meets before (piece.head?.or next) whole cut)
    (hlast : next ≠ none →
      (markAhead next before whole piece).1.getLast? ≠ some ⟨quote, false⟩) :
    (Scan.mark before cut piece).1 = (markAhead next before whole piece).1 ∧
      Meets (piece.reverse ++ before) next (markAhead next before whole piece).2
        (Scan.mark before cut piece).2 := by
  induction piece generalizing before whole cut with
  | nil => exact ⟨rfl, h⟩
  | cons c rest ih =>
      have hstep := h.step_eq
      cases rest with
      | nil =>
          have hquoted : next ≠ none →
              ¬ (c = quote ∧ (whole.step before next c).1 = false) := by
            rintro hnext ⟨rfl, hfalse⟩
            refine hlast hnext ?_
            simp [markAhead, hfalse]
          obtain ⟨hmark, hmeets⟩ := meets_step before whole next c hquoted
          simp only [Scan.mark, markAhead, List.head?_nil, Option.none_or,
            hstep none, hmark]
          exact ⟨trivial, hmeets⟩
      | cons d rest =>
          have hsame := hstep (some d)
          have hrest := @ih (c :: before) (whole.step before (some d) c).2
            (cut.step before (some d) c).2 (Or.inl (by rw [hsame]))
            (fun hnext hmark => hlast hnext (by
              have hne :
                  (markAhead next (c :: before) (whole.step before (some d) c).2
                  (d :: rest)).1 ≠ [] := by
                simp [markAhead]
              simp only [markAhead, List.head?_cons, Option.some_or]
                at hmark hne ⊢
              rwa [List.getLast?_cons_of_ne_nil hne]))
          simp only [Scan.mark, markAhead, List.head?_cons, Option.some_or,
            hsame, List.reverse_cons, List.append_assoc,
            List.singleton_append] at hrest ⊢
          exact ⟨congrArg _ hrest.1, hrest.2⟩

/-- **The marks of a text in pieces** are those of the text, unless a piece ends
with the apostrophe of a length attribute that the text goes on behind. -/
theorem Meets.markPieces {before : Bytes} {pieces : List Bytes}
    {whole cut : Quoting} (h : Meets before pieces.flatten.head? whole cut)
    (hcuts : ∀ front back, pieces = front ++ back → front.flatten ≠ [] →
      back.flatten ≠ [] →
      (Scan.mark before whole pieces.flatten).1[front.flatten.length - 1]? ≠
        some ⟨quote, false⟩) :
    Scan.markPieces before cut pieces =
      Scan.mark before whole pieces.flatten := by
  induction pieces generalizing before whole cut with
  | nil => exact congrArg (Prod.mk []) h.eq
  | cons piece rest ih =>
      have hhead : (piece ++ rest.flatten).head? =
          piece.head?.or rest.flatten.head? :=
        List.head?_append
      rw [List.flatten_cons, hhead] at h
      have happend := markAhead_append none before whole piece rest.flatten
      rw [markAhead_none, Option.or_none, markAhead_none] at happend
      have hlength := length_markAhead rest.flatten.head? before whole piece
      have hpiece := h.mark (fun hnext hlast => by
        have hrest : rest.flatten ≠ [] := by
          intro hnil
          rw [hnil] at hnext
          exact hnext rfl
        have hne : piece ≠ [] := by
          rintro rfl
          simp [markAhead] at hlast
        refine hcuts [piece] rest rfl (by simpa using hne) hrest ?_
        have hpos := List.length_pos_iff.mpr hne
        rw [List.flatten_cons, happend, List.flatten_singleton,
          List.getElem?_append_left (by omega), ← hlength,
          ← List.getLast?_eq_getElem?, hlast])
      have hrest := @ih (piece.reverse ++ before)
        (markAhead rest.flatten.head? before whole piece).2
        (Scan.mark before cut piece).2 hpiece.2
          (fun front back hparts hfront hback => by
          have hmark :=
            hcuts (piece :: front) back (by rw [hparts, List.cons_append])
              (by simp [hfront]) hback
          have hpos := List.length_pos_iff.mpr hfront
          rw [List.flatten_cons, happend, List.flatten_cons, List.length_append,
            List.getElem?_append_right (by omega)] at hmark
          have hindex : piece.length + front.flatten.length - 1 -
              (markAhead rest.flatten.head? before whole piece).1.length =
              front.flatten.length - 1 := by omega
          rwa [hindex] at hmark)
      simp only [Scan.markPieces, List.flatten_cons, happend, hrest, hpiece.1]

/-- A text that is cut nowhere behind the apostrophe of a length attribute has
its marks. -/
theorem markPieces_eq {pieces : List Bytes} (h : ¬ Severs pieces) :
    markPieces [] .outside pieces = mark [] .outside pieces.flatten :=
  Meets.markPieces (Or.inl rfl) fun front back hparts hfront hback hmark =>
    h ⟨front, back, hparts, hfront, hback, hmark⟩

/-- An octet is a blank outside strings if the scanner stands outside strings
and it is a blank. -/
theorem is_blank_step (before : Bytes) (state : Quoting) (next : Option UInt8)
    (c : UInt8) :
    (Mark.mk c (state.step before next c).1).is blank =
      decide (state = .outside ∧ c = blank) := by
  unfold Mark.is
  by_cases hc : c = blank
  · subst hc
    cases state <;> simp [Quoting.step, blank, quote]
  · cases state <;> simp [hc]

/-- A blank that follows is looked at like the end of a text. -/
theorem step_blank (before : Bytes) (state : Quoting) (c : UInt8) :
    state.step before (some blank) c = state.step before none c := by
  have hattribute : attributeQuote before (some blank) =
      attributeQuote before none := by
    unfold attributeQuote
    congr 1
  have hquote : some blank ≠ some quote := by decide
  cases state <;>
    simp only [Quoting.step, hattribute, if_neg hquote, reduceCtorEq, if_false]

/-- A blank behind a piece is as good as its end. -/
theorem step_append {tail : Bytes} (htail : ∀ c ∈ tail.head?, c = blank)
    (before : Bytes) (state : Quoting) (c : UInt8) (rest : Bytes) :
    state.step before (rest ++ tail).head? c =
      state.step before rest.head? c := by
  cases rest with
  | nil =>
      cases tail with
      | nil => rfl
      | cons d others =>
          obtain rfl := htail d rfl
          exact step_blank before state c
  | cons d others => rfl

/-- The marks of a text are clear if it has no blank outside strings. -/
def Clear (marks : List Mark) : Prop := ∀ m ∈ marks, m.is blank = false

instance (marks : List Mark) : Decidable (Clear marks) := by
  unfold Clear
  infer_instance

/-- No blank outside strings, octet by octet. -/
theorem clear_mark_cons (before : Bytes) (state : Quoting) (c : UInt8)
    (rest : Bytes) :
    Clear (mark before state (c :: rest)).1 ↔ ¬ (state = .outside ∧ c = blank) ∧
      Clear (mark (c :: before) (state.step before rest.head? c).2 rest).1 := by
  have hmark : (mark before state (c :: rest)).1 =
      ⟨c, (state.step before rest.head? c).1⟩ ::
      (mark (c :: before) (state.step before rest.head? c).2 rest).1 := rfl
  unfold Clear
  rw [hmark, List.forall_mem_cons, is_blank_step, decide_eq_false_iff_not]

end Scan

namespace OperandField

open Scan

/-! ### Collecting a field -/

variable {before : Bytes} {state : Quoting} {piece tail : Bytes}

/-- A piece without a blank outside strings goes into the field as a whole. -/
theorem scanText_of_clear (h : Clear (mark before state piece).1)
    (htail : ∀ c ∈ tail.head?, c = blank) :
    scanText before state (piece ++ tail) =
      scanText (piece.reverse ++ before) (mark before state piece).2 tail := by
  induction piece generalizing before state with
  | nil => rfl
  | cons c rest ih =>
      obtain ⟨hfirst, hrest⟩ := (clear_mark_cons _ _ _ _).mp h
      rw [List.cons_append, scanText, if_neg hfirst,
        step_append htail, ih hrest]
      simp [mark]

/-- Otherwise the field ends in front of that blank. -/
theorem scanText_of_not_clear (h : ¬ Clear (mark before state piece).1)
    (htail : ∀ c ∈ tail.head?, c = blank) :
    ∃ taken others, piece = taken ++ blank :: others ∧
    scanText before state (piece ++ tail) =
      ⟨taken.reverse ++ before, .outside, true, []⟩ := by
  induction piece generalizing before state with
  | nil => exact absurd (fun m hm => absurd hm List.not_mem_nil) h
  | cons c rest ih =>
      by_cases hstop : state = .outside ∧ c = blank
      · obtain ⟨rfl, rfl⟩ := hstop
        exact ⟨[], rest, rfl, by simp [scanText]⟩
      · obtain ⟨taken, others, rfl, hscan⟩ :=
          ih fun hrest => h ((clear_mark_cons _ _ _ _).mpr ⟨hstop, hrest⟩)
        refine ⟨c :: taken, others, rfl, ?_⟩
        rw [List.cons_append, scanText, if_neg hstop, step_append htail, hscan]
        simp

/-- Outside strings no blank comes into a field. -/
theorem scanText_outside (before text : Bytes) : ∃ taken : Bytes,
    (scanText before .outside text).before = taken.reverse ++ before ∧
      (∀ c ∈ taken.head?, c ≠ blank) ∧
      (taken = [] → (scanText before .outside text).state = .outside) := by
  cases text with
  | nil => exact ⟨[], rfl, by simp, fun _ => rfl⟩
  | cons c rest =>
      unfold scanText
      by_cases hc : c = blank
      · exact ⟨[], by simp [hc], by simp, by simp [hc]⟩
      · obtain ⟨taken, -, hbefore⟩ :=
          scanText_before (c :: before)
            (Quoting.step before rest.head? c .outside).2 rest
        refine ⟨c :: taken, ?_, by simpa using hc, by simp⟩
        simp only [hc, and_false, if_false, hbefore, List.reverse_cons,
          List.append_assoc]
        rfl

/-- A field that is scanned outside strings begins with no blank. -/
theorem scan_outside (before : Bytes) (skip : Bool) (segments : List Segment) :
    ∃ taken : Bytes,
    (scan before .outside skip segments).before = taken.reverse ++ before ∧
      ∀ c ∈ taken.head?, c ≠ blank := by
  induction segments generalizing before skip with
  | nil => exact ⟨[], rfl, by simp⟩
  | cons s rest ih =>
      simp only [scan]
      generalize (if skip then s.skipBlanks else s) = t
      obtain ⟨taken, hbefore, hhead, hstate⟩ := scanText_outside before t.text
      split
      · simp only
        cases taken with
        | nil =>
            rw [hstate rfl, hbefore]
            exact ih _ _
        | cons c others =>
            obtain ⟨more, hmore⟩ :=
              scan_before (scanText before .outside t.text).before
                (scanText before .outside t.text).state
                (scanText before .outside t.text).stopped rest
            refine ⟨(c :: others) ++ more.reverse, ?_, by simpa using hhead⟩
            rw [hmore, hbefore]
            simp
      · exact ⟨taken, hbefore, hhead⟩

/-- A piece without a blank outside strings is taken as a whole. -/
theorem scanText_piece (h : Clear (mark before state piece).1) :
    scanText before state piece =
      ⟨piece.reverse ++ before, (mark before state piece).2, false, []⟩ := by
  have htaken := @scanText_of_clear before state piece [] h (by simp)
  rwa [List.append_nil] at htaken

/-- **Collecting a field from pieces** that have no blank outside strings takes
all of them, and goes on with what stands behind the last. -/
theorem scan_of_clear {front : List Bytes} {last : Bytes}
    {segments : List Segment}
    (htexts : segments.map (·.text) = front ++ [last ++ tail])
    (htail : ∀ c ∈ tail.head?, c = blank)
    (h : Clear (markPieces before state (front ++ [last])).1) :
    (scan before state false segments).before =
        (scanText ((front ++ [last]).flatten.reverse ++ before)
          (markPieces before state (front ++ [last])).2 tail).before ∧
      (scan before state false segments).state =
        (scanText ((front ++ [last]).flatten.reverse ++ before)
          (markPieces before state (front ++ [last])).2 tail).state := by
  induction front generalizing before state segments with
  | nil =>
      obtain ⟨s, rfl, hs⟩ := List.map_eq_singleton_iff.mp htexts
      simp only [List.nil_append, markPieces, List.append_nil] at h
      simp only [scan, Bool.false_eq_true, if_false, hs,
        scanText_of_clear h htail, ite_self,
        List.nil_append, List.flatten_singleton, markPieces, and_self]
  | cons piece front ih =>
      obtain ⟨s, rest, rfl, hs, hrest⟩ := List.map_eq_cons_iff.mp htexts
      simp only [List.cons_append, markPieces] at h
      obtain ⟨hpiece, hothers⟩ := List.forall_mem_append.mp h
      have hgo := @ih (piece.reverse ++ before) (mark before state piece).2 rest
        hrest hothers
      simp only [scan, Bool.false_eq_true, if_false, hs, scanText_piece hpiece,
        true_or, if_true, List.cons_append, markPieces, List.flatten_cons,
        List.reverse_append, List.append_assoc] at hgo ⊢
      exact hgo

/-- If the first piece has a blank outside strings, the field is not the text of
the pieces: the next octet of the text is that blank, and the next octet of the
field is none, if there is one. -/
theorem scan_of_first_not_clear {s : Segment}
    (hs : s.text = piece ++ tail) (htail : ∀ c ∈ tail.head?, c = blank)
    (h : ¬ Clear (mark before state piece).1) (rest : List Segment)
    (others : Bytes) :
    (scan before state false (s :: rest)).before.reverse ≠
      before.reverse ++ (piece ++ others) := by
  obtain ⟨taken, skipped, rfl, hscan⟩ := scanText_of_not_clear h htail
  have hstop : ∀ more : Bytes, (∀ c ∈ more.head?, c ≠ blank) →
      (more.reverse ++ (taken.reverse ++ before)).reverse ≠
        before.reverse ++ (taken ++ blank :: skipped ++ others) := by
    intro more hmore heq
    rw [List.reverse_append, List.reverse_append, List.reverse_reverse,
      List.reverse_reverse,
      List.append_assoc, List.append_cancel_left_eq, List.append_assoc,
      List.append_cancel_left_eq] at heq
    exact hmore blank (by rw [heq]; rfl) rfl
  rw [← hs] at hscan
  simp only [scan, Bool.false_eq_true, if_false, hscan]
  split
  · obtain ⟨more, hmore, hhead⟩ :=
      scan_outside (taken.reverse ++ before) true rest
    simp only [hmore]
    exact hstop more hhead
  · exact hstop [] (by simp)

/-- A blank outside strings ends a field. -/
theorem scan_of_not_clear {front : List Bytes} {last : Bytes}
    {segments : List Segment}
    (htexts : segments.map (·.text) = front ++ [last ++ tail])
    (htail : ∀ c ∈ tail.head?, c = blank)
    (h : ¬ Clear (markPieces before state (front ++ [last])).1) :
    (scan before state false segments).before.reverse ≠
      before.reverse ++ (front ++ [last]).flatten := by
  induction front generalizing before state segments with
  | nil =>
      obtain ⟨s, rfl, hs⟩ := List.map_eq_singleton_iff.mp htexts
      simp only [List.nil_append, markPieces, List.append_nil] at h
      have hne := scan_of_first_not_clear hs htail h [] []
      simpa using hne
  | cons piece front ih =>
      obtain ⟨s, rest, rfl, hs, hrest⟩ := List.map_eq_cons_iff.mp htexts
      by_cases hpiece : Clear (mark before state piece).1
      · have hothers : ¬ Clear
            (markPieces (piece.reverse ++ before) (mark before state piece).2
            (front ++ [last])).1 := fun hothers => h (by
          simp only [List.cons_append, markPieces]
          exact List.forall_mem_append.mpr ⟨hpiece, hothers⟩)
        have hne := @ih (piece.reverse ++ before) (mark before state piece).2
          rest hrest hothers
        simp only [scan, Bool.false_eq_true, if_false, hs,
          scanText_piece hpiece, true_or, if_true,
          List.cons_append, List.flatten_cons]
        rwa [List.reverse_append, List.reverse_reverse,
          List.append_assoc] at hne
      · exact @scan_of_first_not_clear before state piece [] s
          (by rw [hs, List.append_nil]) (by simp)
          hpiece rest _

/-- What stands behind a field leaves it alone just if the blank in front of it
is outside strings. -/
theorem scanText_tail {closed : Prop}
    (htail : ∀ c ∈ tail.head?, c = blank) (hclosed : tail ≠ [] → closed) :
    (before = (scanText before state tail).before ∧
      ((scanText before state tail).state = .outside ↔ closed)) ↔
        (state = .outside ↔ closed) := by
  cases tail with
  | nil => simp [scanText]
  | cons c behind =>
      obtain rfl := htail c rfl
      have hend := hclosed (List.cons_ne_nil _ _)
      by_cases houtside : state = .outside
      · simp [scanText, houtside]
      · -- the blank is part of a string, so it is part of the field
        obtain ⟨taken, -, htaken⟩ :=
          scanText_before (blank :: before)
            (state.step before behind.head? blank).2 behind
        have hlonger : before ≠ taken.reverse ++ blank :: before :=
          fun heq => by
          have hlength := congrArg List.length heq
          simp only [List.length_append, List.length_cons] at hlength
          omega
        simp only [scanText, houtside, false_and, if_false, htaken, hlonger,
          hend, iff_true]

end OperandField

namespace Statement

open Scan

/-! ### Statements laid out over lines -/

/-- Two statements with the same operand field, the same operands and the same
faults, at the same places of the field. -/
structure SameField (s s' : Statement) : Prop where
  operand : s'.operand = s.operand
  operands : s'.operands = s.operands
  faults : ∃ places : List (Nat × Nat × Problem),
    s.faults = places.map (fun x => ⟨s.cursorAt x.1 x.2.1, x.2.2⟩) ∧
      s'.faults = places.map (fun x => ⟨s'.cursorAt x.1 x.2.1, x.2.2⟩)

/-- The statement with its operand field in a single segment. -/
def inSegment (s : Statement) (segment : Segment) : Statement :=
  { s with
    operand := [], operands := [], spans := []
    faults := [] }.withOperand [segment]

variable {s s' : Statement} {segments segments' : List Segment}

/-- Splitting the same field has the same result. -/
theorem sameField_splitOperands (h : s'.operand = s.operand)
    (hoperands : s.operands = []) (hoperands' : s'.operands = [])
    (hfaults : s.faults = []) (hfaults' : s'.faults = []) :
    s.splitOperands.SameField s'.splitOperands := by
  unfold splitOperands
  rw [h]
  split
  · exact ⟨rfl, rfl, [], hfaults, hfaults'⟩
  · exact ⟨rfl, rfl, [(_, 1, .unbalancedParentheses)], rfl, rfl⟩
  · refine ⟨rfl, hoperands'.trans hoperands.symm,
      [(0, s.operand.length, .unbalancedParentheses)], rfl, ?_⟩
    simp only [List.map_cons, List.map_nil, fieldCursor, h]
    rfl

/-- A field without an end of its last string is reported as such, and no
other. -/
theorem unterminated_withOperand (hbare : s.Bare) {first : Segment}
    (hfirst : first.text ≠ []) :
    .unterminatedString ∈ (s.withOperand (first :: segments)).faults.map
      (·.problem) ↔
      (OperandField.scan [] .outside false (first :: segments)).state ≠
        .outside := by
  unfold withOperand
  simp only [if_neg hfirst]
  split
  · rename_i hstate
    simp [hstate]
  · rename_i hstate
    simp only [hstate, iff_false]
    unfold splitOperands
    split <;> simp [hbare.faults]

/-- The operand field of a statement is what the scan takes. -/
theorem operand_withOperand {first : Segment} (hfirst : first.text ≠ []) :
    (s.withOperand (first :: segments)).operand =
      (OperandField.scan [] .outside false
        (first :: segments)).before.reverse := by
  unfold withOperand
  simp only [if_neg hfirst]
  split
  · rfl
  · unfold splitOperands
    split <;> rfl

/-- **Fields with the same text and the same end** are the same. -/
theorem sameField_withOperand (hbare : s.Bare) (hbare' : s'.Bare)
    {first first' : Segment} (hfirst : first.text ≠ [])
    (hfirst' : first'.text ≠ []) :
    (s.withOperand (first :: segments)).SameField
      (s'.withOperand (first' :: segments')) ↔
      (OperandField.scan [] .outside false (first' :: segments')).before =
          (OperandField.scan [] .outside false (first :: segments)).before ∧
        ((OperandField.scan [] .outside false (first :: segments)).state =
          .outside ↔
          (OperandField.scan [] .outside false (first' :: segments')).state =
            .outside) := by
  have hstring := @unterminated_withOperand s segments hbare first hfirst
  have hstring' := @unterminated_withOperand s' segments' hbare' first' hfirst'
  constructor
  · intro h
    have hsame := h.operand
    rw [operand_withOperand hfirst, operand_withOperand hfirst',
      List.reverse_inj] at hsame
    obtain ⟨places, hfaults, hfaults'⟩ := h.faults
    have hproblems :
        (s'.withOperand (first' :: segments')).faults.map (·.problem) =
        (s.withOperand (first :: segments)).faults.map (·.problem) := by
      rw [hfaults, hfaults', List.map_map, List.map_map]
      rfl
    rw [hproblems] at hstring'
    exact ⟨hsame, not_iff_not.mp (hstring.symm.trans hstring')⟩
  · rintro ⟨hbefore, hstate⟩
    unfold withOperand
    simp only [if_neg hfirst, if_neg hfirst', hbefore, ne_eq, ← hstate]
    split
    · exact ⟨rfl, hbare'.operands.trans hbare.operands.symm,
        [(0, _, .unterminatedString)], rfl, rfl⟩
    · exact sameField_splitOperands rfl hbare.operands hbare'.operands
        hbare.faults hbare'.faults

/-! ### The first line of a statement -/

/-- A text that begins with octets of one sort, up to one of another sort. -/
theorem takeWhile_of_boundary {p : UInt8 → Bool} {body rest : Bytes}
    (hbody : ∀ c ∈ body, p c = true) (hrest : ∀ c ∈ rest.head?, p c = false) :
    (body ++ rest).takeWhile p = body ∧ (body ++ rest).dropWhile p = rest := by
  have htaken : rest.takeWhile p = [] := by
    cases rest with
    | nil => rfl
    | cons c others => simp [hrest c rfl]
  have hdropped : rest.dropWhile p = rest := by
    cases rest with
    | nil => rfl
    | cons c others => simp [hrest c rfl]
  rw [List.takeWhile_append_of_pos hbody, List.dropWhile_append_of_pos hbody,
    htaken, hdropped, List.append_nil]
  exact ⟨rfl, rfl⟩

variable {first : Line} {rest : List Line} {label mnemonic : Bytes}

/-- The statement of a line with a label, a mnemonic and an operand field. -/
theorem ofLines_columns {gap gap' : Nat} {field : Bytes}
    (hplain : isCommentText first.text = false)
    (hlabelled : ∀ c ∈ label, c ≠ blank) (hspelled : ∀ c ∈ mnemonic, c ≠ blank)
    (hnamed : mnemonic ≠ []) (hfield : ∀ c ∈ field.head?, c ≠ blank)
    (htext : first.text = label ++ (List.replicate (gap + 1) blank ++
      (mnemonic ++ (List.replicate (gap' + 1) blank ++ field)))) :
    ∃ (bare : Statement) (column : Nat), bare.Bare ∧
      ofLines first rest = bare.withOperand (fieldSegments first column rest) ∧
      (Segment.ofLine first column).text = field := by
  have hblanks : ∀ n, ∀ c ∈ List.replicate (n + 1) blank,
      decide (c = blank) = true := by
    intro n c hc
    exact decide_eq_true (List.eq_of_mem_replicate hc)
  have hgap : ∀ (n : Nat) (behind : Bytes),
      ∀ c ∈ (List.replicate (n + 1) blank ++ behind).head?,
      decide (c ≠ blank) = false := by
    intro n behind c hc
    rw [List.replicate_succ, List.cons_append, List.head?_cons,
      Option.mem_some_iff] at hc
    simp [hc]
  have hhead : ∀ behind : Bytes, ∀ c ∈ (mnemonic ++ behind).head?,
      c ≠ blank := by
    intro behind
    obtain ⟨c, more, hmore⟩ := List.exists_cons_of_ne_nil hnamed
    have hc := hspelled c (hmore ▸ List.mem_cons_self)
    rw [hmore]
    simpa using hc
  -- the label, the mnemonic and the blanks behind them, each up to what stands
  -- behind it
  have hlabel := takeWhile_of_boundary (p := fun c => decide (c ≠ blank))
    (fun c hc => decide_eq_true (hlabelled c hc))
      (hgap gap (mnemonic ++ (List.replicate (gap' + 1)
      blank ++ field)))
  have hgaps := @takeWhile_of_boundary (fun c => decide (c = blank)) _
    (mnemonic ++ (List.replicate (gap' + 1) blank ++ field)) (hblanks gap)
    (fun c hc => decide_eq_false (hhead _ c hc))
  have hmnemonic := takeWhile_of_boundary (p := fun c => decide (c ≠ blank))
    (fun c hc => decide_eq_true (hspelled c hc)) (hgap gap' field)
  have hgaps' :=
    takeWhile_of_boundary (p := fun c => decide (c = blank)) (hblanks gap')
      (fun c hc => decide_eq_false (hfield c hc))
  have hstatement : ∃ bare : Statement,
      bare.Bare ∧ ofLines first rest = bare.withOperand
      (fieldSegments first
        (label.length + (List.replicate (gap + 1) blank).length +
        mnemonic.length + (List.replicate (gap' + 1) blank).length +
          1) rest) := by
    rw [htext] at hplain
    unfold ofLines
    simp only [hplain, htext, hlabel.1, hgaps, hmnemonic.1, List.drop_left,
      hgaps'.1, hnamed, Bool.false_eq_true, if_false]
    refine ⟨_, ?_, rfl⟩
    exact ⟨rfl, rfl, rfl, rfl⟩
  obtain ⟨bare, hbare, hstatement⟩ := hstatement
  refine ⟨bare, _, hbare, hstatement, ?_⟩
  rw [Segment.ofLine, htext]
  simp [← List.append_assoc]

/-- Lines with an operand field in pieces.  The first line has a label, which
may be empty, a mnemonic and the first piece, with blanks between them.  Each
further line has a piece from the column on where statements go on.  The field
may end with a blank and whatever is behind it, unless the blank were part of a
string.  A line that is continued has no column left behind its piece. -/
structure Laid (first : Line) (rest : List Line) (label mnemonic : Bytes)
    (front : List Bytes) (last tail : Bytes) : Prop where
  plain : isCommentText first.text = false
  labelled : ∀ c ∈ label, c ≠ blank
  spelled : ∀ c ∈ mnemonic, c ≠ blank
  named : mnemonic ≠ []
  columns : ∃ (gap gap' : Nat) (field : Bytes),
    first.text = label ++ (List.replicate (gap + 1) blank ++
      (mnemonic ++ (List.replicate (gap' + 1) blank ++ field))) ∧
    field :: rest.map (·.text.drop (Line.continueColumn - 1)) = front ++
      [last ++ tail]
  started : ∀ piece ∈ (front ++ [last]).head?, piece ≠ []
  ended : ∀ c ∈ tail.head?, c = blank
  closed : tail ≠ [] → endsInString (front ++ [last]).flatten = false

variable {last tail : Bytes} {front : List Bytes}

/-- The first octet of a field that is clear is no blank. -/
theorem Laid.head_ne_blank (h : Laid first rest label mnemonic front last tail)
    (hw : Clear (marks (front ++ [last]).flatten)) : ∃ piece others,
      front ++ [last] = piece :: others ∧ piece ≠ [] ∧ ∀ c ∈ piece.head?,
      c ≠ blank := by
  obtain ⟨piece, others, hparts⟩ := List.exists_cons_of_ne_nil
    (show front ++ [last] ≠ [] by simp)
  have hne := h.started piece (by rw [hparts]; rfl)
  refine ⟨piece, others, hparts, hne, fun c hc => ?_⟩
  obtain ⟨behind, rfl⟩ := List.head?_eq_some_iff.mp hc
  rw [hparts, List.flatten_cons, List.cons_append] at hw
  have hfirst := ((clear_mark_cons [] .outside c _).mp hw).1
  exact fun hblank => hfirst ⟨rfl, hblank⟩

/-- The statement of such lines has the segments of its pieces. -/
theorem Laid.withOperand (h : Laid first rest label mnemonic front last tail)
    (hw : Clear (marks (front ++ [last]).flatten)) :
    ∃ (bare : Statement) (segment : Segment) (segments : List Segment),
    bare.Bare ∧
      ofLines first rest = bare.withOperand (segment :: segments) ∧
      segment.text ≠ [] ∧
      (segment :: segments).map (·.text) = front ++ [last ++ tail] := by
  obtain ⟨gap, gap', field, htext, hfield⟩ := h.columns
  obtain ⟨piece, others, hparts, hne, hhead⟩ := h.head_ne_blank hw
  -- the first piece begins the field, which thus begins with no blank
  have hfirst : ∃ behind, field = piece ++ behind := by
    cases front with
    | nil =>
        obtain ⟨rfl, -⟩ := List.cons.inj hparts
        exact ⟨tail, (List.cons.inj hfield).1⟩
    | cons _ _ =>
        obtain ⟨rfl, -⟩ := List.cons.inj hparts
        exact ⟨[], by rw [List.append_nil]; exact (List.cons.inj hfield).1⟩
  obtain ⟨behind, rfl⟩ := hfirst
  obtain ⟨bare, column, hbare, hstatement, hopening⟩ :=
    @ofLines_columns first rest _ _ _ _ _ h.plain
      h.labelled h.spelled h.named (by
        obtain ⟨c, more, rfl⟩ := List.exists_cons_of_ne_nil hne
        simpa using hhead) htext
  refine ⟨bare, _, _, hbare, hstatement, ?_, ?_⟩
  · rw [hopening]
    simp [hne]
  · rw [List.map_cons, hopening, List.map_map, ← hfield]
    rfl

/-- **Continuation of operand fields.**  A field `w` without a blank outside
strings is laid out over lines in pieces.  The statement has the field, the
operands and the faults that it has with the field in a single segment exactly
if the pieces, each looked at by itself, have no blank outside strings either,
and end in a string if and only if `w` does.  This is so if no line ends behind
the apostrophe of a length attribute, where `w` goes on with the next line. -/
theorem ofLines_laid {w : Bytes}
    (h : Laid first rest label mnemonic front last tail)
    (hw : w = (front ++ [last]).flatten) (hclear : Clear (marks w))
    {segment : Segment} (hsegment : segment.text = w) :
    ((ofLines first rest).inSegment segment).operand = w ∧
      ((ofLines first rest).SameField
          ((ofLines first rest).inSegment segment) ↔
        Clear (markPieces [] .outside (front ++ [last])).1 ∧
          ((markPieces [] .outside (front ++ [last])).2 = .outside ↔
            endsInString w = false)) ∧
      (¬ Severs (front ++ [last]) →
        (ofLines first rest).SameField
          ((ofLines first rest).inSegment segment)) := by
  subst hw
  obtain ⟨bare, opening, segments, hbare, hstatement, hopening, htexts⟩ :=
    h.withOperand hclear
  obtain ⟨piece, others, hparts, hne, -⟩ := h.head_ne_blank hclear
  have hnonempty : segment.text ≠ [] := by
    rw [hsegment, hparts, List.flatten_cons]
    simp [hne]
  -- in a single segment the field is taken as a whole
  have hsingle := @OperandField.scan_of_clear [] .outside [] []
    (front ++ [last]).flatten [segment]
    (by simp [hsegment]) (by simp) (by simpa [markPieces, marks] using hclear)
  simp only [List.nil_append, List.flatten_singleton, List.append_nil,
    markPieces, OperandField.scanText] at hsingle
  obtain ⟨hbefore, hstate⟩ := hsingle
  have hends : ((mark [] .outside (front ++ [last]).flatten).2 = .outside) ↔
      endsInString (front ++ [last]).flatten = false := by
    unfold endsInString
    simp
  have hsame :
      (ofLines first rest).SameField ((ofLines first rest).inSegment segment) ↔
      Clear (markPieces [] .outside (front ++ [last])).1 ∧
        ((markPieces [] .outside (front ++ [last])).2 = .outside ↔
          endsInString (front ++ [last]).flatten = false) := by
    have hfields := @sameField_withOperand bare
      { ofLines first rest with
        operand := [], operands := [], spans := [], faults := [] } segments []
      hbare ⟨rfl, rfl, rfl, rfl⟩ opening segment hopening hnonempty
    rw [← hstatement, hbefore, hstate, hends] at hfields
    refine hfields.trans ?_
    by_cases hpieces : Clear (markPieces [] .outside (front ++ [last])).1
    · obtain ⟨hbefore', hstate'⟩ :=
        OperandField.scan_of_clear htexts h.ended hpieces
      rw [hbefore', hstate', List.append_nil]
      simp only [hpieces, true_and]
      exact OperandField.scanText_tail h.ended h.closed
    · have hfield := OperandField.scan_of_not_clear htexts h.ended hpieces
      simp only [hpieces, false_and, iff_false]
      rintro ⟨hbefore', -⟩
      rw [← hbefore'] at hfield
      simp at hfield
  refine ⟨?_, hsame, fun hsevers => hsame.mpr ?_⟩
  · show (Statement.withOperand _ [segment]).operand = _
    rw [operand_withOperand hnonempty, hbefore, List.reverse_reverse]
  · rw [markPieces_eq hsevers]
    exact ⟨hclear, hends⟩

/-- A line that ends between two apostrophes that stand for one changes nothing.
One that ends behind the apostrophe of a length attribute opens a string. -/
theorem ofLines_laid_apostrophes :
    (∃ first rest, Laid first rest [] (bytes "DC") [bytes "C'X'"] (bytes "'Y'")
      (bytes " remark") ∧
      ∀ segment : Segment, segment.text = bytes "C'X''Y'" →
        (ofLines first rest).SameField
          ((ofLines first rest).inSegment segment)) ∧
    ∃ first rest,
    Laid first rest [] (bytes "DC") [bytes "A(L'"] (bytes "FIELD)") [] ∧
      ∀ segment : Segment, segment.text = bytes "A(L'FIELD)" →
        ¬ (ofLines first rest).SameField
          ((ofLines first rest).inSegment segment) := by
  have hquotes :
      Laid ⟨1, 0, bytes " DC" ++ List.replicate 64 blank ++ bytes "C'X'X"⟩
      [⟨2, 73, List.replicate 15 blank ++ bytes "'Y' remark"⟩] [] (bytes "DC")
        [bytes "C'X'"]
      (bytes "'Y'") (bytes " remark") :=
    ⟨by decide +kernel, by decide +kernel, by decide +kernel, by decide,
      ⟨0, 63, bytes "C'X'", by decide +kernel, by decide +kernel⟩, by decide,
      by decide +kernel, by decide⟩
  have hattribute :
      Laid ⟨1, 0, bytes " DC" ++ List.replicate 64 blank ++ bytes "A(L'X"⟩
      [⟨2, 73, List.replicate 15 blank ++ bytes "FIELD)"⟩] [] (bytes "DC")
        [bytes "A(L'"]
      (bytes "FIELD)") [] :=
    ⟨by decide +kernel, by decide +kernel, by decide +kernel, by decide,
      ⟨0, 63, bytes
        "A(L'", by decide +kernel, by decide +kernel⟩, by decide, by decide +kernel,
      by decide⟩
  refine ⟨⟨_, _, hquotes, fun segment hsegment => ?_⟩,
    ⟨_, _, hattribute, fun segment hsegment => ?_⟩⟩
  · exact (ofLines_laid hquotes rfl (by decide) hsegment).2.1.mpr (by decide)
  · exact (not_congr (ofLines_laid hattribute rfl (by decide) hsegment).2.1).mpr
      (by decide)

end Statement

end System370
