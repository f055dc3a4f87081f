import System370.Proofs.ListScanning

/-!
# Operand fields that cannot be split

An operand field is cut at its commas up to its end, or up to the first
parenthesis that has no partner (`Scan.Ends`).  The pieces in front of it are
the same either way (`Scan.Cuts`), but what becomes of them is not
(`Scan.Balance.kept`): an opening parenthesis without a partner drops them, a
closing one leaves those that a comma ends.

* `Scan.Cuts.splitFrom`: what cutting finds, for all marks;
* `Scan.Cuts.exposed_iff`: some pieces are left just if a comma outside
  parentheses stands in front of a closing parenthesis without a partner;
* `Statement.allOrNone_iff`: so a statement has all operands of its field or
  none, unless its field is of that kind.
-/

namespace System370

namespace Scan

/-! ### Parentheses without a partner -/

/-- What marks that pair up are followed by if they cannot be followed any
further: nothing, or a parenthesis without a partner.  `position` is where it
stands. -/
inductive Ends (position : Nat) : List Mark → Balance → Prop where
  | nothing : Ends position [] .balanced
  | closing (more : List Mark) :
      Ends position (⟨closeParen, false⟩ :: more) (.excess position)
  | opening {more : List Mark} (h : ∀ inner rest,
        more = inner ++ ⟨closeParen, false⟩ :: rest → ¬ Nested true inner) :
      Ends position (⟨openParen, false⟩ :: more) .missing

/-- Marks pair up to their end or to the first parenthesis without a partner. -/
theorem exists_nested (ms : List Mark) :
    ∃ front rest, ms = front ++ rest ∧ Nested true front ∧
    ∀ position, ∃ balance, Ends position rest balance := by
  -- a group is passed over as a whole, so the induction is on the number of
  -- marks
  induction hlength : ms.length using Nat.strong_induction_on
    generalizing ms with
  | h n ih =>
      subst hlength
      cases ms with
      | nil => exact ⟨[], [], rfl, .nil, fun _ => ⟨.balanced, .nothing⟩⟩
      | cons m ms =>
          cases hopen : m.is openParen with
          | true =>
              obtain rfl := Mark.eq_of_is hopen
              cases hclose : closeAt 1 ms with
              | none =>
                  refine ⟨[], _, rfl, .nil, fun _ => ⟨.missing, .opening ?_⟩⟩
                  intro inner rest heq hinner
                  rw [closeAt_one_iff.mpr ⟨inner, rest, heq, hinner, rfl⟩]
                    at hclose
                  cases hclose
              | some i =>
                  obtain ⟨inner, behind, rfl, hinner, -⟩ :=
                    closeAt_one_iff.mp hclose
                  obtain ⟨front, rest, rfl, hfront, hends⟩ :=
                    ih behind.length (by simp; omega) behind rfl
                  exact ⟨⟨openParen, false⟩ ::
                    (inner ++ ⟨closeParen, false⟩ :: front), rest,
                    by simp, .group hinner hfront, hends⟩
          | false =>
              cases hclose : m.is closeParen with
              | true =>
                  obtain rfl := Mark.eq_of_is hclose
                  exact ⟨[], _, rfl, .nil,
                    fun position => ⟨.excess position, .closing ms⟩⟩
              | false =>
                  obtain ⟨front, rest, rfl, hfront, hends⟩ :=
                    ih ms.length (by simp) ms rfl
                  exact ⟨m :: front, rest, rfl,
                    .octet hopen hclose (fun _ => rfl) hfront, hends⟩

/-- What pairs up without commas of its own pairs up. -/
theorem Nested.weaken {commas : Bool} {ms : List Mark} (h : Nested commas ms) :
    Nested true ms := by
  induction h with
  | nil => exact .nil
  | octet hopen hclose _ _ ih => exact .octet hopen hclose (fun _ => rfl) ih
  | group inside _ _ ih => exact .group inside ih

/-- Nested texts one behind the other. -/
theorem Nested.append {commas : Bool} {ms ms' : List Mark}
    (h : Nested commas ms) (h' : Nested commas ms') :
    Nested commas (ms ++ ms') := by
  induction h with
  | nil => exact h'
  | octet hopen hclose hcomma _ ih => exact .octet hopen hclose hcomma (ih h')
  | group inside _ _ ih =>
      rw [List.cons_append, List.append_assoc, List.cons_append]
      exact .group inside (ih h')

/-! ### Pieces in front of them -/

/-- Marks cut at their commas as far as they pair up: the pieces that a comma
ends, and the last piece, which ends where the marks do or in front of a
parenthesis without a partner. -/
inductive Cuts : Nat → List Mark → List (List Mark) → List Mark →
    Balance → Prop where
  | last {position : Nat} {piece rest : List Mark} {balance : Balance}
      (nested : Nested false piece)
      (ends : Ends (position + piece.length) rest balance) :
      Cuts position (piece ++ rest) [] piece balance
  | next {position : Nat} {piece ms : List Mark} {pieces : List (List Mark)}
      {last : List Mark} {balance : Balance} (nested : Nested false piece)
      (more : Cuts (position + piece.length + 1) ms pieces last balance) :
      Cuts position (piece ++ ⟨comma, false⟩ :: ms) (piece :: pieces)
        last balance

/-- The pieces that are left, given those that a comma ends and the last one. -/
def Balance.kept (pieces : List Bytes) (last : Bytes) : Balance → List Bytes
  | .balanced => pieces ++ [last]
  | .excess _ => pieces
  | .missing => []

/-- Marks that a comma outside parentheses stands in, and behind it a closing
parenthesis without a partner. -/
def Exposed (ms : List Mark) : Prop :=
  ∃ front behind more,
    ms = front ++ ⟨comma, false⟩ :: (behind ++ ⟨closeParen, false⟩ :: more) ∧
    Nested true front ∧ Nested true behind

variable {position : Nat} {ms : List Mark} {pieces : List (List Mark)}
  {last : List Mark} {balance : Balance}

/-- Marks without commas of their own go into the first piece. -/
theorem Cuts.prepend {front : List Mark} (hfront : Nested false front)
    (h : Cuts (position + front.length) ms pieces last balance) :
    ∃ pieces' last',
    Cuts position (front ++ ms) pieces' last' balance ∧
    pieces'.length = pieces.length := by
  have hposition : ∀ piece : List Mark,
      position + front.length + piece.length =
        position + (front ++ piece).length := by
    intro piece
    rw [List.length_append]
    omega
  cases h with
  | last nested ends =>
      rw [hposition] at ends
      rw [← List.append_assoc]
      exact ⟨[], _, .last (hfront.append nested) ends, rfl⟩
  | next nested more =>
      rw [hposition] at more
      rw [← List.append_assoc]
      exact ⟨_ :: _, last, .next (hfront.append nested) more, rfl⟩

/-- **What stands in front of a text that is cut is cut as well**, if it pairs
up. -/
theorem Nested.cuts {front : List Mark} (hfront : Nested true front)
    (h : Cuts (position + front.length) ms pieces last balance) :
    ∃ pieces' last',
    Cuts position (front ++ ms) pieces' last' balance ∧
    pieces.length ≤ pieces'.length := by
  generalize hcommas : true = commas at hfront
  induction hfront generalizing position with
  | nil => exact ⟨pieces, last, h, Nat.le_refl _⟩
  | @octet commas m front hopen hclose _ _ ih =>
      have hposition : position + (m :: front).length =
          position + 1 + front.length := by
        rw [List.length_cons]
        omega
      rw [hposition] at h
      obtain ⟨pieces', last', hcuts, hle⟩ := ih h hcommas
      cases hcomma : m.is comma with
      | true =>
          obtain rfl := Mark.eq_of_is hcomma
          exact ⟨[] :: pieces', last', .next .nil hcuts, Nat.le_succ_of_le hle⟩
      | false =>
          have hsingle : Nested false [m] :=
            .octet hopen hclose (by simp [hcomma]) .nil
          obtain ⟨pieces'', last'', hcuts', hlength⟩ := hcuts.prepend hsingle
          exact ⟨pieces'', last'', hcuts', hlength ▸ hle⟩
  | @group commas inner front inside _ _ ih =>
      have hposition : position +
          (⟨openParen, false⟩ :: (inner ++ ⟨closeParen, false⟩ :: front) :
          List Mark).length =
            position + (⟨openParen, false⟩ :: (inner ++ [⟨closeParen, false⟩]) :
          List Mark).length + front.length := by
        simp only [List.length_cons, List.length_append, List.length_nil]
        omega
      rw [hposition] at h
      obtain ⟨pieces', last', hcuts, hle⟩ := ih h hcommas
      obtain ⟨pieces'', last'', hcuts', hlength⟩ :=
        hcuts.prepend (.group inside .nil)
      refine ⟨pieces'', last'', ?_, hlength ▸ hle⟩
      simpa [List.append_assoc] using hcuts'

/-- **All marks can be cut** as far as they pair up. -/
theorem exists_cuts (position : Nat) (ms : List Mark) :
    ∃ pieces last balance, Cuts position ms pieces last balance := by
  obtain ⟨front, rest, rfl, hfront, hends⟩ := exists_nested ms
  obtain ⟨balance, hbalance⟩ := hends (position + front.length)
  obtain ⟨pieces, last, hcuts, -⟩ := hfront.cuts (.last .nil hbalance)
  exact ⟨pieces, last, balance, hcuts⟩

/-- What is cut pairs up to where it is cut no further. -/
theorem Cuts.exists_front (h : Cuts position ms pieces last balance) :
    ∃ front rest,
    ms = front ++ rest ∧ Nested true front ∧
      Ends (position + front.length) rest balance := by
  induction h with
  | last nested ends => exact ⟨_, _, rfl, nested.weaken, ends⟩
  | @next position piece ms pieces last balance nested _ ih =>
      obtain ⟨front, rest, rfl, hfront, hends⟩ := ih
      refine ⟨piece ++ ⟨comma, false⟩ :: front, rest, by simp,
        nested.weaken.append
          (.octet (by decide) (by decide) (fun _ => rfl) hfront), ?_⟩
      have hposition : position + piece.length + 1 + front.length =
          position + (piece ++ ⟨comma, false⟩ :: front).length := by
        rw [List.length_append, List.length_cons]
        omega
      exact hposition ▸ hends

/-- An opening parenthesis without a partner is missed at the end. -/
theorem splitFrom_eq_missing {depth : Nat} {piece : Bytes}
    (h : closeAt (depth + 1 : Nat) ms = none) :
    splitFrom (depth + 1) position piece ms = ([], .missing) := by
  induction ms generalizing depth position piece with
  | nil => rfl
  | cons m rest ih =>
      rw [closeAt] at h
      rw [splitFrom]
      split at h
      · rename_i hopen
        rw [if_pos hopen]
        exact ih (Option.map_eq_none_iff.mp h)
      · rename_i hopen
        rw [if_neg hopen]
        split at h
        · rename_i hclose
          rw [if_pos hclose, if_neg (by omega)]
          split at h
          · cases h
          · -- the group goes on behind the parenthesis, so it is not the
            -- outermost one
            obtain ⟨depth, rfl⟩ : ∃ less, depth = less + 1 :=
              Nat.exists_eq_succ_of_ne_zero (by omega)
            have hless : ((depth + 1 + 1 : Nat) : Int) - 1 =
                (depth + 1 : Nat) := by
              omega
            rw [hless] at h
            exact ih (Option.map_eq_none_iff.mp h)
        · rename_i hclose
          rw [if_neg hclose, if_neg (by omega)]
          exact ih (Option.map_eq_none_iff.mp h)

/-- **What cutting finds** are the pieces, all of them, those that a comma ends,
or none. -/
theorem Cuts.splitFrom (h : Cuts position ms pieces last balance) :
    Scan.splitFrom 0 position [] ms =
      (balance.kept (pieces.map octets) (octets last), balance) := by
  induction h with
  | last nested ends =>
      rw [nested.splitFrom (by simp), List.append_nil]
      cases ends with
      | nothing => simp [Scan.splitFrom, Balance.kept]
      | closing more =>
          rw [Scan.splitFrom, if_neg (by decide),
            if_pos (by decide), if_pos rfl]
          rfl
      | @opening more h =>
          have hclose : closeAt 1 more = none := by
            rw [Option.eq_none_iff_forall_ne_some]
            intro i hi
            obtain ⟨inner, rest, heq, hinner, -⟩ := closeAt_one_iff.mp hi
            exact h inner rest heq hinner
          rw [Scan.splitFrom, if_pos (by decide), splitFrom_eq_missing hclose]
          rfl
  | @next position piece ms pieces last balance nested _ ih =>
      rw [nested.splitFrom (by simp), List.append_nil, Scan.splitFrom,
        if_neg (by decide),
        if_neg (by decide), if_pos ⟨by decide, rfl⟩, ih, List.reverse_reverse]
      cases balance <;> rfl

/-- Pieces that are cut to the end are the text, with the commas between
them. -/
theorem Cuts.join (h : Cuts position ms pieces last .balanced) :
    Bytes.join [comma] ((pieces ++ [last]).map octets) = octets ms := by
  generalize hbalance : Balance.balanced = balance at h
  induction h with
  | last nested ends =>
      subst hbalance
      cases ends
      simp [Bytes.join]
  | @next position piece ms pieces last balance nested more ih =>
      have hne : (pieces ++ [last]).map octets ≠ [] := by simp
      rw [List.cons_append, List.map_cons, Bytes.join.eq_3 _ _ _ hne,
        ih hbalance]
      simp [octets]

/-- Marks are cut to their end just if their parentheses pair up. -/
theorem Cuts.balanced_iff (h : Cuts position ms pieces last balance) :
    balance = .balanced ↔ Nested true ms := by
  constructor
  · rintro rfl
    obtain ⟨front, rest, rfl, hfront, hends⟩ := h.exists_front
    cases hends
    rwa [List.append_nil]
  · intro hms
    obtain ⟨pieces', last', hcuts, -⟩ := hms.cuts (Cuts.last .nil .nothing)
    rw [List.nil_append, List.append_nil] at hcuts
    exact (Prod.mk.inj (h.splitFrom.symm.trans hcuts.splitFrom)).2

/-- **Pieces in front of a closing parenthesis without a partner** are there
just if the marks are exposed. -/
theorem Cuts.exposed_iff (h : Cuts position ms pieces last balance) :
    Exposed ms ↔ pieces ≠ [] ∧ ∃ o, balance = .excess o := by
  constructor
  · rintro ⟨front, behind, more, rfl, hfront, hbehind⟩
    have hclose : Cuts (position + front.length + 1 + behind.length)
        (⟨closeParen, false⟩ :: more)
        [] [] (.excess (position + front.length + 1 + behind.length)) :=
      .last .nil (.closing more)
    obtain ⟨others, last', hothers, -⟩ := hbehind.cuts hclose
    obtain ⟨pieces', last'', hcuts, hle⟩ := hfront.cuts (.next .nil hothers)
    obtain ⟨hkept, hbalance⟩ :=
      Prod.mk.inj (h.splitFrom.symm.trans hcuts.splitFrom)
    subst hbalance
    refine ⟨?_, _, rfl⟩
    rintro rfl
    have hlength := congrArg List.length hkept
    simp only [Balance.kept, List.map_nil, List.length_nil, List.length_map,
      List.length_cons]
      at hlength hle
    omega
  · rintro ⟨hne, o, rfl⟩
    cases h with
    | last => exact absurd rfl hne
    | next nested more =>
        obtain ⟨front, rest, rfl, hfront, hends⟩ := more.exists_front
        cases hends
        exact ⟨_, front, _, rfl, nested.weaken, hfront⟩

end Scan

/-! ### Where an operand field begins -/

namespace OperandField

/-- A field that begins with an octet other than a blank is not empty. -/
theorem scan_ne_nil {first : Segment} {c : UInt8}
    (hfirst : first.text.head? = some c) (hc : c ≠ blank)
    (segments : List Segment) :
    (scan [] .outside false (first :: segments)).before ≠ [] := by
  obtain ⟨more, htext⟩ := List.head?_eq_some_iff.mp hfirst
  have hfront : (scanText [] .outside first.text).before ≠ [] := by
    obtain ⟨taken, -, htaken⟩ :=
      scanText_before [c] (Scan.Quoting.step [] more.head? c .outside).2 more
    rw [htext, scanText, if_neg (by simp [hc]), htaken]
    simp
  simp only [scan, Bool.false_eq_true, if_false]
  split
  · obtain ⟨taken, htaken⟩ :=
      scan_before (scanText [] .outside first.text).before
        (scanText [] .outside first.text).state
        (scanText [] .outside first.text).stopped segments
    simp only [htaken]
    exact List.append_ne_nil_of_right_ne_nil _ hfront
  · exact hfront

end OperandField

namespace Statement

open Scan

/-- The operand field of a statement of lines, if it has one, begins behind the
blanks. -/
theorem ofLines_operand (first : Line) (rest : List Line) :
    (ofLines first rest).Bare ∨
    ∃ (bare : Statement) (segment : Segment) (segments : List Segment)
      (c : UInt8), bare.Bare ∧
      segment.text.head? = some c ∧ c ≠ blank ∧
      ofLines first rest = bare.withOperand (segment :: segments) := by
  unfold ofLines
  simp only
  split
  · exact Or.inl ⟨rfl, rfl, rfl, rfl⟩
  · split
    · exact Or.inl ⟨rfl, rfl, rfl, rfl⟩
    · generalize hlabel : first.text.takeWhile (fun c => decide (c ≠ blank)) =
        label
      generalize hgap : (first.text.drop label.length).takeWhile
        (fun c => decide (c = blank)) = gap
      generalize hbehind :
        (first.text.drop label.length).dropWhile (fun c => decide (c = blank)) =
          behind
      generalize hmnemonic : behind.takeWhile (fun c => decide (c ≠ blank)) =
        mnemonic
      generalize hgap' :
        (behind.drop mnemonic.length).takeWhile (fun c => decide (c = blank)) =
          gap'
      have htext :
          (Segment.ofLine first (label.length + gap.length + mnemonic.length +
          gap'.length + 1)).text =
          (behind.drop mnemonic.length).dropWhile
            (fun c => decide (c = blank)) := by
        rw [Segment.ofLine, Nat.add_sub_cancel, ← List.drop_drop,
          ← List.drop_drop, ← List.drop_drop,
          ← hgap, Bytes.drop_length_takeWhile, hbehind, ← hgap',
          Bytes.drop_length_takeWhile]
      cases hhead :
        (Segment.ofLine first (label.length + gap.length + mnemonic.length +
          gap'.length + 1)).text.head? with
      | none =>
          refine Or.inl ?_
          rw [List.head?_eq_none_iff] at hhead
          rw [withOperand, if_pos hhead]
          exact ⟨rfl, rfl, rfl, rfl⟩
      | some c =>
          refine Or.inr ⟨_, _, _, c, ?_, hhead, ?_, rfl⟩
          · exact ⟨rfl, rfl, rfl, rfl⟩
          · have hc := List.head?_dropWhile_not (fun c => decide (c = blank))
              (behind.drop mnemonic.length)
            rw [← htext, hhead] at hc
            simpa using hc

/-! ### What is left in a statement -/

variable {s : Statement} {g : List Line} {pieces : List (List Mark)}
  {last : List Mark} {balance : Balance}

/-- The faults of an operand field with such parentheses. -/
def unbalanced (s : Statement) : Balance → List Diagnostic
  | .balanced => []
  | .excess offset => [⟨s.cursorAt offset 1, .unbalancedParentheses⟩]
  | .missing => [⟨s.fieldCursor, .unbalancedParentheses⟩]

/-- A statement whose operand field has been cut. -/
structure Divided (s : Statement) (pieces : List (List Mark)) (last : List Mark)
    (balance : Balance) : Prop where
  cuts : Cuts 0 (marks s.operand) pieces last balance
  operands : s.operands = balance.kept (pieces.map octets) (octets last)
  faults : s.faults = s.unbalanced balance

/-- Splitting an operand field divides it, and leaves the field as it is. -/
theorem divided_splitOperands (hoperands : s.operands = [])
    (hfaults : s.faults = []) :
    s.splitOperands.operand = s.operand ∧
      ∃ pieces last balance, s.splitOperands.Divided pieces last balance := by
  obtain ⟨pieces, last, balance, hcuts⟩ := exists_cuts 0 (marks s.operand)
  have hsplit : splitAtCommas s.operand =
      (balance.kept (pieces.map octets) (octets last), balance) :=
    (splitAtCommas_eq s.operand).trans hcuts.splitFrom
  unfold splitOperands
  rw [hsplit]
  cases balance with
  | balanced => exact ⟨rfl, pieces, last, .balanced, hcuts, rfl, hfaults⟩
  | excess offset => exact ⟨rfl, pieces, last, .excess offset, hcuts, rfl, rfl⟩
  | missing => exact ⟨rfl, pieces, last, .missing, hcuts, hoperands, rfl⟩

/-- A field has a string without an end, or it is cut. -/
theorem withOperand_divided (hbare : s.Bare) {first : Segment}
    (hfirst : first.text ≠ []) (segments : List Segment) :
    (s.withOperand (first :: segments)).operands = [] ∧
        (s.withOperand (first :: segments)).faults =
          [⟨(s.withOperand (first :: segments)).fieldCursor,
            .unterminatedString⟩] ∨
      ∃ pieces last balance,
      (s.withOperand (first :: segments)).Divided pieces last balance := by
  unfold withOperand
  simp only [if_neg hfirst]
  split
  · exact Or.inl ⟨hbare.operands, rfl⟩
  · refine Or.inr (divided_splitOperands ?_ ?_).2
    · exact hbare.operands
    · exact hbare.faults

/-- **What becomes of an operand field**: there is none, a string in it has no
end, or it is cut. -/
theorem Holds.divided (h : s.Holds g) : s.Bare ∨ s.operand ≠ [] ∧
    (s.operands = [] ∧ s.faults = [⟨s.fieldCursor, .unterminatedString⟩] ∨
      ∃ pieces last balance, s.Divided pieces last balance) := by
  obtain ⟨first, rest, -, rfl⟩ := h
  rcases ofLines_operand first rest with
    hbare | ⟨bare, segment, segments, c, hbare, hhead, hc, heq⟩
  · exact Or.inl hbare
  · have hsegment : segment.text ≠ [] := by
      intro hnil
      rw [hnil] at hhead
      cases hhead
    rw [heq]
    refine Or.inr ⟨?_, withOperand_divided hbare hsegment segments⟩
    rw [operand_withOperand hsegment]
    simpa using OperandField.scan_ne_nil hhead hc segments

/-! ### All operands or none -/

/-- Whether an operand field has a fault. -/
def Reports (s : Statement) (p : Problem) : Prop := p ∈ s.faults.map (·.problem)

instance (s : Statement) (p : Problem) : Decidable (s.Reports p) := by
  unfold Reports
  infer_instance

/-- Whether a statement has all operands of its field: the pieces of text
between its commas outside strings and parentheses. -/
structure Whole (s : Statement) : Prop where
  join : Bytes.join [comma] s.operands = s.operand
  bare : s.operand = [] → s.operands = []
  cuts : s.operand ≠ [] → ∃ pieces last,
    Cuts 0 (marks s.operand) pieces last .balanced ∧
    s.operands = (pieces ++ [last]).map octets

/-- Whether a statement has no operands, and so no place for one but its
field. -/
structure Without (s : Statement) : Prop where
  operands : s.operands = []
  cursors : ∀ i, s.operandCursor i = s.fieldCursor

/-- Whether a statement has some operands only: those that a comma ends in front
of a closing parenthesis without a partner. -/
def Truncated (s : Statement) : Prop :=
  ∃ pieces last offset,
    pieces ≠ [] ∧ Cuts 0 (marks s.operand) pieces last (.excess offset) ∧
    s.operands = pieces.map octets ∧
      s.faults = [⟨s.cursorAt offset 1, .unbalancedParentheses⟩]

/-- Whether a statement has all operands of its field, or a fault and none of
them. -/
def AllOrNone (s : Statement) : Prop := (s.faults = [] → s.Whole) ∧
  (s.faults ≠ [] → s.Without)

theorem without_of_operands (h : s.operands = []) : s.Without := by
  refine ⟨h, fun i => ?_⟩
  rw [operandCursor, h]
  rfl

/-- Operands that are cut short are neither all nor none. -/
theorem Truncated.not_allOrNone (h : s.Truncated) : ¬ s.AllOrNone := by
  obtain ⟨pieces, last, offset, hne, -, hoperands, hfaults⟩ := h
  intro hall
  have hnone := (hall.2 (by simp [hfaults])).operands
  rw [hoperands, List.map_eq_nil_iff] at hnone
  exact hne hnone

/-- A field whose parentheses pair up has no fault. -/
theorem Divided.faults_eq_nil_iff (h : s.Divided pieces last balance) :
    s.faults = [] ↔ balance = .balanced := by
  rw [h.faults]
  cases balance <;> simp [unbalanced]

/-- Operands that are divided are whole if their parentheses match. -/
theorem Divided.whole (h : s.Divided pieces last .balanced)
    (hfield : s.operand ≠ []) : s.Whole where
  join := by
    rw [h.operands, Balance.kept, ← List.map_singleton, ← List.map_append,
      h.cuts.join]
    exact octets_mark [] .outside s.operand
  bare hnil := absurd hnil hfield
  cuts _ := ⟨pieces, last,
    h.cuts, by rw [h.operands, Balance.kept, List.map_append]; rfl⟩

theorem Bare.whole (h : s.Bare) : s.Whole where
  join := by rw [h.operands, h.operand]; rfl
  bare _ := h.operands
  cuts hfield := absurd h.operand hfield

/-- A fault of the parentheses leaves no operands, or those in front of it if
the field is exposed. -/
theorem Divided.of_faults (h : s.Divided pieces last balance)
    (hfaults : s.faults ≠ []) :
    s.Reports .unbalancedParentheses ∧
      (¬ Exposed (marks s.operand) → s.Without) ∧
      (Exposed (marks s.operand) → s.Truncated) := by
  rw [h.cuts.exposed_iff]
  obtain ⟨hcuts, hoperands, hlist⟩ := h
  cases balance with
  | balanced => exact absurd hlist hfaults
  | excess offset =>
      refine ⟨by simp [Reports, hlist, unbalanced],
        fun hshut => without_of_operands ?_, fun hexposed => ⟨pieces, last,
          offset, hexposed.1, hcuts, hoperands, hlist⟩⟩
      have hnone : pieces = [] := by
        by_contra hne
        exact hshut ⟨hne, offset, rfl⟩
      rw [hoperands, hnone]
      rfl
  | missing =>
      refine ⟨by simp [Reports, hlist, unbalanced],
        fun _ => without_of_operands hoperands, ?_⟩
      rintro ⟨-, o, ⟨⟩⟩

theorem Bare.not_reports (h : s.Bare) (p : Problem) : ¬ s.Reports p := by
  simp [Reports, h.faults]

theorem Divided.not_reports (h : s.Divided pieces last balance) :
    ¬ s.Reports .unterminatedString := by
  rw [Reports, h.faults]
  cases balance <;> simp [unbalanced]

/-- A statement without a fault has all operands. -/
theorem Holds.whole (h : s.Holds g) (hfaults : s.faults = []) : s.Whole := by
  rcases h.divided with
    hbare | ⟨hfield, ⟨-, hstring⟩ | ⟨pieces, last, balance, hdivided⟩⟩
  · exact hbare.whole
  · rw [hfaults] at hstring
    cases hstring
  · obtain rfl := hdivided.faults_eq_nil_iff.mp hfaults
    exact hdivided.whole hfield

/-- A string without an end leaves no operands. -/
theorem Holds.of_unterminated (h : s.Holds g)
    (hstring : s.Reports .unterminatedString) :
    s.Without := by
  rcases h.divided with
    hbare | ⟨-, ⟨hoperands, -⟩ | ⟨pieces, last, balance, hdivided⟩⟩
  · exact absurd hstring (hbare.not_reports _)
  · exact without_of_operands hoperands
  · exact absurd hstring hdivided.not_reports

/-- What parentheses that do not pair up leave. -/
theorem Holds.of_unbalanced (h : s.Holds g)
    (hparens : s.Reports .unbalancedParentheses) :
    (¬ Exposed (marks s.operand) → s.Without) ∧
      (Exposed (marks s.operand) → s.Truncated) := by
  rcases h.divided with
    hbare | ⟨-, ⟨-, hstring⟩ | ⟨pieces, last, balance, hdivided⟩⟩
  · exact absurd hparens (hbare.not_reports _)
  · simp [Reports, hstring] at hparens
  · refine (hdivided.of_faults ?_).2
    intro hfaults
    simp [Reports, hfaults] at hparens

/-- An operand field has one fault at most. -/
theorem Holds.exists_fault (h : s.Holds g) (hfaults : s.faults ≠ []) :
    ∃ d, s.faults = [d] ∧
    (d.problem = .unterminatedString ∨ d.problem = .unbalancedParentheses) := by
  rcases h.divided with
    hbare | ⟨-, ⟨-, hstring⟩ | ⟨pieces, last, balance, hdivided⟩⟩
  · exact absurd hbare.faults hfaults
  · exact ⟨_, hstring, Or.inl rfl⟩
  · rw [hdivided.faults] at hfaults ⊢
    cases balance with
    | balanced => exact absurd rfl hfaults
    | excess offset => exact ⟨_, rfl, Or.inr rfl⟩
    | missing => exact ⟨_, rfl, Or.inr rfl⟩

/-- A field whose strings have ends has no fault just if its parentheses pair
up. -/
theorem Holds.faults_eq_nil_iff (h : s.Holds g)
    (hstring : ¬ s.Reports .unterminatedString) :
    s.faults = [] ↔ Nested true (marks s.operand) := by
  rcases h.divided with
    hbare | ⟨-, ⟨-, hopen⟩ | ⟨pieces, last, balance, hdivided⟩⟩
  · rw [hbare.faults, hbare.operand]
    exact iff_of_true rfl .nil
  · simp [Reports, hopen] at hstring
  · rw [hdivided.faults_eq_nil_iff, hdivided.cuts.balanced_iff]

/-- **A statement has all operands of its field or a fault and none of them**,
unless a comma outside strings and parentheses stands in front of a closing
parenthesis without a partner.  Then it has a fault and the operands up to the
last such comma.  Without a fault the operands with commas between them are the
field.  A field has one fault at most: a string without an end, or else
parentheses that do not pair up. -/
theorem allOrNone_iff (h : s.Holds g) :
    (s.faults = [] → s.Whole) ∧
    (s.Reports .unterminatedString → s.Without) ∧
    (s.Reports .unbalancedParentheses →
      (¬ Exposed (marks s.operand) → s.Without) ∧
      (Exposed (marks s.operand) → s.Truncated)) ∧
    (s.faults ≠ [] → ∃ d, s.faults = [d] ∧
      (d.problem = .unterminatedString ∨ d.problem = .unbalancedParentheses)) ∧
    (¬ s.Reports .unterminatedString →
      (s.faults = [] ↔ Nested true (marks s.operand))) ∧
    (s.AllOrNone ↔
      ¬ (s.Reports .unbalancedParentheses ∧ Exposed (marks s.operand))) := by
  refine ⟨h.whole, h.of_unterminated, h.of_unbalanced, h.exists_fault,
    h.faults_eq_nil_iff, ?_⟩
  constructor
  · rintro hall ⟨hparens, hexposed⟩
    exact ((h.of_unbalanced hparens).2 hexposed).not_allOrNone hall
  · intro hshut
    refine ⟨h.whole, fun hfaults => ?_⟩
    obtain ⟨d, hd, hstring | hparens⟩ := h.exists_fault hfaults
    · exact h.of_unterminated (by simp [Reports, hd, hstring])
    · have hreports : s.Reports .unbalancedParentheses := by
        simp [Reports, hd, hparens]
      exact (h.of_unbalanced hreports).1 fun hexposed =>
        hshut ⟨hreports, hexposed⟩

/-- A closing parenthesis too many leaves the operand in front of it, a missing
one and a string without an end leave none. -/
theorem allOrNone_iff_closing :
    (∃ s : Statement,
      s.Holds [⟨1, 0, bytes " LR 1,2)"⟩] ∧ s.operand = bytes "1,2)" ∧
      s.operands = [bytes "1"] ∧ s.Truncated ∧ ¬ s.AllOrNone) ∧
    (∃ s : Statement, s.Holds [⟨1, 0, bytes " LA 1,0(2"⟩] ∧
      s.Reports .unbalancedParentheses ∧ s.AllOrNone ∧ s.Without) ∧
    ∃ s : Statement, s.Holds [⟨1, 0, bytes " DC A(1),C'X,Y)"⟩] ∧
      s.Reports .unterminatedString ∧ s.AllOrNone ∧ s.Without := by
  refine ⟨⟨_, ⟨_, _, rfl, rfl⟩, by decide +kernel, by decide +kernel, ?_⟩,
    ⟨_, ⟨_, _, rfl, rfl⟩, by decide +kernel, ?_⟩,
    ⟨_, ⟨_, _, rfl, rfl⟩, by decide +kernel, ?_⟩⟩
  · obtain ⟨-, -, hleft, -, -, hall⟩ :=
      allOrNone_iff ⟨⟨1, 0, bytes " LR 1,2)"⟩, [], rfl, rfl⟩
    have hparens : (ofLines ⟨1, 0, bytes " LR 1,2)"⟩ []).Reports
        .unbalancedParentheses := by
      decide +kernel
    have hexposed :
        Exposed (marks (ofLines ⟨1, 0, bytes " LR 1,2)"⟩ []).operand) :=
      ⟨[⟨octet '1', false⟩], [⟨octet '2', false⟩], [], by decide +kernel,
        .octet rfl rfl (fun _ => rfl) .nil, .octet rfl rfl (fun _ => rfl) .nil⟩
    exact ⟨(hleft hparens).2 hexposed, fun h => hall.mp h ⟨hparens, hexposed⟩⟩
  · obtain ⟨-, -, hleft, -, -, hall⟩ :=
      allOrNone_iff ⟨⟨1, 0, bytes " LA 1,0(2"⟩, [], rfl, rfl⟩
    have hshut :
        ¬ Exposed (marks (ofLines ⟨1, 0, bytes " LA 1,0(2"⟩ []).operand) := by
      rintro ⟨front, behind, more, heq, -, -⟩
      have hclose : ⟨closeParen, false⟩ ∈
          marks (ofLines ⟨1, 0, bytes " LA 1,0(2"⟩ []).operand := by
        rw [heq]
        simp
      exact absurd hclose (by decide +kernel)
    exact ⟨hall.mpr fun h => hshut h.2, (hleft (by decide +kernel)).1 hshut⟩
  · obtain ⟨-, hstring, -, -, -, hall⟩ := allOrNone_iff
      ⟨⟨1, 0, bytes " DC A(1),C'X,Y)"⟩, [], rfl, rfl⟩
    exact ⟨hall.mpr fun h => absurd h.1 (by decide +kernel),
      hstring (by decide +kernel)⟩

end Statement

end System370
