import System370.Scan

/-!
# Marked texts

The loops of the scanners pass over a string as soon as they come to it.  What
they find depends on nothing but the octets outside strings: once every octet of
a text has a mark that says whether it is part of a string (`Scan.mark`), the
partner of a parenthesis, the pieces between commas and the last group are found
by the marks alone (`Scan.closeAt`, `Scan.splitFrom`, `Scan.groupFrom`).

So all loops agree on what a string is, and nothing in a string counts:

* `Scan.closingParen_eq`, `Scan.splitAtCommas_eq`, `Scan.splitList_eq` and
  `Scan.closingGroup_eq`: each loop finds what its scanner of marks finds.
-/

namespace System370

namespace Scan

/-! ### Marks -/

/-- An octet together with the verdict whether it is part of a string. -/
structure Mark where
  octet : UInt8
  quoted : Bool
  deriving DecidableEq, Repr

/-- Whether a mark is the octet `c` outside strings. -/
def Mark.is (m : Mark) (c : UInt8) : Bool := m.octet = c && !m.quoted

/-- The marks of a text, and where the scanner stands at its end.  `before` is
the text in front of it, nearest octet first. -/
def mark (before : Bytes) (state : Quoting) : Bytes → List Mark × Quoting
  | [] => ([], state)
  | c :: rest =>
    let (quoted, next) := state.step before rest.head? c
    let (marks, final) := mark (c :: before) next rest
    (⟨c, quoted⟩ :: marks, final)

/-- The marks of a text that stands alone. -/
def marks (text : Bytes) : List Mark := (mark [] .outside text).1

/-- Whether a text ends inside a string. -/
def endsInString (text : Bytes) : Bool := (mark [] .outside text).2 ≠ .outside

@[simp] theorem length_mark (before : Bytes) (state : Quoting) (text : Bytes) :
    (mark before state text).1.length = text.length := by
  induction text generalizing before state with
  | nil => rfl
  | cons c rest ih => simp only [mark, List.length_cons, ih]

/-- The octets of a string, as they are marked. -/
def quotedMarks (text : Bytes) : List Mark := text.map (⟨·, true⟩)

@[simp] theorem is_quoted (c d : UInt8) : Mark.is ⟨c, true⟩ d = false :=
  Bool.and_false _

@[simp] theorem is_unquoted (c d : UInt8) :
    Mark.is ⟨c, false⟩ d = decide (c = d) := by
  simp [Mark.is]

theorem Mark.unquoted_of_is {m : Mark} {c : UInt8} (h : m.is c = true) :
    m.quoted = false := by
  simp only [Mark.is, Bool.and_eq_true] at h
  simpa using h.2

/-- The scanner stands outside strings behind an octet that is not part of
one. -/
theorem Quoting.step_unquoted {state : Quoting} {before : Bytes}
    {next : Option UInt8}
    {c : UInt8} (h : (state.step before next c).1 = false) :
    (state.step before next c).2 = .outside := by
  cases state with
  | outside =>
      simp only [Quoting.step] at h ⊢
      split at h
      · cases h
      · rw [if_neg ‹_›]
  | inside =>
      simp only [Quoting.step] at h
      split at h
      · split at h <;> cases h
      · cases h
  | doubled => cases h

/-- Outside strings an octet that opens none has no mark. -/
theorem mark_outside {before rest : Bytes}
    {c : UInt8} (h : ¬ (c = quote ∧ attributeQuote before rest.head? = false)) :
    mark before .outside (c :: rest) =
      (⟨c, false⟩ :: (mark (c :: before) .outside rest).1,
        (mark (c :: before) .outside rest).2) := by
  simp [mark, Quoting.step, h]

/-- An apostrophe that belongs to no length attribute opens a string. -/
theorem mark_opening {before rest : Bytes}
    (h : attributeQuote before rest.head? = false) :
    mark before .outside (quote :: rest) =
      (⟨quote, true⟩ :: (mark (quote :: before) .inside rest).1,
        (mark (quote :: before) .inside rest).2) := by
  simp [mark, Quoting.step, h]

/-- **A string is marked** up to the apostrophe that ends it. -/
theorem mark_string {text : Bytes} {n : Nat} (h : closingQuote text = some n)
    (before : Bytes) :
    mark before .inside text =
      (quotedMarks (text.take (n + 1)) ++
          (mark ((text.take (n + 1)).reverse ++ before) .outside
            (text.drop (n + 1))).1,
        (mark ((text.take (n + 1)).reverse ++ before) .outside
          (text.drop (n + 1))).2) := by
  fun_induction closingQuote text generalizing n before with
  | case1 => cases h
  | case2 => cases h; rfl
  | case3 => cases h
  | case4 rest ih =>
      obtain ⟨m, hm, rfl⟩ := Option.map_eq_some_iff.mp h
      have hrest := ih hm (quote :: quote :: before)
      simp [mark, Quoting.step, hrest, quotedMarks]
  | case5 d rest hd =>
      cases h
      simp [mark, Quoting.step, hd, quotedMarks]
  | case6 c d rest hc ih =>
      obtain ⟨m, hm, rfl⟩ := Option.map_eq_some_iff.mp h
      have hrest := ih hm (c :: before)
      rw [mark]
      simp only [Quoting.step, hc, if_false, hrest]
      simp [quotedMarks]

/-- A string without an end is marked as a whole. -/
theorem mark_endless {text : Bytes} (h : closingQuote text = none)
    (before : Bytes) :
    (mark before .inside text).1 = quotedMarks text ∧
      (mark before .inside text).2 ≠ .outside := by
  fun_induction closingQuote text generalizing before with
  | case1 => exact ⟨rfl, by simp [mark]⟩
  | case2 => cases h
  | case3 c hc => simp [mark, Quoting.step, hc, quotedMarks]
  | case4 rest ih =>
      have hrest := ih (Option.map_eq_none_iff.mp h) (quote :: quote :: before)
      simpa [mark, Quoting.step, quotedMarks] using hrest
  | case5 => cases h
  | case6 c d rest hc ih =>
      have hrest := ih (Option.map_eq_none_iff.mp h) (c :: before)
      rw [mark]
      simp only [Quoting.step, hc, if_false]
      simpa [quotedMarks] using hrest

/-! ### Passing over strings -/

/-- The marks of a text whose first octets lie in a string. -/
def markFrom : (skip : Nat) → (before text : Bytes) → List Mark × Quoting
  | 0, before, text => mark before .outside text
  | _ + 1, _, [] => ([], .outside)
  | skip + 1, before, c :: rest =>
    (⟨c, true⟩ :: (markFrom skip (c :: before) rest).1,
      (markFrom skip (c :: before) rest).2)

theorem markFrom_nil (skip : Nat) (before : Bytes) :
    markFrom skip before [] = ([], .outside) := by
  cases skip <;> rfl

/-- What is skipped is quoted, and the marks go on behind it. -/
theorem markFrom_eq (skip : Nat) (before text : Bytes) :
    markFrom skip before text =
      (quotedMarks (text.take skip) ++
        (mark ((text.take skip).reverse ++ before) .outside (text.drop skip)).1,
      (mark ((text.take skip).reverse ++ before) .outside
        (text.drop skip)).2) := by
  induction text generalizing skip before with
  | nil => simp [markFrom_nil, quotedMarks, mark]
  | cons c rest ih =>
      cases skip with
      | zero => simp [markFrom, quotedMarks]
      | succ skip => simp [markFrom, ih, quotedMarks]

/-- What a loop comes to next, outside strings. -/
inductive Meeting (before : Bytes) (c : UInt8) (rest : Bytes) : Prop where
  /-- A string, which is passed over. -/
  | string {n : Nat}
      (hopens : c = quote ∧ attributeQuote before rest.head? = false)
      (hends : closingQuote rest = some n)
        (hmark : mark before .outside (c :: rest) =
        (⟨c, true⟩ :: (markFrom (n + 1) (c :: before) rest).1,
          (markFrom (n + 1) (c :: before) rest).2))
  /-- A string that has no end. -/
  | endless (hopens : c = quote ∧ attributeQuote before rest.head? = false)
      (hends : closingQuote rest = none)
      (hmarks : (mark before .outside (c :: rest)).1 = quotedMarks (c :: rest))
      (hfinal : (mark before .outside (c :: rest)).2 ≠ .outside)
  /-- Any other octet. -/
  | other (hopens : ¬ (c = quote ∧ attributeQuote before rest.head? = false))
      (hmark : mark before .outside (c :: rest) =
        (⟨c, false⟩ :: (markFrom 0 (c :: before) rest).1,
          (markFrom 0 (c :: before) rest).2))

/-- **An octet meets a scanner** in one of these ways, and the marks tell
which. -/
theorem meeting (before : Bytes) (c : UInt8) (rest : Bytes) :
    Meeting before c rest := by
  by_cases hopens : c = quote ∧ attributeQuote before rest.head? = false
  · obtain ⟨rfl, hplain⟩ := hopens
    have hmark := mark_opening hplain
    cases hends : closingQuote rest with
    | some n =>
        refine .string ⟨rfl, hplain⟩ hends ?_
        rw [hmark, mark_string hends, markFrom_eq]
    | none =>
        obtain ⟨hmarks, hfinal⟩ := mark_endless hends (quote :: before)
        refine .endless ⟨rfl, hplain⟩ hends ?_ ?_
        · rw [hmark, hmarks]
          rfl
        · rwa [hmark]
  · exact .other hopens (mark_outside hopens)

/-! ### The partner of a parenthesis -/

/-- The position of the closing parenthesis that brings the depth to zero. -/
def closeAt (depth : Int) : List Mark → Option Nat
  | [] => none
  | m :: rest =>
    if m.is openParen then (closeAt (depth + 1) rest).map (· + 1)
    else if m.is closeParen then
      if depth = 1 then some 0 else (closeAt (depth - 1) rest).map (· + 1)
    else (closeAt depth rest).map (· + 1)

/-- No quoted octet closes a parenthesis. -/
theorem closeAt_quotedMarks (depth : Int) (text : Bytes) :
    closeAt depth (quotedMarks text) = none := by
  induction text with
  | nil => rfl
  | cons c rest ih =>
      rw [quotedMarks, List.map_cons, ← quotedMarks, closeAt]
      simp [ih]

/-- The search for a closing parenthesis is that among the marks. -/
theorem closingParenFrom_eq (skip : Nat) (depth : Int) (before text : Bytes) :
    closingParenFrom skip depth before text =
      closeAt depth (markFrom skip before text).1 := by
  induction text generalizing skip depth before with
  | nil => simp [closingParenFrom, markFrom_nil, closeAt]
  | cons c rest ih =>
      cases skip with
      | succ skip => simp [closingParenFrom, markFrom, closeAt, ih]
      | zero =>
          rw [closingParenFrom, markFrom]
          cases meeting before c rest with
          | string hopens hends hmark =>
              rw [if_pos hopens, hends, hmark]
              simp [closeAt, ih]
          | endless hopens hends hmarks =>
              rw [if_pos hopens, hends, hmarks, closeAt_quotedMarks]
          | other hopens hmark =>
              rw [if_neg hopens, hmark]
              simp [closeAt, ih]

/-- A parenthesis that is found is one of the text. -/
theorem lt_of_closeAt {depth : Int} {ms : List Mark} {k : Nat}
    (h : closeAt depth ms = some k) :
    k < ms.length := by
  induction ms generalizing depth k with
  | nil => cases h
  | cons m rest ih =>
      have hnext : ∀ {depth : Int}, (closeAt depth rest).map (· + 1) = some k →
          k < (m :: rest).length := by
        intro depth hk
        obtain ⟨j, hj, rfl⟩ := Option.map_eq_some_iff.mp hk
        exact Nat.succ_lt_succ (ih hj)
      rw [closeAt] at h
      split at h
      · exact hnext h
      · split at h
        · split at h
          · cases h
            exact Nat.succ_pos _
          · exact hnext h
        · exact hnext h

/-- **The partner of a parenthesis** is found by the marks. -/
theorem closingParen_eq (before text : Bytes) :
    closingParen before text = closeAt 0 (mark before .outside text).1 :=
  closingParenFrom_eq 0 0 before text

/-! ### The pieces of a text -/

/-- The pieces of a text between commas outside strings and parentheses.
`piece` is the part of the current piece already read, nearest octet first.  An
excess parenthesis leaves the pieces completed before it, a missing one leaves
none. -/
def splitFrom (depth position : Nat) (piece : Bytes) :
    List Mark → List Bytes × Balance
  | [] => if depth = 0 then ([piece.reverse], .balanced) else ([], .missing)
  | m :: rest =>
    if m.is openParen then
      splitFrom (depth + 1) (position + 1) (m.octet :: piece) rest
    else if m.is closeParen then
      if depth = 0 then ([], .excess position)
      else splitFrom (depth - 1) (position + 1) (m.octet :: piece) rest
    else if m.is comma ∧ depth = 0 then
      match splitFrom 0 (position + 1) [] rest with
      | (_, .missing) => ([], .missing)
      | (pieces, balance) => (piece.reverse :: pieces, balance)
    else splitFrom depth (position + 1) (m.octet :: piece) rest

/-- A quoted octet belongs to the piece it stands in. -/
theorem splitFrom_quoted (depth position : Nat) (piece : Bytes) (c : UInt8)
    (rest : List Mark) :
    splitFrom depth position piece (⟨c, true⟩ :: rest) =
      splitFrom depth (position + 1) (c :: piece) rest := by
  simp [splitFrom]

/-- The pieces of a text when some stand in front of them. -/
def behindPieces (done : List Bytes) :
    List Bytes × Balance → List Bytes × Balance
  | (_, .missing) => ([], .missing)
  | (pieces, balance) => (done ++ pieces, balance)

theorem behindPieces_behindPieces (done others : List Bytes)
    (result : List Bytes × Balance) :
    behindPieces done (behindPieces others result) =
      behindPieces (done ++ others) result := by
  obtain ⟨pieces, balance⟩ := result
  cases balance <;> simp [behindPieces]

/-- At a comma a piece is complete. -/
theorem splitFrom_comma (position : Nat) (piece : Bytes) (rest : List Mark) :
    splitFrom 0 position piece (⟨comma, false⟩ :: rest) =
      behindPieces [piece.reverse] (splitFrom 0 (position + 1) [] rest) := by
  rw [splitFrom, if_neg (by decide), if_neg (by decide), if_pos (by decide)]
  rcases splitFrom 0 (position + 1) [] rest with ⟨pieces, balance⟩
  cases balance <;> rfl

theorem behindPieces_nil (depth position : Nat) (piece : Bytes)
    (ms : List Mark) :
    behindPieces [] (splitFrom depth position piece ms) =
      splitFrom depth position piece ms := by
  induction ms generalizing depth position piece with
  | nil =>
      unfold splitFrom
      split <;> rfl
  | cons m rest ih =>
      unfold splitFrom
      split
      · exact ih ..
      · split
        · split
          · rfl
          · exact ih ..
        · split
          · rcases splitFrom 0 (position + 1) [] rest with ⟨pieces, balance⟩
            cases balance <;> rfl
          · exact ih ..

/-- The loop over pieces, with those that are done, cuts where the marks are
cut. -/
theorem piecesFrom_eq (skip depth : Nat) (done : List Bytes)
    (piece before text : Bytes) :
    piecesFrom skip depth done piece before text =
      behindPieces done
        (splitFrom depth before.length piece
        (markFrom skip before text).1) := by
  induction text generalizing skip depth done piece before with
  | nil =>
      rw [piecesFrom, markFrom_nil, splitFrom]
      split <;> rfl
  | cons c rest ih =>
      cases skip with
      | succ skip =>
          rw [piecesFrom, markFrom, splitFrom_quoted, ih]
          rfl
      | zero =>
          rw [piecesFrom, markFrom]
          cases meeting before c rest with
          | string hopens hends hmark =>
              rw [if_pos hopens, hmark, splitFrom_quoted, ih,
                stringLength, hends]
              rfl
          | endless hopens hends hmarks =>
              have hrest : (markFrom rest.length (c :: before) rest).1 =
                  quotedMarks rest := by
                simp [markFrom_eq, mark]
              rw [if_pos hopens, hmarks, quotedMarks, List.map_cons,
                ← quotedMarks, splitFrom_quoted, ih, stringLength, hends,
                Option.map_none, Option.getD_none, hrest]
              rfl
          | other hopens hmark =>
              rw [if_neg hopens, hmark]
              by_cases hcomma : c = comma ∧ depth = 0
              · obtain ⟨rfl, rfl⟩ := hcomma
                rw [splitFrom_comma, behindPieces_behindPieces,
                  ← List.length_cons, ← ih]
                rfl
              · simp only [splitFrom, is_unquoted, decide_eq_true_eq, hcomma,
                  if_false, ih]
                split
                · rfl
                · split
                  · split
                    · simp [behindPieces]
                    · rfl
                  · rfl

/-- **An operand field is cut** at the commas among its marks. -/
theorem splitAtCommas_eq (text : Bytes) :
    splitAtCommas text = splitFrom 0 0 [] (marks text) :=
  (piecesFrom_eq 0 0 [] [] [] text).trans (behindPieces_nil ..)

/-- What becomes of the pieces of a list, which may end inside a string. -/
def listOf (inString : Bool) :
    List Bytes × Balance → Except ListError (List Bytes)
  | (_, .excess _) => .error .unbalancedParentheses
  | (items, balance) =>
    if inString then .error .unterminatedString
    else if balance = .missing then .error .unbalancedParentheses
    else if items.any (· = []) then .error .emptyItem
    else .ok items

/-- A string without an end closes no parentheses. -/
theorem splitFrom_quotedMarks (depth position : Nat) (piece text : Bytes) :
    splitFrom depth position piece (quotedMarks text) =
      if depth = 0 then ([(text.reverse ++ piece).reverse], .balanced) else
        ([], .missing) := by
  induction text generalizing position piece with
  | nil => rfl
  | cons c rest ih =>
      rw [quotedMarks, List.map_cons, ← quotedMarks, splitFrom_quoted]
      simp [ih]

/-- So does the loop over the items of a list, which knows besides whether a
string is left open. -/
theorem itemsFrom_eq (skip depth : Nat) (done : List Bytes)
    (piece before text : Bytes) :
    itemsFrom skip depth done piece before text =
      listOf ((markFrom skip before text).2 ≠ .outside)
        (behindPieces done (splitFrom depth before.length piece
          (markFrom skip before text).1)) := by
  induction text generalizing skip depth done piece before with
  | nil =>
      rw [itemsFrom, markFrom_nil, splitFrom]
      by_cases hdepth : depth = 0
      · simp [hdepth, behindPieces, listOf]
      · simp [hdepth, behindPieces, listOf]
  | cons c rest ih =>
      cases skip with
      | succ skip =>
          rw [itemsFrom, markFrom, splitFrom_quoted, ih]
          rfl
      | zero =>
          rw [itemsFrom, markFrom]
          cases meeting before c rest with
          | string hopens hends hmark =>
              rw [if_pos hopens, hends, hmark, splitFrom_quoted]
              exact ih ..
          | endless hopens hends hmarks hfinal =>
              rw [if_pos hopens, hends, hmarks, splitFrom_quotedMarks]
              by_cases hdepth : depth = 0
              · simp [hdepth, behindPieces, listOf, hfinal]
              · simp [hdepth, behindPieces, listOf, hfinal]
          | other hopens hmark =>
              rw [if_neg hopens, hmark]
              by_cases hcomma : c = comma ∧ depth = 0
              · obtain ⟨rfl, rfl⟩ := hcomma
                rw [splitFrom_comma, behindPieces_behindPieces,
                  ← List.length_cons, ← ih]
                rfl
              · simp only [splitFrom, is_unquoted, decide_eq_true_eq, hcomma,
                  if_false, ih]
                split
                · rfl
                · split
                  · split
                    · simp [behindPieces, listOf]
                    · rfl
                  · rfl

/-- **A list is cut** as an operand field is.  A closing parenthesis too many is
noticed first, then a string without an end. -/
theorem splitList_eq (text : Bytes) :
    splitList text = listOf (endsInString text) (splitAtCommas text) := by
  have hpieces := behindPieces_nil 0 0 [] (mark [] .outside text).1
  rw [splitAtCommas_eq, marks, ← hpieces]
  exact itemsFrom_eq 0 0 [] [] [] text

/-! ### The last group -/

/-- The position where the outermost group begins that ends with the last octet.
`start` is where the current outermost group began.  Closing parentheses without
a partner are passed over; a group without an end has no position. -/
def groupFrom (position depth start : Nat) : List Mark → Option Nat
  | [] => none
  | m :: rest =>
    if m.is openParen then
      groupFrom (position + 1) (depth + 1) (if depth = 0 then
        position else start) rest
    else if m.is closeParen then
      if depth = 1 ∧ rest = [] then some start else
        groupFrom (position + 1) (depth - 1) start rest
    else groupFrom (position + 1) depth start rest

/-- No quoted octet opens or closes a group. -/
theorem groupFrom_quotedMarks (position depth start : Nat) (text : Bytes)
    (ms : List Mark) :
    groupFrom position depth start (quotedMarks text ++ ms) =
      groupFrom (position + text.length) depth start ms := by
  induction text generalizing position with
  | nil => rfl
  | cons c rest ih =>
      rw [quotedMarks, List.map_cons, ← quotedMarks,
        List.cons_append, groupFrom]
      simp [ih, Nat.add_assoc, Nat.add_comm 1]

/-- **A group is passed over** up to its partner, unless it is the last one. -/
theorem groupFrom_of_closeAt {depth : Nat} (hdepth : 0 < depth)
    (position start : Nat) {ms : List Mark}
    {k : Nat} (h : closeAt depth ms = some k) :
    groupFrom position depth start ms = if ms.length = k + 1 then some start
      else groupFrom (position + (k + 1)) 0 start (ms.drop (k + 1)) := by
  induction ms generalizing depth position k with
  | nil => cases h
  | cons m rest ih =>
      rw [closeAt] at h
      rw [groupFrom]
      have hnext : ∀ k, position + 1 + (k + 1) = position + (k + 1 + 1) := by
        omega
      split at h
      · rename_i hopen
        obtain ⟨k, hk, rfl⟩ := Option.map_eq_some_iff.mp h
        rw [if_pos hopen, if_neg (by omega),
          ih (Nat.succ_pos _) (position + 1) (by exact_mod_cast hk)]
        simp [hnext]
      · rename_i hopen
        rw [if_neg hopen]
        split at h
        · rename_i hclose
          rw [if_pos hclose]
          split at h
          · cases h
            have hone : depth = 1 := by omega
            simp [hone, List.length_eq_zero_iff]
          · obtain ⟨k, hk, rfl⟩ := Option.map_eq_some_iff.mp h
            have hcast : ((depth - 1 : Nat) : Int) = depth - 1 := by omega
            rw [if_neg (by omega), ih (by omega) (position + 1) (hcast ▸ hk)]
            simp [hnext]
        · rename_i hclose
          obtain ⟨k, hk, rfl⟩ := Option.map_eq_some_iff.mp h
          rw [if_neg hclose, ih hdepth (position + 1) hk]
          simp [hnext]

/-- A group without an end has no partner, and nothing behind it is found. -/
theorem groupFrom_of_closeAt_eq_none {depth : Nat} (hdepth : 0 < depth)
    (position start : Nat) {ms : List Mark} (h : closeAt depth ms = none) :
    groupFrom position depth start ms = none := by
  induction ms generalizing depth position with
  | nil => rfl
  | cons m rest ih =>
      rw [closeAt] at h
      rw [groupFrom]
      split at h
      · rename_i hopen
        have hrest := Option.map_eq_none_iff.mp h
        rw [if_pos hopen, if_neg (by omega),
          ih (Nat.succ_pos _) _ (by exact_mod_cast hrest)]
      · rename_i hopen
        rw [if_neg hopen]
        split at h
        · rename_i hclose
          rw [if_pos hclose]
          split at h
          · cases h
          · have hrest := Option.map_eq_none_iff.mp h
            have hcast : ((depth - 1 : Nat) : Int) = depth - 1 := by omega
            rw [if_neg (by omega), ih (by omega) _ (hcast ▸ hrest)]
        · rename_i hclose
          rw [if_neg hclose, ih hdepth _ (Option.map_eq_none_iff.mp h)]

/-- Behind the partner of a parenthesis the scanner stands outside strings. -/
theorem drop_mark {before text : Bytes} {state : Quoting} {depth : Int}
    {k : Nat} (h : closeAt depth (mark before state text).1 = some k) :
    (mark before state text).1.drop (k + 1) =
      (mark ((text.take (k + 1)).reverse ++ before) .outside
        (text.drop (k + 1))).1 := by
  induction text generalizing before state depth k with
  | nil => cases h
  | cons c rest ih =>
      have hmark : (mark before state (c :: rest)).1 =
          ⟨c, (state.step before rest.head? c).1⟩ ::
            (mark (c :: before) (state.step before rest.head? c).2 rest).1 :=
        rfl
      rw [hmark, closeAt] at h
      rw [hmark, List.drop_succ_cons]
      have hbehind : ∀ {depth : Int} {k : Nat},
          (closeAt depth
            (mark (c :: before) (state.step before rest.head? c).2 rest).1).map
            (· + 1) = some k →
          (mark (c :: before) (state.step before rest.head? c).2 rest).1.drop
            k =
            (mark (((c :: rest).take (k + 1)).reverse ++ before) .outside
              ((c :: rest).drop (k + 1))).1 := by
        intro depth k hk
        obtain ⟨j, hj, rfl⟩ := Option.map_eq_some_iff.mp hk
        simpa using ih hj
      split at h
      · exact hbehind h
      · split at h
        · rename_i hclose
          split at h
          · cases h
            have hstep := Quoting.step_unquoted (Mark.unquoted_of_is hclose)
            simp [hstep]
          · exact hbehind h
        · exact hbehind h

/-- **A group in a text** reaches up to its partner, and what is behind it is
looked at as if nothing stood in front. -/
theorem groupFrom_text (position start : Nat) (before text : Bytes) :
    groupFrom position 1 start (mark before .outside text).1 =
      match closeAt 1 (mark before .outside text).1 with
      | none => none
      | some k =>
        if text.length = k + 1 then some start
        else groupFrom (position + (k + 1)) 0 start
          (mark ((text.take (k + 1)).reverse ++ before) .outside
            (text.drop (k + 1))).1 := by
  cases hclose : closeAt 1 (mark before .outside text).1 with
  | none =>
      exact groupFrom_of_closeAt_eq_none Nat.one_pos _ _
        (by exact_mod_cast hclose)
  | some k =>
      rw [groupFrom_of_closeAt Nat.one_pos _ _ (by exact_mod_cast hclose),
        drop_mark hclose, length_mark]

/-- A group that a text ends with is the last one. -/
theorem closingGroupFrom_length (last : Option Nat) (before text : Bytes) :
    closingGroupFrom text.length last before text = last := by
  induction text generalizing before with
  | nil => rfl
  | cons c rest ih => exact ih _

/-- The loop in the middle of a text, where it has found no last group yet. -/
theorem closingGroupFrom_eq (skip start : Nat) (before text : Bytes) :
    closingGroupFrom skip none before text =
      groupFrom (before.length + (text.take skip).length) 0 start
        (mark ((text.take skip).reverse ++ before) .outside
          (text.drop skip)).1 := by
  induction text generalizing skip start before with
  | nil => simp [closingGroupFrom, mark, groupFrom]
  | cons c rest ih =>
      have hposition : ∀ n : Nat,
          (c :: before).length + n = before.length + 1 + n := fun _ => rfl
      cases skip with
      | succ skip =>
          rw [closingGroupFrom, ih skip start]
          simp [Nat.add_assoc, Nat.add_comm 1]
      | zero =>
          rw [closingGroupFrom]
          simp only [List.take_zero, List.length_nil, Nat.add_zero,
            List.reverse_nil, List.nil_append, List.drop_zero]
          cases meeting before c rest with
          | string hopens hends hmark =>
              rw [if_pos hopens, hmark, groupFrom, markFrom_eq, ih _ start]
              simp only [is_quoted, Bool.false_eq_true, if_false,
                groupFrom_quotedMarks, stringLength, hends, Option.map_some,
                Option.getD_some, hposition]
          | endless hopens hends hmarks =>
              have hnone :=
                groupFrom_quotedMarks before.length 0 start (c :: rest) []
              rw [List.append_nil] at hnone
              rw [if_pos hopens, hmarks, hnone, stringLength, hends]
              exact closingGroupFrom_length none (c :: before) rest
          | other hopens hmark =>
              rw [if_neg hopens, hmark, groupFrom]
              by_cases hopen : c = openParen
              · have hpartner : closingParen before (c :: rest) =
                    (closeAt 1 (mark (c :: before) .outside rest).1).map
                      (· + 1) := by
                  rw [closingParen_eq, hmark, closeAt]
                  simp [hopen, markFrom]
                have hgroup := groupFrom_text (before.length + 1) before.length
                  (c :: before) rest
                rw [if_pos hopen, hpartner, if_pos (by simp [hopen]),
                  if_pos rfl, markFrom, hgroup]
                cases hclose :
                  closeAt 1 (mark (c :: before) .outside rest).1 with
                | none => rfl
                | some k =>
                    simp only [Option.map_some]
                    by_cases hlast : rest.length = k + 1
                    · rw [if_pos hlast.symm, if_pos hlast, ← hlast]
                      exact closingGroupFrom_length _ _ rest
                    · have hfound := lt_of_closeAt hclose
                      rw [length_mark] at hfound
                      rw [if_neg (Ne.symm hlast), if_neg hlast,
                        ih (k + 1) before.length,
                        List.length_take, Nat.min_eq_left (by omega)]
                      rfl
              · -- at depth zero a closing parenthesis counts for nothing
                rw [if_neg hopen, ih 0 start]
                simp [hopen, markFrom]

/-- **The group that a text ends with** is found by the marks. -/
theorem closingGroup_eq (text : Bytes) :
    closingGroup text = groupFrom 0 0 0 (marks text) :=
  closingGroupFrom_eq 0 0 [] text

end Scan

end System370
