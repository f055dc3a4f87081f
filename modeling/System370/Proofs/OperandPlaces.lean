import Mathlib.Data.List.Infix
import System370.Proofs.ExpressionScan
import System370.Proofs.PhysicalLines

/-!
# Where the octets of an operand field come from

An operand field is collected from segments of several lines, behind blanks that
are skipped and from segments that may be empty.  Every segment leaves a span at
the offset of its first octet, so spans may begin at the same offset; the last
one that begins at or before an octet is the one that holds it
(`OperandField.shows_scan`).

An operand stands in its field behind the operands before it, each with its
comma (`Statement.getElem?_operand`), so that the place of an operand is the
place of its first octet.

* `Statement.readAll_places` says for all statements of a source that none of
  its lines is lost and that every octet of an operand field is where its cursor
  says.
-/

namespace System370

/-- What is left of a text behind the octets of one sort that it begins with. -/
theorem Bytes.drop_length_takeWhile (p : UInt8 → Bool) (text : Bytes) :
    text.drop (text.takeWhile p).length = text.dropWhile p := by
  calc text.drop (text.takeWhile p).length
      = (text.takeWhile p ++ text.dropWhile p).drop
          (text.takeWhile p).length := by
          rw [List.takeWhile_append_dropWhile]
    _ = text.dropWhile p := List.drop_left

/-! ### Cursors and lines -/

/-- A cursor that names a line and a column of it where an octet stands, with
blanks for tabs. -/
structure Line.Shows (l : Line) (c : Cursor) (octet : Option UInt8) : Prop where
  line : c.line = l.number
  column : 0 < c.column
  octet : l.blanked[c.column - 1]? = octet
  lineByte : c.lineByte = l.start
  byte : c.byte = c.lineByte + (c.column - 1)

/-- A span whose octets are those of a line. -/
structure Span.Covers (span : Span) (l : Line) (o : Nat)
    (octet : Option UInt8) : Prop where
  line : span.line = l.number
  lineByte : span.lineByte = l.start
  column : 0 < span.column
  start : span.start ≤ o
  octet : l.blanked[span.column - 1 + (o - span.start)]? = octet

/-- A segment whose text stands in a line at its column. -/
structure Segment.Shows (s : Segment) (l : Line) : Prop where
  line : s.line = l.number
  lineByte : s.lineByte = l.start
  column : 0 < s.column
  text : s.text <+: l.blanked.drop (s.column - 1)

namespace Segment

variable {s : Segment} {l : Line}

/-- A piece of a line shows its columns. -/
theorem shows_ofLine (l : Line) {column : Nat} (h : 0 < column) :
    (ofLine l column).Shows l where
  line := rfl
  lineByte := rfl
  column := h
  text := List.IsPrefix.drop (List.take_prefix Line.lastColumn l.blanked) _

/-- Blanks that are skipped move the column. -/
theorem Shows.skipBlanks (h : s.Shows l) : s.skipBlanks.Shows l where
  line := h.line
  lineByte := h.lineByte
  column := Nat.lt_of_lt_of_le h.column (Nat.le_add_right _ _)
  text := by
    have hdropped : s.skipBlanks.text =
        s.text.drop (s.text.takeWhile (· = blank)).length :=
      (Bytes.drop_length_takeWhile _ _).symm
    have hcolumn : s.skipBlanks.column - 1 =
        s.column - 1 + (s.text.takeWhile (· = blank)).length := by
      have hpos := h.column
      simp only [Segment.skipBlanks]
      omega
    rw [hdropped, hcolumn, ← List.drop_drop]
    exact List.IsPrefix.drop h.text _

end Segment

/-! ### Spans -/

namespace OperandField

/-- The last span that begins at or before an offset, or one that was found
before. -/
def holding (o : Nat) (found : Span) (spans : List Span) : Span :=
  spans.foldl (fun found span => if span.start ≤ o then span else found) found

/-- A text puts octets behind those of the field. -/
theorem scanText_before (before : Bytes) (state : Scan.Quoting) (text : Bytes) :
    ∃ taken, taken <+: text ∧
      (scanText before state text).before = taken.reverse ++ before := by
  induction text generalizing before state with
  | nil => exact ⟨[], List.nil_prefix, rfl⟩
  | cons c rest ih =>
      unfold scanText
      split
      · exact ⟨[], List.nil_prefix, rfl⟩
      · obtain ⟨taken, hprefix, hbefore⟩ :=
          ih (c :: before) (state.step before rest.head? c).2
        refine ⟨c :: taken, (List.prefix_cons_inj c).mpr hprefix, ?_⟩
        rw [hbefore, List.reverse_cons, List.append_assoc]
        rfl

/-- A scan keeps what it has taken. -/
theorem scan_before (before : Bytes) (state : Scan.Quoting) (skip : Bool)
    (segments : List Segment) :
    ∃ taken, (scan before state skip segments).before = taken ++ before := by
  induction segments generalizing before state skip with
  | nil => exact ⟨[], rfl⟩
  | cons s rest ih =>
      simp only [scan]
      generalize (if skip then s.skipBlanks else s) = t
      obtain ⟨taken, -, hbefore⟩ := scanText_before before state t.text
      split
      · obtain ⟨more, hmore⟩ := ih (scanText before state t.text).before
          (scanText before state t.text).state
          (scanText before state t.text).stopped
        refine ⟨more ++ taken.reverse, ?_⟩
        simp only
        rw [hmore, hbefore, List.append_assoc]
      · exact ⟨taken.reverse, hbefore⟩

variable {lines : List Line}

/-- The spans of an operand field hold its octets from an offset on, wherever
they are looked for; before that offset there are none. -/
structure Held (lines : List Line) (before : Bytes)
    (field : Scanned) : Prop where
  foreign : ∀ o found, o < before.length → holding o found field.spans = found
  held : ∀ o found, before.length ≤ o → o < field.before.length →
    ∃ l ∈ lines,
    (holding o found field.spans).Covers l o field.before.reverse[o]?

/-- The octets that a segment puts into a field are in its line. -/
theorem covers_segment {s : Segment} {l : Line} (h : s.Shows l)
    {before taken behind : Bytes} (htaken : taken <+: s.text) {o : Nat}
    (hlow : before.length ≤ o) (hhigh : o < before.length + taken.length) :
    Span.Covers ⟨before.length, s.line, s.column, s.lineByte⟩ l o
      (before.reverse ++ taken ++ behind)[o]? where
  line := h.line
  lineByte := h.lineByte
  column := h.column
  start := hlow
  octet := by
    have htext := htaken.trans h.text
    obtain ⟨rest, hrest⟩ := htext
    have hlt : o - before.length < taken.length := by omega
    rw [← List.getElem?_drop, ← hrest, List.getElem?_append_left hlt,
      List.append_assoc,
      List.getElem?_append_right (by simpa using hlow), List.length_reverse,
      List.getElem?_append_left hlt]

/-- One more segment in front of a field is where its own octets come from. -/
theorem Held.cons {s : Segment} {l : Line} (hl : l ∈ lines)
    (hs : s.Shows l) {before taken more : Bytes} (htaken : taken <+: s.text)
    {field : Scanned} (hfield : Held lines (taken.reverse ++ before) field)
    (hmore : field.before = more ++ (taken.reverse ++ before)) :
    Held lines before
      { field with spans :=
        ⟨before.length, s.line, s.column, s.lineByte⟩ :: field.spans } := by
  have hlength : (taken.reverse ++ before).length =
      before.length + taken.length := by
    rw [List.length_append, List.length_reverse, Nat.add_comm]
  refine ⟨fun o found ho => ?_, fun o found hlow hhigh => ?_⟩
  · have hstart : ¬ before.length ≤ o := Nat.not_le.mpr ho
    simp only [holding, List.foldl_cons, if_neg hstart]
    exact hfield.foreign o found (by omega)
  · simp only [holding, List.foldl_cons, if_pos hlow]
    by_cases ho : o < before.length + taken.length
    · refine ⟨l, hl, ?_⟩
      have hforeign := hfield.foreign o ⟨before.length, s.line, s.column,
        s.lineByte⟩ (hlength ▸ ho)
      unfold holding at hforeign
      rw [hforeign, hmore, List.reverse_append, List.reverse_append,
        List.reverse_reverse]
      exact covers_segment hs htaken hlow ho
    · exact hfield.held o _ (by omega) hhigh

/-- **The spans of an operand field.**  The last span that begins at or before
an octet is the one of the segment that the octet came from. -/
theorem shows_scan (before : Bytes) (state : Scan.Quoting) (skip : Bool)
    {segments : List Segment} (h : ∀ s ∈ segments, ∃ l ∈ lines, s.Shows l) :
    Held lines before (scan before state skip segments) := by
  induction segments generalizing before state skip with
  | nil =>
      exact ⟨fun _ _ _ => rfl,
        fun o found hlow hhigh => absurd hhigh (Nat.not_lt.mpr hlow)⟩
  | cons s rest ih =>
      have hs : ∃ l ∈ lines, (if skip then s.skipBlanks else s).Shows l := by
        obtain ⟨l, hl, hshows⟩ := h s List.mem_cons_self
        refine ⟨l, hl, ?_⟩
        split
        · exact hshows.skipBlanks
        · exact hshows
      have hrest : ∀ s ∈ rest, ∃ l ∈ lines, s.Shows l :=
        fun s hs => h s (List.mem_cons_of_mem _ hs)
      simp only [scan]
      generalize (if skip then s.skipBlanks else s) = t at hs
      obtain ⟨l, hl, ht⟩ := hs
      obtain ⟨taken, hprefix, hbefore⟩ := scanText_before before state t.text
      generalize scanText before state t.text = scanned at hbefore
      split
      · have hfield := ih scanned.before scanned.state scanned.stopped hrest
        obtain ⟨more, hmore⟩ :=
          scan_before scanned.before scanned.state scanned.stopped rest
        rw [hbefore] at hfield hmore
        rw [hbefore]
        exact hfield.cons hl ht hprefix hmore
      · have hlast : Held lines (taken.reverse ++ before)
            { scanned with spans := [] } := by
          refine ⟨fun _ _ _ => rfl,
            fun o found hlow hhigh => absurd hhigh (Nat.not_lt.mpr ?_)⟩
          exact hbefore ▸ hlow
        exact hlast.cons hl ht hprefix (hbefore.trans (List.nil_append _).symm)

end OperandField

/-! ### Operands in their field -/

namespace Scan

/-- The pieces of a text with their commas are the text and one more comma, or
the beginning of that. -/
theorem flatMap_splitFrom (depth position : Nat) (piece : Bytes)
    (ms : List Mark) :
    (splitFrom depth position piece ms).1.flatMap (· ++ [comma]) <+:
      piece.reverse ++ ms.map (·.octet) ++ [comma] := by
  induction ms generalizing depth position piece with
  | nil =>
      unfold splitFrom
      split
      · simp
      · exact List.nil_prefix
  | cons m rest ih =>
      -- an octet that ends no piece goes into the current one
      have hkept : ∀ depth position,
          (splitFrom depth position (m.octet :: piece) rest).1.flatMap
          (· ++ [comma]) <+: piece.reverse ++ (m :: rest).map (·.octet) ++
            [comma] := by
        intro depth position
        have h := ih depth position (m.octet :: piece)
        rwa [List.reverse_cons, List.append_assoc piece.reverse] at h
      unfold splitFrom
      split
      · exact hkept _ _
      · split
        · split
          · exact List.nil_prefix
          · exact hkept _ _
        · split
          · rename_i hcomma
            have hoctet : m.octet = comma := by
              have := hcomma.1
              simp only [Mark.is, Bool.and_eq_true, decide_eq_true_eq] at this
              exact this.1
            have h := ih 0 (position + 1) []
            split
            · exact List.nil_prefix
            · rename_i pieces balance hpieces
              rw [hpieces] at h
              rw [List.flatMap_cons, List.map_cons, hoctet,
                List.append_assoc piece.reverse,
                List.append_assoc piece.reverse, List.prefix_append_right_inj]
              simpa using h
          · exact hkept _ _

end Scan

namespace Statement

variable {s : Statement} {g : List Line}

/-- The operands with their commas are the operand field and one more comma, or
the beginning of that. -/
theorem operands_splitOperands (h : s.operands = []) :
    s.splitOperands.operands.flatMap (· ++ [comma]) <+:
      s.splitOperands.operand ++ [comma] := by
  have hsplit := Scan.flatMap_splitFrom 0 0 [] (Scan.marks s.operand)
  rw [List.reverse_nil, List.nil_append, Scan.marks, Scan.octets_mark] at hsplit
  rw [← Scan.marks, ← Scan.splitAtCommas_eq] at hsplit
  unfold splitOperands
  split
  · rename_i hcommas
    rw [hcommas] at hsplit
    exact hsplit
  · rename_i hcommas
    rw [hcommas] at hsplit
    exact hsplit
  · simp only [h]
    exact List.nil_prefix

/-- What collecting an operand field from segments leaves in a statement without
one. -/
theorem withOperand_places {segments : List Segment}
    (hoperand : s.operand = []) (hoperands : s.operands = []) :
    ((s.withOperand segments).operand = [] ∨
        (s.withOperand segments).operand =
            (OperandField.scan [] .outside false segments).before.reverse ∧
          (s.withOperand segments).spans =
            (OperandField.scan [] .outside false segments).spans) ∧
      (s.withOperand segments).operands.flatMap (· ++ [comma]) <+:
        (s.withOperand segments).operand ++ [comma] := by
  have hsame : ∀ s : Statement, s.splitOperands.operand = s.operand ∧
      s.splitOperands.spans = s.spans := by
    intro s
    unfold splitOperands
    split <;> exact ⟨rfl, rfl⟩
  unfold withOperand
  split
  · exact ⟨Or.inl hoperand, by simp [hoperands]⟩
  · split
    · exact ⟨Or.inl hoperand, by simp [hoperands]⟩
    · simp only
      split
      · exact ⟨Or.inr ⟨rfl, rfl⟩, by simp [hoperands]⟩
      · exact ⟨Or.inr (hsame _), operands_splitOperands hoperands⟩

/-- The segments of an operand field that begins in a column of the first
line. -/
def fieldSegments (first : Line) (column : Nat) (rest : List Line) :
    List Segment :=
  Segment.ofLine first column :: rest.map fun l =>
    Segment.ofLine l Line.continueColumn

/-- Every piece of an operand field shows a line of its statement. -/
theorem shows_fieldSegments (first : Line) {column : Nat} (h : 0 < column)
    (rest : List Line) :
    ∀ segment ∈ fieldSegments first column rest, ∃ l ∈ first :: rest,
    segment.Shows l := by
  intro segment hsegment
  rcases List.mem_cons.mp hsegment with rfl | hsegment
  · exact ⟨first, List.mem_cons_self, Segment.shows_ofLine first h⟩
  · obtain ⟨l, hl, rfl⟩ := List.mem_map.mp hsegment
    exact ⟨l, List.mem_cons_of_mem _ hl, Segment.shows_ofLine l (by decide)⟩

/-- A statement without an operand field. -/
structure Bare (s : Statement) : Prop where
  operand : s.operand = []
  operands : s.operands = []
  spans : s.spans = []
  faults : s.faults = []

/-- A statement of lines has no operand field, or one that begins behind its
mnemonic. -/
theorem ofLines_field (first : Line) (rest : List Line) :
    (ofLines first rest).Bare ∨
    ∃ (bare : Statement) (column : Nat), bare.Bare ∧ 0 < column ∧
      ofLines first rest = bare.withOperand
        (fieldSegments first column rest) := by
  unfold ofLines
  simp only
  split
  · exact Or.inl ⟨rfl, rfl, rfl, rfl⟩
  · split
    · exact Or.inl ⟨rfl, rfl, rfl, rfl⟩
    · exact Or.inr ⟨_, _, ⟨rfl, rfl, rfl, rfl⟩, Nat.succ_pos _, rfl⟩

/-- What a statement of lines has of its operand field. -/
theorem Holds.operands (h : s.Holds g) :
    s.operands.flatMap (· ++ [comma]) <+: s.operand ++ [comma] := by
  obtain ⟨first, rest, -, rfl⟩ := h
  rcases ofLines_field first rest with hbare | ⟨bare, column, hbare, -, hfield⟩
  · rw [hbare.operands]
    exact List.nil_prefix
  · rw [hfield]
    exact (withOperand_places hbare.operand hbare.operands).2

/-- **The cursor of an octet** of an operand field names a line of the statement
and the column where that octet stands. -/
theorem Holds.cursorAt (h : s.Holds g) {o : Nat} (ho : o < s.operand.length)
    (size : Nat) :
    ∃ l ∈ g, l.Shows (s.cursorAt o size) s.operand[o]? := by
  obtain ⟨first, rest, rfl, rfl⟩ := h
  have hcovers : ∀ found, ∃ l ∈ first :: rest,
      (OperandField.holding o found (ofLines first rest).spans).Covers l o
        (ofLines first rest).operand[o]? := by
    rcases ofLines_field first rest with
      hbare | ⟨bare, column, hbare, hcolumn, hfield⟩
    · rw [hbare.operand] at ho
      exact absurd ho (Nat.not_lt_zero _)
    · rw [hfield] at ho ⊢
      have hheld := OperandField.shows_scan [] .outside false
        (shows_fieldSegments first hcolumn rest)
      rcases (withOperand_places hbare.operand hbare.operands).1 with
        hnil | ⟨hoperand, hspans⟩
      · rw [hnil] at ho
        exact absurd ho (Nat.not_lt_zero _)
      · rw [hoperand, List.length_reverse] at ho
        rw [hoperand, hspans]
        exact fun found => hheld.held o found (Nat.zero_le _) ho
  unfold Statement.cursorAt
  generalize (ofLines first rest).spans = spans at hcovers
  cases spans with
  | nil =>
      -- without spans nothing would be held, whatever was found before
      obtain ⟨l, -, hl⟩ := hcovers ⟨0, 0, 0, 0⟩
      exact absurd hl.column (Nat.lt_irrefl 0)
  | cons span others =>
      obtain ⟨l, hl, hcovers⟩ := hcovers span
      simp only [OperandField.holding, List.foldl_cons, ite_self] at hcovers
      simp only
      generalize others.foldl _ span = found at hcovers
      have hstart := hcovers.start
      have hcolumn := hcovers.column
      have hindex : found.column + o - found.start - 1 =
          found.column - 1 + (o - found.start) := by
        omega
      exact ⟨l, hl,
        hcovers.line, by simp only; omega, by rw [hindex]; exact hcovers.octet,
        hcovers.lineByte, rfl⟩

/-- An operand stands behind the operands before it, each with its comma. -/
theorem getElem?_operand
    (h : s.operands.flatMap (· ++ [comma]) <+: s.operand ++ [comma])
    {i : Nat} {operand : Bytes} (hi : s.operands[i]? = some operand)
    {j : Nat} (hj : j < operand.length) :
    s.operandOffset i + j < s.operand.length ∧
      s.operand[s.operandOffset i + j]? = operand[j]? := by
  obtain ⟨hlt, hget⟩ := List.getElem?_eq_some_iff.mp hi
  have hparts : s.operands =
      s.operands.take i ++ operand :: s.operands.drop (i + 1) := by
    rw [← hget]
    simp
  have hoffset : s.operandOffset i =
      ((s.operands.take i).flatMap (· ++ [comma])).length := rfl
  obtain ⟨rest, hrest⟩ := h
  rw [hparts, List.flatMap_append, List.flatMap_cons] at hrest
  have hlength := congrArg List.length hrest
  simp only [List.length_append, List.length_singleton, ← hoffset] at hlength
  have hinside : s.operandOffset i + j < s.operand.length := by omega
  refine ⟨hinside, ?_⟩
  rw [← @List.getElem?_append_left _ _ [comma] _ hinside, ← hrest,
    List.append_assoc, List.getElem?_append_right (by omega),
    ← hoffset, Nat.add_sub_cancel_left, List.append_assoc,
    List.append_assoc, List.getElem?_append_left hj]

/-- **The cursor of an operand** names the line and the column of its first
octet. -/
theorem Holds.operandCursor (h : s.Holds g) {i : Nat} {operand : Bytes}
    (hi : s.operands[i]? = some operand) (hne : operand ≠ []) :
    ∃ l ∈ g, l.Shows (s.operandCursor i) operand.head? := by
  have hj : 0 < operand.length := List.length_pos_iff.mpr hne
  obtain ⟨hinside, hoctet⟩ := getElem?_operand h.operands hi hj
  obtain ⟨l, hl, hshows⟩ := h.cursorAt hinside operand.length
  refine ⟨l, hl, ?_⟩
  unfold Statement.operandCursor
  rw [hi]
  rw [hoctet, ← List.head?_eq_getElem?, Nat.add_zero] at hshows
  exact hshows

/-- A cursor that names a line of a statement, and a column of it where an octet
stands. -/
def Points (s : Statement) (c : Cursor) (octet : Option UInt8) : Prop :=
  ∃ i raw, s.lines[i]? = some raw ∧ c.line = s.line + i ∧ 0 < c.column ∧
    (raw.map fun c => if c = 0x09 then blank else c)[c.column - 1]? = octet

/-- A line that shows a cursor is the one that the cursor names. -/
theorem InSource.points {source : Bytes} {before : Nat}
    (h : s.InSource source before g) (hline : s.line = before + 1)
    {c : Cursor} {octet : Option UInt8} (hshows : ∃ l ∈ g, l.Shows c octet) :
    s.Points c octet := by
  obtain ⟨l, hl, hshows⟩ := hshows
  obtain ⟨i, hi⟩ := List.getElem?_of_mem hl
  refine ⟨i, l.raw, ?_, ?_, hshows.column, hshows.octet⟩
  · rw [h.holds.lines, List.getElem?_map, hi]
    rfl
  · rw [hshows.line, (h.numbered i l hi).1, hline]
    omega

theorem InSource.line {source : Bytes} {before : Nat}
    (h : s.InSource source before g) :
    s.line = before + 1 := by
  obtain ⟨first, rest, rfl, rfl⟩ := h.holds
  rw [(ofLines_frame first rest).1, (h.numbered 0 first rfl).1]

/-- **Nothing of a source is lost or misplaced.**  If no line is too long, the
lines of the statements are the physical lines of the source without the
carriage returns at their ends.  A statement has the number of its first line,
the cursor of every octet of its operand field names a line of it and the column
where that octet stands, and the cursor of an operand that is not empty names
the place of its first octet. -/
theorem readAll_places (source : Bytes)
    (h : ∀ l ∈ Line.pieces source, l.length ≤ Line.maxLength) :
    Line.Cuts source (Line.pieces source) ∧
      ∃ statements, readAll source = .ok statements ∧
        statements.flatMap (·.lines) = (Line.pieces source).map Line.trimmed ∧
        ∀ before s after, statements = before ++ s :: after →
          s.lines ≠ [] ∧ s.line = (before.flatMap (·.lines)).length + 1 ∧
          (∀ o c, s.operand[o]? = some c → ∀ size,
            s.Points (s.cursorAt o size) (some c)) ∧
          ∀ i operand, s.operands[i]? = some operand → operand ≠ [] →
            s.Points (s.operandCursor i) operand.head? := by
  have hread := readAll_of_lines (Line.ofSource_eq_ok_iff.mpr ⟨h, rfl⟩)
  obtain ⟨hlines, hgroups⟩ := readAll_lines hread
  refine ⟨Line.cuts_pieces source, _, hread, hlines,
    fun before s after hsplit => ?_⟩
  obtain ⟨g, hs⟩ := hgroups before s after hsplit
  refine ⟨?_, hs.line, fun o c hc size => ?_, fun i operand hi hne => ?_⟩
  · obtain ⟨first, rest, rfl, -⟩ := hs.holds
    rw [hs.holds.lines]
    simp
  · obtain ⟨ho, -⟩ := List.getElem?_eq_some_iff.mp hc
    rw [← hc]
    exact hs.points hs.line (hs.holds.cursorAt ho size)
  · exact hs.points hs.line (hs.holds.operandCursor hi hne)

/-- A statement whose second operand is on another line, behind blanks. -/
theorem readAll_places_continued :
    ∃ source s, Statement.readAll source = .ok [s] ∧
    s.operands = [bytes "A(1)", bytes "C'Z'"] ∧ s.lines.length = 2 ∧
    (s.operandCursor 1).line = 2 ∧ (s.operandCursor 1).column = 18 ∧
    s.Points (s.operandCursor 1) (some (octet 'C')) := by
  obtain ⟨-, statements, hread, -, hplaces⟩ := readAll_places
    (bytes " DC A(1), first" ++ List.replicate 56 blank ++ bytes "X\r\n" ++
      List.replicate 17 blank ++ bytes "C'Z'\n") (by decide +kernel)
  have hcheck : ((readAll
      (bytes " DC A(1), first" ++ List.replicate 56 blank ++ bytes "X\r\n" ++
      List.replicate 17 blank ++ bytes "C'Z'\n")).toOption.any fun statements =>
        decide (statements.map (·.operands) = [[bytes "A(1)", bytes "C'Z'"]] ∧
        statements.map (·.lines.length) = [2] ∧
        statements.map
          (fun s => ((s.operandCursor 1).line, (s.operandCursor 1).column)) =
          [(2, 18)])) = true := by
    decide +kernel
  rw [hread] at hcheck
  obtain ⟨hoperands, hlength, hcursor⟩ := of_decide_eq_true hcheck
  obtain ⟨s, rfl, hs⟩ := List.map_eq_singleton_iff.mp hoperands
  simp only [List.map_cons, List.map_nil, List.cons.injEq,
    Prod.mk.injEq, and_true]
    at hlength hcursor
  obtain ⟨-, -, -, hoperand⟩ := hplaces [] s [] rfl
  exact ⟨_, s, hread, hs, hlength, hcursor.1, hcursor.2,
    hoperand 1 (bytes "C'Z'") (by rw [hs]; rfl) (by decide)⟩

end Statement

end System370
