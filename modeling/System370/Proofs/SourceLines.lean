import Mathlib.Data.List.Forall2
import System370.Statement.Read

/-!
# What of a source is read

The text of a statement is in the first columns of its lines.  Where the lines
stand, and what stands behind column 72, changes nothing about its label, its
mnemonic and its operands, nor whether its operand field can be split.

A source that is complete, whose last line is ended and not continued, can be
followed by any text: the statements of the text come behind those of the
source, and only their positions are other than those of the text alone.

* `Statement.twin_ofLines` compares two statements by the columns of their
  lines;
* `Statement.readAll_append` reads a text behind a complete source.
-/

namespace System370

namespace Bytes

/-- There is always a piece, even of nothing. -/
theorem splitOn_ne_nil (separator : UInt8) (text : Bytes) :
    splitOn separator text ≠ [] := by
  cases text with
  | nil => simp [splitOn]
  | cons c rest =>
      unfold splitOn
      split
      · simp
      · split <;> simp

/-- A text behind a separator is cut by itself. -/
theorem splitOn_append (separator : UInt8) (before after : Bytes) :
    splitOn separator (before ++ separator :: after) =
      splitOn separator before ++ splitOn separator after := by
  induction before with
  | nil => simp [splitOn]
  | cons c rest ih =>
      rw [List.cons_append, splitOn, splitOn]
      split
      · rw [ih, List.cons_append]
      · rw [ih]
        cases hrest : splitOn separator rest with
        | nil => exact absurd hrest (splitOn_ne_nil _ _)
        | cons piece pieces => rfl

end Bytes

namespace Line

/-- Two lines that agree in the columns that are looked at. -/
def SameColumns (l l' : Line) : Prop := l'.blanked.take 72 = l.blanked.take 72

instance (l l' : Line) : Decidable (l.SameColumns l') :=
  inferInstanceAs (Decidable (l'.blanked.take 72 = l.blanked.take 72))

/-- The text of a line is in the columns that agree. -/
theorem SameColumns.text {l l' : Line} (h : l.SameColumns l') :
    l'.text = l.text := by
  have hcut : ∀ l : Line,
      l.text = (l.blanked.take 72).take lastColumn := fun l => by
    rw [Line.text, List.take_take]
    rfl
  rw [hcut, hcut, h]

/-- So is the mark of a continued line. -/
theorem SameColumns.isContinued {l l' : Line} (h : l.SameColumns l') :
    l'.isContinued = l.isContinued := by
  have hcut : ∀ l : Line,
      l.blanked[lastColumn]? = (l.blanked.take 72)[lastColumn]? := fun l => by
    rw [List.getElem?_take_of_lt (by decide)]
  unfold Line.isContinued
  rw [hcut, hcut, h]

/-- The same lines in another place. -/
theorem enumerate_sameColumns (pieces : List Bytes) (n n' start start' : Nat) :
    List.Forall₂ SameColumns (enumerate n start pieces)
      (enumerate n' start' pieces) := by
  induction pieces generalizing n n' start start' with
  | nil => exact .nil
  | cons piece rest ih => exact .cons rfl (ih _ _ _ _)

/-- Lines are numbered on in the second part. -/
theorem enumerate_append (pieces others : List Bytes) (n start : Nat) :
    ∃ m behind, enumerate n start (pieces ++ others) =
      enumerate n start pieces ++ enumerate m behind others := by
  induction pieces generalizing n start with
  | nil => exact ⟨n, start, rfl⟩
  | cons piece rest ih =>
      obtain ⟨m, behind, h⟩ :=
        ih (n + 1) (start + (dropReturn piece).length + 1)
      exact ⟨m, behind, congrArg (_ :: ·) h⟩

/-- The pieces that are lines: what follows the last end of a line is one only
if it is not empty. -/
def pieces (source : Bytes) : List Bytes :=
  let pieces := Bytes.splitOn 0x0A source
  if pieces.getLast? = some [] then pieces.dropLast else pieces

theorem ofSource_eq (source : Bytes) : ofSource source =
    if (pieces source).any (maxLength < ·.length) then .error .lineTooLong
    else .ok (enumerate 1 0 (pieces source)) := rfl

/-- A source without overlong lines is read. -/
theorem ofSource_of_short {source : Bytes}
    (h : (pieces source).any (maxLength < ·.length) = false) :
    ofSource source = .ok (enumerate 1 0 (pieces source)) := by
  rw [ofSource_eq, h]
  rfl

/-- The last line of a source is ended, if there is one. -/
def Ended (source : Bytes) : Prop := source = [] ∨ source.getLast? = some 0x0A

/-- A source whose last line is ended is continued on a new one. -/
theorem pieces_append {source : Bytes} (h : Ended source) (text : Bytes) :
    pieces (source ++ text) = pieces source ++ pieces text := by
  rcases h with rfl | h
  · rfl
  · obtain ⟨before, rfl⟩ : ∃ before, source = before ++ [0x0A] :=
      ⟨source.dropLast, (List.dropLast_append_getLast? _ h).symm⟩
    have hsource : pieces (before ++ [0x0A]) = Bytes.splitOn 0x0A before := by
      unfold pieces
      rw [Bytes.splitOn_append]
      simp [Bytes.splitOn]
    rw [hsource, List.append_assoc, List.singleton_append]
    unfold pieces
    rw [Bytes.splitOn_append]
    have hne := Bytes.splitOn_ne_nil 0x0A text
    simp only
    rw [List.getLast?_append_of_ne_nil _ hne]
    split
    · rw [List.dropLast_append_of_ne_nil hne]
    · rfl

/-- A continued line joins the group behind it. -/
theorem group_cons (l : Line) (rest : List Line) : group (l :: rest) =
    if l.isContinued then
      match group rest with
      | [] => [[l]]
      | g :: others => (l :: g) :: others
    else [l] :: group rest := rfl

theorem group_ne_nil (l : Line) (rest : List Line) :
    group (l :: rest) ≠ [] := by
  rw [group_cons]
  split
  · split <;> simp
  · simp

/-- A group ends with a line that is not continued. -/
theorem group_append {lines : List Line}
    (h : ∀ l ∈ lines.getLast?, l.isContinued = false) (others : List Line) :
    group (lines ++ others) = group lines ++ group others := by
  induction lines with
  | nil => rfl
  | cons l rest ih =>
      rw [List.cons_append, group_cons, group_cons]
      cases rest with
      | nil =>
          have hlast : l.isContinued = false := h l rfl
          simp [hlast, group]
      | cons next rest =>
          rw [ih fun last hlast =>
            h last (by simpa [List.getLast?_cons_cons] using hlast)]
          split
          · cases hgroup : group (next :: rest) with
            | nil => exact absurd hgroup (group_ne_nil _ _)
            | cons g groups => rfl
          · rfl

/-- Lines that agree are grouped alike. -/
theorem group_sameColumns {lines lines' : List Line}
    (h : List.Forall₂ SameColumns lines lines') :
    List.Forall₂ (List.Forall₂ SameColumns) (group lines) (group lines') := by
  induction h with
  | nil => exact .nil
  | @cons l l' rest rest' hl _ ih =>
      rw [group_cons, group_cons, hl.isContinued]
      generalize group rest = groups at ih
      generalize group rest' = groups' at ih
      split
      · cases ih with
        | nil => exact .cons (.cons hl .nil) .nil
        | cons hg hgroups => exact .cons (.cons hl hg) hgroups
      · exact .cons (.cons hl .nil) ih

end Line

/-! ### Statements -/

/-- Two segments of the same text. -/
def Segment.SameText (s s' : Segment) : Prop := s'.text = s.text

/-- The scan of an operand field reads texts and never cursors. -/
theorem OperandField.scan_sameText {segments segments' : List Segment}
    (h : List.Forall₂ Segment.SameText segments segments') (before : Bytes)
    (state : Scan.Quoting) (skip : Bool) :
    (scan before state skip segments').before =
      (scan before state skip segments).before ∧
      (scan before state skip segments').state =
        (scan before state skip segments).state := by
  induction h generalizing before state skip with
  | nil => exact ⟨rfl, rfl⟩
  | @cons s s' rest rest' hs _ ih =>
      have htext : (if skip then s'.skipBlanks else s').text =
          (if skip then s.skipBlanks else s).text := by
        split
        · simp only [Segment.skipBlanks, show s'.text = s.text from hs]
        · exact hs
      simp only [scan]
      generalize (if skip then s.skipBlanks else s) = t at htext
      generalize (if skip then s'.skipBlanks else s') = t' at htext
      rw [htext]
      split
      · exact ih _ _ _
      · exact ⟨rfl, rfl⟩

namespace Statement

/-- Two statements with the same label, mnemonic and operands, and as many
faults. -/
structure SameText (s s' : Statement) : Prop where
  label : s'.label = s.label
  mnemonic : s'.mnemonic = s.mnemonic
  operands : s'.operands = s.operands
  faults : s'.faults.length = s.faults.length

instance (s s' : Statement) : Decidable (s.SameText s') :=
  decidable_of_iff (s'.label = s.label ∧ s'.mnemonic = s.mnemonic ∧
    s'.operands = s.operands ∧
      s'.faults.length = s.faults.length)
    ⟨fun h => ⟨h.1, h.2.1, h.2.2.1, h.2.2.2⟩,
      fun h => ⟨h.label, h.mnemonic, h.operands, h.faults⟩⟩

/-- Two statements of the same text, of which both or none are comments. -/
structure Twin (s s' : Statement) : Prop extends SameText s s' where
  isComment : s'.isComment = s.isComment

theorem Twin.symm {s s' : Statement} (h : s.Twin s') : s'.Twin s :=
  ⟨⟨h.label.symm, h.mnemonic.symm, h.operands.symm, h.faults.symm⟩,
    h.isComment.symm⟩

theorem Twin.trans {s s' s'' : Statement} (h : s.Twin s') (h' : s'.Twin s'') :
    s.Twin s'' :=
  ⟨⟨h'.label.trans h.label, h'.mnemonic.trans h.mnemonic,
    h'.operands.trans h.operands,
    h'.faults.trans h.faults⟩, h'.isComment.trans h.isComment⟩

theorem twins_symm {ss ss' : List Statement} (h : List.Forall₂ Twin ss ss') :
    List.Forall₂ Twin ss' ss :=
  (h.imp fun _ _ hs => hs.symm).flip

/-- Twins of twins, statement by statement. -/
theorem twins_trans {ss ss' ss'' : List Statement}
    (h : List.Forall₂ Twin ss ss') (h' : List.Forall₂ Twin ss' ss'') :
    List.Forall₂ Twin ss ss'' := by
  induction h generalizing ss'' with
  | nil => exact h'
  | cons hs _ ih =>
      cases h' with
      | cons hs' hrest => exact .cons (hs.trans hs') (ih hrest)

/-- The statements that are no comments of corresponding statements. -/
theorem twins_filter {ss ss' : List Statement} (h : List.Forall₂ Twin ss ss') :
    List.Forall₂ Twin (ss.filter (!·.isComment)) (ss'.filter (!·.isComment)) :=
  List.rel_filter (fun s s' hs => by simp [hs.isComment]) h

/-- Corresponding statements are without faults together. -/
theorem twins_faults {ss ss' : List Statement} (h : List.Forall₂ Twin ss ss') :
    (∀ s ∈ ss', s.faults = []) ↔ ∀ s ∈ ss, s.faults = [] := by
  induction h with
  | nil => exact Iff.rfl
  | cons hs _ ih =>
      rw [List.forall_mem_cons, List.forall_mem_cons, ih,
        ← List.length_eq_zero_iff, hs.faults, List.length_eq_zero_iff]

/-- Operands of twins are split alike. -/
theorem twin_splitOperands {s s' : Statement} (h : s.Twin s')
    (hoperand : s'.operand = s.operand) :
    s.splitOperands.Twin s'.splitOperands := by
  unfold splitOperands
  rw [hoperand]
  split
  · exact { h with operands := rfl }
  · exact { h with operands := rfl, faults := rfl }
  · exact { h with faults := rfl }

/-- Twins take operand fields with the same text. -/
theorem twin_withOperand {s s' : Statement} (h : s.Twin s')
    {segments segments' : List Segment}
    (hsegments : List.Forall₂ Segment.SameText segments segments') :
    (s.withOperand segments).Twin (s'.withOperand segments') := by
  obtain ⟨hbefore, hstate⟩ :=
    OperandField.scan_sameText hsegments [] .outside false
  cases hsegments with
  | nil => exact h
  | cons hfirst hrest =>
      simp only [withOperand, show _ = _ from hfirst]
      split
      · exact h
      · simp only [hstate]
        split
        · exact { h with faults := rfl }
        · exact twin_splitOperands { h with } (by rw [hbefore])

/-- **A statement depends on the columns of its lines** and on nothing else of
them. -/
theorem twin_ofLines {first first' : Line} {rest rest' : List Line}
    (hfirst : first.SameColumns first')
    (hrest : List.Forall₂ Line.SameColumns rest rest') :
    (ofLines first rest).Twin (ofLines first' rest') := by
  have hsegment : ∀ {l l' : Line}, l.SameColumns l' → ∀ column,
      (Segment.ofLine l column).SameText (Segment.ofLine l' column) :=
    fun hl column => by
    simp only [Segment.SameText, Segment.ofLine, hl.text]
  unfold ofLines
  simp only [hfirst.text]
  split
  · exact ⟨⟨rfl, rfl, rfl, rfl⟩, rfl⟩
  · split
    · exact ⟨⟨rfl, rfl, rfl, rfl⟩, rfl⟩
    · refine twin_withOperand ?_ (.cons (hsegment hfirst _) ?_)
      · exact ⟨⟨rfl, rfl, rfl, rfl⟩, rfl⟩
      · exact List.forall₂_map_left_iff.mpr (List.forall₂_map_right_iff.mpr
          (hrest.imp fun _ _ hl => hsegment hl _))

/-- The statement of a group of lines. -/
def ofGroup? : List Line → Option Statement
  | [] => none
  | first :: rest => some (ofLines first rest)

/-- The statements of lines. -/
def ofSourceLines (lines : List Line) : List Statement :=
  (Line.group lines).filterMap ofGroup?

theorem readAll_eq (source : Bytes) :
    readAll source = (Line.ofSource source).map ofSourceLines := rfl

/-- A source is read line by line, then statement by statement. -/
theorem readAll_of_lines {source : Bytes} {lines : List Line}
    (h : Line.ofSource source = .ok lines) :
    readAll source = .ok (ofSourceLines lines) := by
  rw [readAll_eq, h]
  rfl

/-- Lines that agree in the columns that are looked at have the same
statements. -/
theorem twins_of_sameColumns {lines lines' : List Line}
    (h : List.Forall₂ Line.SameColumns lines lines') :
    List.Forall₂ Twin (ofSourceLines lines) (ofSourceLines lines') := by
  have hgroups := Line.group_sameColumns h
  unfold ofSourceLines
  generalize Line.group lines = groups at hgroups
  generalize Line.group lines' = groups' at hgroups
  induction hgroups with
  | nil => exact .nil
  | cons hg _ ih =>
      cases hg with
      | nil => exact ih
      | cons hfirst hrest => exact .cons (twin_ofLines hfirst hrest) ih

/-! ### Texts behind a source -/

/-- A source that can be read and whose last line is ended and not continued, so
that what follows begins with a statement of its own. -/
structure Complete (source : Bytes) : Prop where
  ended : Line.Ended source
  closed : ∃ lines, Line.ofSource source = .ok lines ∧ ∀ l ∈ lines.getLast?,
    l.isContinued = false

variable {source text : Bytes} {statements others : List Statement}

/-- A line that is too long is so behind any source. -/
theorem readAll_append_error {e : ReadError} (h : Line.Ended source)
    (htext : readAll text = .error e) :
    readAll (source ++ text) = .error e := by
  rw [readAll_eq, Line.ofSource_eq] at htext ⊢
  rw [Line.pieces_append h, List.any_append]
  split at htext
  · rename_i hlong
    rw [hlong, Bool.or_true, if_pos rfl]
    exact htext
  · simp [Except.map] at htext

/-- **A text behind a complete source** is read by itself, but for its
positions. -/
theorem readAll_append (h : Complete source)
    (hread : readAll source = .ok statements)
    (htext : readAll text = .ok others) :
    ∃ behind, readAll (source ++ text) = .ok (statements ++ behind) ∧
      List.Forall₂ Twin others behind := by
  obtain ⟨lines, hlines, hclosed⟩ := h.closed
  rw [readAll_eq, Line.ofSource_eq] at hread htext ⊢
  rw [Line.ofSource_eq] at hlines
  split at hread
  · simp [Except.map] at hread
  rename_i hshort
  split at htext
  · simp [Except.map] at htext
  rename_i hshort'
  obtain rfl := Except.ok.inj hread
  obtain rfl := Except.ok.inj htext
  rw [if_neg hshort] at hlines
  obtain rfl := Except.ok.inj hlines
  obtain ⟨m, start, henumerate⟩ :=
    Line.enumerate_append (Line.pieces source) (Line.pieces text) 1 0
  refine ⟨ofSourceLines (Line.enumerate m start (Line.pieces text)), ?_,
    twins_of_sameColumns (Line.enumerate_sameColumns _ _ _ _ _)⟩
  rw [Line.pieces_append h.ended, List.any_append,
    if_neg (by simp [hshort, hshort']), henumerate]
  simp only [Except.map, ofSourceLines]
  rw [Line.group_append hclosed, List.filterMap_append]

/-! ### Faults -/

/-- **A fault of an operand field is severe**, and a comment has none. -/
theorem faults_ofLines (first : Line) (rest : List Line) :
    (∀ d ∈ (ofLines first rest).faults, d.severity = .severe) ∧
      ((ofLines first rest).isComment = true →
        (ofLines first rest).faults = []) := by
  have hsplit : ∀ s : Statement, s.faults = [] → s.isComment = false →
      (∀ d ∈ s.splitOperands.faults, d.severity = .severe) ∧
        s.splitOperands.isComment = false := by
    intro s hfaults hcomment
    unfold splitOperands
    split
    · exact ⟨by simp [hfaults], hcomment⟩
    · exact ⟨List.forall_mem_singleton.mpr rfl, hcomment⟩
    · exact ⟨List.forall_mem_singleton.mpr rfl, hcomment⟩
  have hfield : ∀ (s : Statement) (segments : List Segment),
      s.faults = [] → s.isComment = false →
      (∀ d ∈ (s.withOperand segments).faults, d.severity = .severe) ∧
        (s.withOperand segments).isComment = false := by
    intro s segments hfaults hcomment
    unfold withOperand
    split
    · exact ⟨by simp [hfaults], hcomment⟩
    · split
      · exact ⟨by simp [hfaults], hcomment⟩
      · simp only
        split
        · exact ⟨List.forall_mem_singleton.mpr rfl, hcomment⟩
        · exact hsplit _ hfaults hcomment
  unfold ofLines
  simp only
  split
  · simp
  · split
    · simp
    · exact ⟨(hfield _ _ rfl rfl).1, fun h =>
          absurd ((hfield _ _ rfl rfl).2.symm.trans h) Bool.false_ne_true⟩

/-- Faults of reading are severe, and comments have none. -/
theorem faults_readAll (hread : readAll source = .ok statements) :
    ∀ s ∈ statements,
    (∀ d ∈ s.faults, d.severity = .severe) ∧
      (s.isComment = true → s.faults = []) := by
  rw [readAll_eq] at hread
  cases hlines : Line.ofSource source with
  | error e => simp [hlines, Except.map] at hread
  | ok lines =>
      rw [hlines] at hread
      obtain rfl := Except.ok.inj hread
      intro s hs
      obtain ⟨g, -, hg⟩ := List.mem_filterMap.mp hs
      cases g with
      | nil => simp [ofGroup?] at hg
      | cons first rest =>
          obtain rfl := Option.some.inj hg
          exact faults_ofLines first rest

end Statement

end System370
