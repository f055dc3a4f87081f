import System370.Proofs.OperandPlaces
import System370.Proofs.SectionAddresses
import System370.CommandLine
import System370.SymbolMap

/-!
# Offsets in a source

A cursor has the offset of the line that it names and the offset of an octet of
that line.  Both are short by the number of lines in front that end with a
carriage return (`Cursor.Falls`), so that they are right if there are none, and
wrong otherwise.

The cursors of all problems that an assembly reports are cursors of statements,
so they fall in the same way (`Program.alike_self`).  The only exceptions are
the cursors without an offset, those of the end statement that is supplied where
the source has none.

* `Statement.InSource.falls` is about the cursors of one statement;
* `source_offsets` is about all statements of a source, its symbol map and what
  is reported.
-/

namespace System370

/-- A cursor that names a line of a source.  Its offsets are those of that line,
short by one for each line in front of it that ends with a carriage return. -/
structure Cursor.Falls (source : Bytes) (c : Cursor) : Prop where
  named : 0 < c.line ∧ c.line ≤ (Line.pieces source).length
  lineByte : c.lineByte + Line.returns source (c.line - 1) =
    Line.offset source (c.line - 1)
  byte : c.byte = c.lineByte + (c.column - 1)

/-- A cursor without an offset. -/
def Cursor.Blind (c : Cursor) : Prop := c.lineByte = 0 ∧ c.byte = c.column - 1

variable {source : Bytes}

namespace Line

/-- What stands in a source behind the offset of a line is that line. -/
theorem source_offset {k : Nat} {piece : Bytes}
    (h : (pieces source)[k]? = some piece) {j : Nat} (hj : j < piece.length) :
    source[offset source k + j]? = piece[j]? :=
  (cuts_pieces source).getElem?_source h hj

theorem Located.falls {l : Line} (h : l.Located source) {c : Cursor}
    (hline : c.line = l.number) (hlineByte : c.lineByte = l.start)
    (hbyte : c.byte = c.lineByte + (c.column - 1)) :
    c.Falls source where
  named := by
    obtain ⟨piece, hpiece, -⟩ := Option.map_eq_some_iff.mp h.raw
    obtain ⟨hlt, -⟩ := List.getElem?_eq_some_iff.mp hpiece
    have hpos := h.number
    omega
  lineByte := by
    rw [hline, hlineByte]
    exact h.start
  byte := hbyte

/-- The line of a source at the offset of a line is that line without the
carriage returns at its end. -/
theorem lineAt_offset {k : Nat} {piece : Bytes}
    (h : (pieces source)[k]? = some piece) :
    CommandLine.lineAt source (offset source k) = trimmed piece := by
  have hcuts := cuts_pieces source
  obtain ⟨rest, hsource, hrest⟩ := hcuts.source_eq h
  have hunbroken : ∀ c ∈ piece, c ≠ 0x0A := fun c hc heq =>
    hcuts.unbroken piece (List.mem_of_getElem? h)
      (by rwa [show feed = c from heq.symm])
  have htail : rest.takeWhile (· ≠ 0x0A) = [] := by
    cases rest with
    | nil => rfl
    | cons c others => simp [show c = 0x0A from hrest c rfl]
  have htaken : (piece ++ rest).takeWhile (· ≠ 0x0A) = piece := by
    rw [List.takeWhile_append_of_pos fun c hc =>
      decide_eq_true (hunbroken c hc), htail, List.append_nil]
  have hdrop : source.drop (offset source k) = piece ++ rest := by
    conv => lhs; arg 2; rw [hsource]
    exact List.drop_left
  unfold CommandLine.lineAt
  rw [hdrop, htaken]
  unfold trimmed Bytes.dropRightWhile
  congr 1
  have hreverse : ∀ c ∈ piece.reverse, c ≠ 0x0A :=
    fun c hc => hunbroken c (List.mem_reverse.mp hc)
  generalize piece.reverse = octets at hreverse
  induction octets with
  | nil => rfl
  | cons c others ih =>
      have hc : c ≠ 0x0A := hreverse c List.mem_cons_self
      have hothers := ih fun c hc => hreverse c (List.mem_cons_of_mem _ hc)
      by_cases hreturn : c = 0x0D
      · simp only [List.dropWhile_cons, hreturn, carriage, decide_true,
          Bool.true_or, if_true]
        exact hothers
      · simp [hreturn, hc, carriage]

end Line

/-! ### The cursors of a statement -/

namespace OperandField

/-- The span that is found is one of them, or the first. -/
theorem holding_mem (o : Nat) (found : Span) (spans : List Span) :
    holding o found spans ∈ found :: spans := by
  induction spans generalizing found with
  | nil => exact List.mem_singleton.mpr rfl
  | cons span rest ih =>
      simp only [holding, List.foldl_cons]
      have hmem := ih (if span.start ≤ o then span else found)
      unfold holding at hmem
      rcases List.mem_cons.mp hmem with heq | hmem
      · rw [heq]
        split <;> simp
      · exact List.mem_cons_of_mem _ (List.mem_cons_of_mem _ hmem)

/-- The spans of a field bear the lines of its segments. -/
theorem spans_scan {lines : List Line} (before : Bytes) (state : Scan.Quoting)
    (skip : Bool) {segments : List Segment}
    (h : ∀ s ∈ segments, ∃ l ∈ lines, s.Shows l) :
    ∀ span ∈ (scan before state skip segments).spans, ∃ l ∈ lines,
      span.line = l.number ∧ span.lineByte = l.start := by
  induction segments generalizing before state skip with
  | nil => exact fun span hspan => absurd hspan List.not_mem_nil
  | cons s rest ih =>
      obtain ⟨l, hl, hs⟩ := h s List.mem_cons_self
      have hfirst : ∃ l ∈ lines,
          (if skip then s.skipBlanks else s).line = l.number ∧
          (if skip then s.skipBlanks else s).lineByte = l.start := by
        refine ⟨l, hl, ?_⟩
        split
        · exact ⟨hs.line, hs.lineByte⟩
        · exact ⟨hs.line, hs.lineByte⟩
      intro span hspan
      simp only [scan] at hspan
      generalize (if skip then s.skipBlanks else s) = t at hfirst hspan
      split at hspan
      · rcases List.mem_cons.mp hspan with rfl | hspan
        · exact hfirst
        · exact ih _ _ _
            (fun s hs => h s (List.mem_cons_of_mem _ hs)) span hspan
      · rw [List.mem_singleton.mp hspan]
        exact hfirst

end OperandField

namespace Statement

variable {s : Statement} {g : List Line}

/-- A fault of an operand field is at a place of that field. -/
theorem faults_withOperand (h : s.faults = []) (segments : List Segment) :
    ∀ d ∈ (s.withOperand segments).faults,
      ∃ o size, d.cursor = (s.withOperand segments).cursorAt o size := by
  have hsplit : ∀ s : Statement, s.faults = [] → ∀ d ∈ s.splitOperands.faults,
      ∃ o size, d.cursor = s.splitOperands.cursorAt o size := by
    intro s hs d hd
    unfold splitOperands at hd ⊢
    split at hd
    · simp [hs] at hd
    · rw [List.mem_singleton.mp hd]
      exact ⟨_, _, rfl⟩
    · rw [List.mem_singleton.mp hd]
      exact ⟨_, _, rfl⟩
  unfold withOperand
  split
  · simp [h]
  · split
    · simp [h]
    · simp only
      split
      · intro d hd
        rw [List.mem_singleton.mp hd]
        exact ⟨_, _, rfl⟩
      · exact hsplit _ h

/-- The spans of a statement bear its lines. -/
theorem Holds.spans (h : s.Holds g) :
    ∀ span ∈ s.spans, ∃ l ∈ g, span.line = l.number ∧
      span.lineByte = l.start := by
  obtain ⟨first, rest, rfl, rfl⟩ := h
  rcases ofLines_field first rest with
    hbare | ⟨bare, column, hbare, hcolumn, hfield⟩
  · simp [hbare.spans]
  · rw [hfield]
    have hscan := OperandField.spans_scan [] .outside false
      (shows_fieldSegments first hcolumn rest)
    unfold withOperand
    split
    · simp [hbare.spans]
    · split
      · simp [hbare.spans]
      · simp only
        split
        · exact hscan
        · unfold splitOperands
          split <;> exact hscan

/-- The faults of a statement are at octets of its field. -/
theorem Holds.faults (h : s.Holds g) : ∀ d ∈ s.faults, ∃ o size,
    d.cursor = s.cursorAt o size := by
  obtain ⟨first, rest, rfl, rfl⟩ := h
  rcases ofLines_field first rest with
    hbare | ⟨bare, column, hbare, hcolumn, hfield⟩
  · simp [hbare.faults]
  · rw [hfield]
    exact faults_withOperand hbare.faults _

/-- All cursors of a statement that something may be reported at. -/
structure Within (s : Statement) (Q : Cursor → Prop) : Prop where
  position : Q s.position
  label : Q s.labelCursor
  labelChar : ∀ i, Q (s.labelCharCursor i)
  mnemonic : Q s.mnemonicCursor
  octet : ∀ o size, Q (s.cursorAt o size)
  faults : ∀ d ∈ s.faults, Q d.cursor

/-- Cursors of which more is known. -/
theorem Within.imp {Q Q' : Cursor → Prop} (h : s.Within Q)
    (hQ : ∀ c, Q c → Q' c) : s.Within Q' where
  position := hQ _ h.position
  label := hQ _ h.label
  labelChar := fun i => hQ _ (h.labelChar i)
  mnemonic := hQ _ h.mnemonic
  octet := fun o size => hQ _ (h.octet o size)
  faults := fun d hd => hQ _ (h.faults d hd)

theorem Within.trivial : s.Within fun _ => True :=
  ⟨True.intro, True.intro, fun _ => True.intro, True.intro,
    fun _ _ => True.intro, fun _ _ => True.intro⟩

/-- The cursor of an operand is one of its statement. -/
theorem Within.operand {Q : Cursor → Prop} (h : s.Within Q) (i : Nat) :
    Q (s.operandCursor i) := by
  unfold operandCursor
  split
  · exact h.octet _ _
  · exact h.octet _ _

theorem Within.operands {Q : Cursor → Prop} (h : s.Within Q) :
    Q s.operandsCursor := by
  unfold operandsCursor
  split
  · exact h.mnemonic
  · exact h.octet _ _

/-- **The cursors of a statement** of a source are short by the carriage returns
in front of the lines that they name. -/
theorem InSource.falls {before : Nat} (h : s.InSource source before g) :
    s.Within (Cursor.Falls source) := by
  obtain ⟨first, rest, hg, hs⟩ := h.holds
  have hfirst : first.Located source := (h.numbered 0 first (by rw [hg]; rfl)).2
  obtain ⟨hline, -, hposition⟩ := ofLines_frame first rest
  rw [← hs] at hline hposition
  -- the label and the mnemonic are on the first line
  have hhead : ∀ c : Cursor,
      c.line = s.line → c.lineByte = s.position.lineByte →
      c.byte = c.lineByte + (c.column - 1) → c.Falls source :=
    fun c hc hlineByte hbyte =>
    hfirst.falls (hc.trans hline) (by rw [hlineByte, hposition]) hbyte
  have hmnemonic : s.mnemonicCursor.Falls source := hhead _ rfl rfl rfl
  have hoctet : ∀ o size, (s.cursorAt o size).Falls source := by
    intro o size
    have hspans := h.holds.spans
    unfold cursorAt
    split
    · exact hmnemonic
    · rename_i span others hcons
      rw [hcons] at hspans
      obtain ⟨l, hl, hnumber, hstart⟩ :=
        hspans _ (OperandField.holding_mem o span others)
      obtain ⟨i, hi⟩ := List.getElem?_of_mem hl
      exact (h.numbered i l hi).2.falls hnumber hstart rfl
  refine ⟨hhead _ ?_ rfl ?_, hhead _ rfl rfl rfl, fun i => hhead _ rfl rfl rfl,
    hmnemonic, hoctet, fun d hd => ?_⟩
  · rw [hposition, hline]
  · rw [hposition]
    rfl
  · obtain ⟨o, size, hcursor⟩ := h.holds.faults d hd
    rw [hcursor]
    exact hoctet o size

end Statement

/-! ### What is made of statements -/

section Comparison

variable {c : Comparison} {statements : List Statement}

namespace Layout

variable {l : Layout}

/-- What a comparison says of statements themselves it says of the records made
of them. -/
theorem matched_run (hc : c.Whole) (h : l.Alike c l)
    (hs : ∀ s ∈ statements, c.statements s s) :
    Matched c (l.run statements) (l.run statements) := by
  induction statements generalizing l with
  | nil => exact ⟨h, .nil⟩
  | cons s rest ih =>
      have hfirst := h.step hc (hs s List.mem_cons_self)
      have hrest :=
        ih hfirst.layout fun s hs' => hs s (List.mem_cons_of_mem _ hs')
      exact ⟨hrest.layout, List.rel_append hfirst.records hrest.records⟩

/-- An `END` that is supplied has a cursor of its own. -/
theorem matched_supplyEnd (hc : c.Whole) (h : l.Alike c l)
    (hs : ∀ s ∈ statements, c.statements s s)
    (hend : ∀ line, c.statements (suppliedEnd line) (suppliedEnd line)) :
    Matched c (l.supplyEnd statements) (l.supplyEnd statements) := by
  have hsupplied : ∀ (cursor : Cursor) (line : Nat), c.cursors cursor cursor →
      Matched c ((l.report ⟨cursor, .missingEnd⟩).step (suppliedEnd line))
        ((l.report ⟨cursor, .missingEnd⟩).step (suppliedEnd line)) := by
    intro cursor line hcursor
    have hreported : (l.report ⟨cursor, .missingEnd⟩).Alike c
        (l.report ⟨cursor, .missingEnd⟩) :=
      { h with diagnostics := c.report h.diagnostics hcursor rfl }
    exact hreported.step hc (hend line)
  unfold Layout.supplyEnd
  split
  · exact ⟨h, .nil⟩
  · cases hlast : statements.getLast? with
    | none => exact hsupplied _ _ (c.lineCursor (n := 1) rfl)
    | some last =>
        exact hsupplied _ _ (hc.position (hs last (List.mem_of_getLast? hlast)))

end Layout

/-- **A program compared with itself**: what a comparison says of its
statements, it says of its records and its diagnostics. -/
theorem Program.alike_self (options : Options)
    (hc : c.Whole) (hs : ∀ s ∈ statements, c.statements s s)
    (hend : ∀ line,
      c.statements (Layout.suppliedEnd line) (Layout.suppliedEnd line))
    (hnone : c.diagnostics [] []) (hunmarked : c.marks false false) :
    (ofStatements options statements).Alike c
      (ofStatements options statements) ∧
      ∀ r ∈ (ofStatements options statements).records,
      c.statements r.statement r.statement := by
  have hnew : (Layout.new options).Alike c (Layout.new options) :=
    ⟨rfl, rfl, hnone, rfl, .nil, rfl, rfl, hunmarked, rfl⟩
  have hrun := Layout.matched_run hc hnew hs
  have hsupplied := Layout.matched_supplyEnd hc hrun.layout hs hend
  have hrecords := List.rel_append hrun.records hsupplied.records
  have hsettling : Layout.Settling c (fun _ => False) (Record.Alike c) :=
    ⟨False.elim, Layout.isWaiting_alike, fun h _ => h, fun h => h⟩
  have hcount :=
    Nat.lt_succ_of_le (List.countP_le_length (p := Layout.isWaiting)
      (l := ((Layout.new options).run statements).2 ++
        (((Layout.new options).run statements).1.supplyEnd statements).2))
  obtain ⟨hlayout, hsettled⟩ :=
    hsettling.settleAll hsupplied.layout (.of_forall₂ hrecords) hcount hcount
  have hunplaced :
      (unplaced options statements).Alike c (unplaced options statements) :=
    ⟨hlayout, .of_forall₂ (hsettled.forall₂ fun _ => id)⟩
  refine ⟨hunplaced.normalize, fun r hr => ?_⟩
  obtain ⟨r', hr', rfl⟩ := List.mem_map.mp hr
  exact (List.forall₂_same.mp (hsettled.forall₂ fun _ => id) r' hr').statement

end Comparison

/-- Statements of which all cursors are in a class, and what is reported at
cursors of that class.  It contains the cursors without an offset. -/
def Comparison.within (Q : Cursor → Prop)
    (hblind : ∀ x : Cursor, x.Blind → Q x) (Given : Statement → Prop)
    (hgiven : ∀ {s : Statement}, Given s → s.Within Q) : Comparison where
  line := id
  cursors := fun x x' => x' = x ∧ Q x
  statements := fun s s' => s' = s ∧ Given s
  diagnostics := fun ds _ => ∀ d ∈ ds, Q d.cursor
  marks := fun b b' => b' = b
  label := fun h => by rw [h.1]
  mnemonic := fun h => by rw [h.1]
  operands := fun h => by rw [h.1]
  lines := fun h => by rw [h.1]
  labelCursor := fun h => ⟨by rw [h.1], (hgiven h.2).label⟩
  labelCharCursor := fun h i => ⟨by rw [h.1], (hgiven h.2).labelChar i⟩
  mnemonicCursor := fun h => ⟨by rw [h.1], (hgiven h.2).mnemonic⟩
  operandCursor := fun h i => ⟨by rw [h.1], (hgiven h.2).operand i⟩
  operandsCursor := fun h => ⟨by rw [h.1], (hgiven h.2).operands⟩
  lineCursor := by
    rintro n n' h
    rw [show n' = n from h]
    exact ⟨rfl, hblind _ ⟨rfl, rfl⟩⟩
  report := by
    intro ds ds' x x' p p' hds hx _
    exact List.forall_mem_append.mpr ⟨hds, List.forall_mem_singleton.mpr hx.2⟩

theorem Comparison.whole_within (Q : Cursor → Prop)
    (hblind : ∀ x : Cursor, x.Blind → Q x) (Given : Statement → Prop)
    (hgiven : ∀ {s : Statement}, Given s → s.Within Q) :
    (within Q hblind Given hgiven).Whole where
  isComment := fun h => by rw [h.1]
  position := fun h => ⟨by rw [h.1], (hgiven h.2).position⟩
  faults := fun h hds => List.forall_mem_append.mpr ⟨hds, (hgiven h.2).faults⟩
  serious := fun h => by rw [h.1]
  marks := fun h => h
  marked := rfl

/-- The cursors of the end statement that is supplied have no offset. -/
theorem Layout.within_suppliedEnd (line : Nat) :
    (suppliedEnd line).Within Cursor.Blind where
  position := ⟨rfl, rfl⟩
  label := ⟨rfl, rfl⟩
  labelChar := fun i => ⟨rfl, Nat.zero_add i⟩
  mnemonic := ⟨rfl, rfl⟩
  octet := fun _ _ => ⟨rfl, rfl⟩
  faults := fun _ hd => absurd hd List.not_mem_nil

namespace SymbolMap

/-- Keeping the first entry of each address keeps nothing else, and no address
is lost. -/
theorem firstOnly_spec (lines : List (Int64 × Nat)) :
    (∀ x ∈ firstOnly lines, x ∈ lines) ∧
    ∀ x ∈ lines, ∃ y ∈ firstOnly lines, y.1 = x.1 := by
  induction lines using List.reverseRecOn with
  | nil => exact ⟨fun _ hx => hx, fun _ hx => absurd hx List.not_mem_nil⟩
  | append_singleton lines last ih =>
      obtain ⟨hsubset, hcovers⟩ := ih
      have hlast : firstOnly (lines ++ [last]) =
          if (firstOnly lines).any (·.1 = last.1)
          then firstOnly lines else firstOnly lines ++ [last] := by
        unfold firstOnly
        rw [List.foldl_append]
        rfl
      rw [hlast]
      split
      · rename_i hknown
        obtain ⟨y, hy, hsame⟩ := List.any_eq_true.mp hknown
        refine ⟨fun x hx => List.mem_append_left _ (hsubset x hx),
          fun x hx => ?_⟩
        rcases List.mem_append.mp hx with hx | hx
        · exact hcovers x hx
        · rw [List.mem_singleton.mp hx]
          exact ⟨y, hy, of_decide_eq_true hsame⟩
      · refine ⟨fun x hx => ?_, fun x hx => ?_⟩
        · rcases List.mem_append.mp hx with hx | hx
          · exact List.mem_append_left _ (hsubset x hx)
          · exact List.mem_append_right _ hx
        · rcases List.mem_append.mp hx with hx | hx
          · obtain ⟨y, hy, hsame⟩ := hcovers x hx
            exact ⟨y, List.mem_append_left _ hy, hsame⟩
          · exact ⟨x, List.mem_append_right _ hx, rfl⟩

/-- The lines of a symbol map are those of records, one for each of their
addresses. -/
theorem lines_spec (a : Assembly) (name : Bytes) :
    (∀ entry ∈ (ofAssembly a name).lines, ∃ r ∈ a.records,
      lineOf? r = some entry) ∧
      ∀ r ∈ a.records, ∀ entry, lineOf? r = some entry →
        ∃ first ∈ (ofAssembly a name).lines, first.1 = entry.1 := by
  obtain ⟨hsubset, hcovers⟩ := firstOnly_spec (a.records.filterMap lineOf?)
  refine ⟨fun entry hentry => ?_, fun r hr entry hentry => ?_⟩
  · exact List.mem_filterMap.mp
      (hsubset entry ((sortByKey_perm _ _).mem_iff.mp hentry))
  · obtain ⟨first, hfirst, haddress⟩ :=
      hcovers entry (List.mem_filterMap.mpr ⟨r, hr, hentry⟩)
    exact ⟨first, (sortByKey_perm _ _).mem_iff.mpr hfirst, haddress⟩

end SymbolMap

/-! ### The assembly of a source -/

namespace Assembly

variable {options : Options} {today : Bytes} {statements : List Statement}
  {a : Assembly}

/-- What an assembly reports is at cursors of its statements, or at those of the
end statement. -/
theorem cursors_diagnostics (ha : assemble options source today = .ok a)
    (hread : Statement.readAll source = .ok statements)
    {Q : Cursor → Prop} (hblind : ∀ x : Cursor, x.Blind → Q x)
    (hwithin : ∀ s ∈ statements, s.Within Q) :
    ∀ d ∈ a.diagnostics, Q d.cursor := by
  intro d hd
  obtain ⟨halike, -⟩ := Program.alike_self options
    (Comparison.whole_within Q hblind (fun s => s.Within Q) id)
      (fun s hs => ⟨rfl, hwithin s hs⟩)
    (fun line => ⟨rfl, (Layout.within_suppliedEnd line).imp hblind⟩)
    (fun _ hd => absurd hd List.not_mem_nil) rfl
  have houtcome := assemble_alike today hread hread halike
  rw [ha] at houtcome
  cases houtcome with
  | ok hsame =>
      obtain ⟨ds, _, hds, hperm, _⟩ := hsame.diagnostics
      exact hds d (hperm.mem_iff.mp hd)

/-- The records of an assembly are made of its statements, or of the end
statement. -/
theorem statements_records (ha : assemble options source today = .ok a)
    (hread : Statement.readAll source = .ok statements) :
    ∀ r ∈ a.records, r.statement ∈ statements ∨ ∃ line,
    r.statement = Layout.suppliedEnd line := by
  intro r hr
  let Given : Statement → Prop := fun s => s ∈ statements ∨ ∃ line,
    s = Layout.suppliedEnd line
  obtain ⟨-, hrecords⟩ := @Program.alike_self _ statements options
    (Comparison.whole_within (fun _ => True) (fun _ _ => trivial) Given
      fun _ => .trivial)
    (fun s hs => ⟨rfl, Or.inl hs⟩) (fun line => ⟨rfl, Or.inr ⟨line, rfl⟩⟩)
      (fun _ _ => trivial) rfl
  have hmade := (Assembly.of_assemble ha hread).2
  -- the generation leaves the statements of its records alone
  have hsame := Generation.statements_run
    (Generation.new (Program.ofStatements options statements))
    fun r hr => (Program.settled_ofStatements options statements r hr).ready
  have hmem : (r.directive, r.statement) ∈
      (Program.ofStatements options statements).records.map fun r =>
        (r.directive, r.statement) := by
    rw [← hsame]
    exact List.mem_map.mpr ⟨r, hmade.records ▸ hr, rfl⟩
  obtain ⟨r', hr', heq⟩ := List.mem_map.mp hmem
  rw [← (Prod.mk.inj heq).2]
  exact (hrecords r' hr').2

end Assembly

namespace Statement

variable {s : Statement} {g : List Line}

/-- The octet that an operand of a source begins with, counted from the offset
of its line. -/
theorem InSource.octet {before : Nat} (h : s.InSource source before g) {i : Nat}
    {operand : Bytes} (hi : s.operands[i]? = some operand)
    (hne : operand ≠ []) :
    (source[(s.operandCursor i).byte +
      Line.returns source ((s.operandCursor i).line - 1)]?).map
      (fun c => if c = 0x09 then blank else c) = operand.head? := by
  obtain ⟨l, hl, hshows⟩ := h.holds.operandCursor hi hne
  have hfalls := h.falls.operand i
  generalize s.operandCursor i = c at hshows hfalls
  obtain ⟨k, hk⟩ := List.getElem?_of_mem hl
  obtain ⟨piece, hpiece, htrimmed⟩ :=
    Option.map_eq_some_iff.mp (h.numbered k l hk).2.raw
  obtain ⟨head, hhead⟩ : ∃ head, operand.head? = some head :=
    Option.ne_none_iff_exists'.mp (by simpa using hne)
  have hoctet := hshows.octet
  rw [hhead, Line.blanked, List.getElem?_map] at hoctet
  obtain ⟨octet, hraw, hblanked⟩ := Option.map_eq_some_iff.mp hoctet
  obtain ⟨hlt, -⟩ := List.getElem?_eq_some_iff.mp hraw
  obtain ⟨rest, hpiece'⟩ : l.raw <+: piece :=
    htrimmed ▸ Line.trimmed_prefix piece
  have hindex : c.byte + Line.returns source (c.line - 1) =
      Line.offset source (c.line - 1) + (c.column - 1) := by
    rw [hfalls.byte, ← hfalls.lineByte]
    omega
  rw [← hshows.line, ← hpiece'] at hpiece
  have hinside : c.column - 1 < (l.raw ++ rest).length := by
    rw [List.length_append]
    omega
  rw [hindex, Line.source_offset hpiece hinside, List.getElem?_append_left hlt,
    hraw, hhead, Option.map_some, hblanked]

/-- Every statement of a source is in it. -/
theorem exists_inSource {statements : List Statement}
    (hread : readAll source = .ok statements) (hs : s ∈ statements) :
    ∃ before g, s.InSource source before g := by
  obtain ⟨front, after, rfl⟩ := List.append_of_mem hs
  obtain ⟨g, hg⟩ := (readAll_lines hread).2 front s after rfl
  exact ⟨_, g, hg⟩

end Statement

/-- The line that a cursor names, where the source is looked at behind the
carriage returns that were not counted. -/
theorem Cursor.Falls.lineAt {c : Cursor} (h : c.Falls source) : ∃ piece,
    (Line.pieces source)[c.line - 1]? = some piece ∧
      CommandLine.lineAt source
        (c.lineByte + Line.returns source (c.line - 1)) =
        Line.trimmed piece := by
  have hnamed := h.named
  have hlt : c.line - 1 < (Line.pieces source).length := by omega
  refine ⟨_, List.getElem?_eq_getElem hlt, ?_⟩
  rw [h.lineByte]
  exact Line.lineAt_offset (List.getElem?_eq_getElem hlt)

/-- **Offsets in a source** whose lines are not too long.  The offsets of the
cursors of its statements, and of what is reported about them, are those of the
lines and octets that they name, but for the carriage returns at the ends of the
lines in front, which are not counted.  They are exact if there are none.  The
symbol map has, for every address where records generated code, the offset of
the line of one of them.  The end statement that is supplied has no offset. -/
theorem source_offsets (source : Bytes)
    (h : ∀ l ∈ Line.pieces source, l.length ≤ Line.maxLength) :
    ∃ statements, Statement.readAll source = .ok statements ∧
      (∀ s ∈ statements,
        s.Within (Cursor.Falls source) ∧ s.position.line = s.line ∧
        s.position.column = 1 ∧ ∀ i operand,
        s.operands[i]? = some operand → operand ≠ [] →
          (source[(s.operandCursor i).byte +
            Line.returns source ((s.operandCursor i).line - 1)]?).map
              (fun c => if c = 0x09 then blank else c) = operand.head?) ∧
      ∀ options today a, assemble options source today = .ok a →
        (∀ r ∈ a.records, r.statement ∈ statements ∨
          ∃ line, r.statement = Layout.suppliedEnd line) ∧
        (∀ name, (∀ entry ∈ (SymbolMap.ofAssembly a name).lines,
            ∃ r ∈ a.records, SymbolMap.lineOf? r = some entry) ∧
          ∀ r ∈ a.records, ∀ entry, SymbolMap.lineOf? r = some entry →
            ∃ first ∈ (SymbolMap.ofAssembly a name).lines, first.1 = entry.1) ∧
        ∀ d ∈ a.diagnostics, d.cursor.Blind ∨ d.cursor.Falls source ∧
          ∃ piece, (Line.pieces source)[d.cursor.line - 1]? = some piece ∧
            CommandLine.lineAt source
              (d.cursor.lineByte + Line.returns source (d.cursor.line - 1)) =
                Line.trimmed piece := by
  have hread :=
    Statement.readAll_of_lines (Line.ofSource_eq_ok_iff.mpr ⟨h, rfl⟩)
  generalize Statement.ofSourceLines (Line.enumerate 1 0 (Line.pieces source)) =
    statements at hread
  have hfalls : ∀ s ∈ statements, s.Within (Cursor.Falls source) := fun s hs =>
    (Statement.exists_inSource hread hs).choose_spec.choose_spec.falls
  refine ⟨statements, hread, fun s hs => ⟨hfalls s hs, ?_⟩,
    fun options today a ha => ?_⟩
  · obtain ⟨before, g, hin⟩ := Statement.exists_inSource hread hs
    obtain ⟨first, rest, -, rfl⟩ := hin.holds
    obtain ⟨hline, -, hposition⟩ := Statement.ofLines_frame first rest
    exact ⟨by rw [hposition, hline], by rw [hposition],
      fun i operand => hin.octet⟩
  · have hreported := Assembly.cursors_diagnostics ha hread
      (Q := fun c => c.Blind ∨ c.Falls source)
      (fun _ => Or.inl) fun s hs => (hfalls s hs).imp fun _ => Or.inr
    exact ⟨Assembly.statements_records ha hread, SymbolMap.lines_spec a,
      fun d hd => (hreported d hd).imp id fun hd => ⟨hd, hd.lineAt⟩⟩

/-- A source with carriage returns: the second line begins at 9, its cursors and
the symbol map say that it begins at 8. -/
theorem source_offsets_returns :
    ∃ source statements a, Statement.readAll source = .ok statements ∧
    assemble {} source = .ok a ∧ Line.offset source 1 = 9 ∧
      Line.returns source 1 = 1 ∧
    (∀ s ∈ statements, s.Within (Cursor.Falls source)) ∧
    (∀ s ∈ statements, s.line = 2 → s.position.lineByte = 8) ∧
    statements.map (·.line) = [1, 2, 3] ∧
    (SymbolMap.ofAssembly a []).lines = [(0, 8)] ∧
    ∀ d ∈ a.diagnostics, d.cursor.Blind ∨ d.cursor.Falls source := by
  obtain ⟨statements, hread, hstatements, hassembly⟩ := source_offsets
    (bytes "A CSECT\r\n LR 1,2\r\n END\r\n") (by decide +kernel)
  have hlines :
      ((Statement.readAll (bytes "A CSECT\r\n LR 1,2\r\n END\r\n")).toOption.any
      fun statements => decide (statements.map (·.line) = [1, 2, 3])) =
        true := by
    decide +kernel
  have hcheck :
      (assemble {} (bytes "A CSECT\r\n LR 1,2\r\n END\r\n")).toOption.any
      (fun a => decide ((SymbolMap.ofAssembly a []).lines = [(0, 8)])) =
        true := by
    decide +kernel
  obtain ⟨a, ha, hmap⟩ := exists_ok_of_any hcheck
  rw [hread] at hlines
  have hreturns : Line.returns (bytes "A CSECT\r\n LR 1,2\r\n END\r\n") 1 =
      1 := by
    decide +kernel
  have hoffset : Line.offset (bytes "A CSECT\r\n LR 1,2\r\n END\r\n") 1 =
      9 := by
    decide +kernel
  refine ⟨_, statements, a, hread, ha, hoffset, hreturns,
    fun s hs => (hstatements s hs).1,
    fun s hs hline => ?_, of_decide_eq_true hlines, of_decide_eq_true hmap,
    fun d hd => ((hassembly {} [] a ha).2.2 d hd).imp id (·.1)⟩
  obtain ⟨hwithin, hposition, -⟩ := hstatements s hs
  have hfalls := hwithin.position.lineByte
  rw [hposition, hline, hreturns, hoffset] at hfalls
  omega

end System370
