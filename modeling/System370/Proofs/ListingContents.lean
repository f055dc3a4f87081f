import System370.Proofs.EmissionGate
import System370.Proofs.ListingRows
import System370.Proofs.ProgramRecords
import System370.Proofs.Sorting

/-!
# What a listing shows

The part of a listing that shows the program is a list of entries, one for each
line of it.  Who prints the diagnostics of a line is decided by the lines that
were printed before.  The statements of a program stand on lines one behind the
other, and all records but the pools of the end statement belong to one
statement each.  So no line is ever met twice, and the entries of a record
depend on how many numbers are in front of it and on nothing else
(`Listing.programLines_eq`).

* `Listing.Complete`: every line of the source, every diagnostic and every
  literal is there once, the numbers count from one, and a record shows all of
  its code;
* `Workspace.listing_complete`: the listing of an assembly is complete.
-/

namespace System370

namespace Statement

/-- The numbers of the lines of a statement. -/
def lineNumbers (s : Statement) : List Nat := List.range' s.line s.lines.length

/-- Whether a diagnostic is about a line of a statement. -/
def owns (s : Statement) (d : Diagnostic) : Bool :=
  decide (d.cursor.line ∈ s.lineNumbers)

/-- The lines of a statement and, behind them, what is wrong with them. -/
def remarks (s : Statement) (diagnostics : List Diagnostic) :
    List (Bytes ⊕ Diagnostic) :=
  s.lines.map .inl ++ (diagnostics.filter s.owns).map .inr

/-- A statement has the numbers of its lines, from its first on. -/
theorem mem_lineNumbers_iff {s : Statement} {line : Nat} :
    line ∈ s.lineNumbers ↔ s.line ≤ line ∧ line < s.line + s.lines.length := by
  rw [lineNumbers, List.mem_range'_1]

/-- The lines of a statement behind lines that were printed, and the lines
printed with them. -/
theorem fresh_lineNumbers {s : Statement} {n : Nat} {printed : List Nat}
    (hline : s.line = n + 1) (hprinted : ∀ line ∈ printed, line ≤ n) :
    (∀ line ∈ s.lineNumbers, line ∉ printed) ∧
      ∀ line ∈ s.lineNumbers.reverse ++ printed, line ≤ n + s.lines.length := by
  refine ⟨fun line hin hbefore => ?_, fun line hin => ?_⟩
  · have := hprinted line hbefore
    rw [mem_lineNumbers_iff] at hin
    omega
  · rcases List.mem_append.mp hin with hin | hin
    · rw [List.mem_reverse, mem_lineNumbers_iff] at hin
      omega
    · exact Nat.le_add_right_of_le (hprinted line hin)

end Statement

namespace Listing

/-- What the entries of a record show of it: the lines and diagnostics of its
statement, its literals if it is a pool, otherwise its code.  The statement of a
pool of the end statement is left to the end statement. -/
structure Shows (a : Assembly) (r : Record) (block : List Entry) : Prop where
  own : ∀ e ∈ block, ∀ r' ∈ e.record?, r' = r
  remarks : block.filterMap Entry.remark? =
    if r.isEndPool then [] else r.statement.remarks a.diagnostics
  literals : (block.filterMap Entry.literal?).map some =
    r.listed.map (a.literals.literals[·]?)
  code : (∀ ids, r.body ≠ .pool ids) →
    block.flatMap Entry.data = r.object.getD []

/-- What stands in front of the program: the title, if there is one, between
empty lines, and the titles of the columns.  With colors they are bold. -/
def front (l : Listing) : Bytes :=
  let bold (line : Bytes) : Bytes :=
    if l.color then 0x1B :: bytes "[1m" ++ line ++ 0x1B :: bytes "[0m" else line
  [0x0A] ++ (if l.title = [] then [] else bold (l.title ++ [0x0A])) ++ [0x0A] ++
    bold
      (bytes "  LOC   OBJECT CODE      ADDR1  ADDR2   STMT  SOURCE STATEMENT" ++
      [0x0A])

/-- The tables behind the program. -/
def tables (l : Listing) (a : Assembly) : Bytes :=
  (match a.module? with
    | some m => l.externalTable m
    | none => []) ++
    if l.crossReference then l.symbolTable a.symbols else []

/-- The diagnostics of lines that no statement has. -/
def unowned (a : Assembly) (statements : List Statement) : List Diagnostic :=
  a.diagnostics.filter fun d => !statements.any (·.owns d)

/-- Whether some entries, one block for each record, make the listing of an
assembly with the diagnostics of no statement behind them: their lines stand one
behind the other, in front of the tables and the summary.  They show the
statements in their order, what is wrong with a statement behind its lines, and
every diagnostic and every literal once.  Their numbers count from one, and
every block shows its record. -/
structure Complete (l : Listing) (a : Assembly) (statements : List Statement)
    (blocks : List (List Entry)) (number : Nat) : Prop where
  text : ∃ rows,
    l.render a = l.front ++ rows.flatten ++ l.tables a ++ l.summary a number ∧
    List.Forall₂ (Entry.Row l.color)
      (blocks.flatten ++ (unowned a statements).map Entry.problem) rows
  remarks : blocks.flatten.filterMap Entry.remark? =
    statements.flatMap (·.remarks a.diagnostics)
  problems :
    ((blocks.flatten.filterMap Entry.remark?).filterMap Sum.getRight? ++
    unowned a statements).Perm a.diagnostics
  numbers : blocks.flatten.filterMap Entry.number? = List.range' 1 number
  literals : (blocks.flatten.filterMap Entry.literal?).Perm a.literals.literals
  records : List.Forall₂ (Shows a) a.records blocks

/-! ### The entries of a record -/

/-- The entries of the lines of a record. -/
def sourceEntries (r : Record) (number : Nat) : List Entry :=
  match r.statement.lines with
  | [] => []
  | first :: rest =>
    .opening r number ((r.object.getD []).take objectPerLine) first ::
      rest.map .continued

/-- The entries of further code, one for each line of it. -/
def codeEntries (r : Record) (offset : Nat) (pieces : List Bytes) :
    List Entry :=
  pieces.zipIdx.map fun piece =>
    .code r (offset + objectPerLine * piece.2) piece.1

/-- The entries of a record with its own lines. -/
def ownEntries (a : Assembly) (number : Nat) (r : Record) : List Entry :=
  let more := Deck.chunks objectPerLine ((r.object.getD []).drop objectPerLine)
  sourceEntries r number ++ codeEntries r objectPerLine more ++
    (a.diagnostics.filter r.statement.owns).map .problem

/-- The entries of literals behind a number of entries. -/
def literalEntries (r : Record) (number : Nat) (literals : List Literal) :
    List Entry :=
  (literals.zipIdx (number + 1)).map fun literal =>
    .literal r literal.2 literal.1

/-- The literals that a record lists. -/
def literalsOf (a : Assembly) (r : Record) : List Literal :=
  r.listed.filterMap fun id => a.literals.literals[id]?

/-- Only pools list literals. -/
theorem literalsOf_of_not_pool {a : Assembly} {r : Record}
    (hbody : ∀ ids, r.body ≠ .pool ids) :
    literalsOf a r = [] := by
  unfold literalsOf Record.listed
  split
  · exact absurd ‹_› (hbody _)
  · rfl

/-- How many numbers a record has. -/
def numbersOf (a : Assembly) (r : Record) : Nat :=
  (if r.isEndPool then 0 else 1) + (literalsOf a r).length

/-- The entries of a record behind a number of others. -/
def recordEntries (a : Assembly) (number : Nat) (r : Record) : List Entry :=
  if r.isEndPool then literalEntries r number (literalsOf a r)
  else ownEntries a (number + 1) r ++
    literalEntries r (number + 1) (literalsOf a r)

/-- The entries of records, those of each record on their own. -/
def programEntries (a : Assembly) (number : Nat) :
    List Record → List (List Entry)
  | [] => []
  | r :: rest => recordEntries a number r ::
    programEntries a (number + numbersOf a r) rest

section Projections

variable (a : Assembly) (r : Record) (number : Nat)

/-- The remarks under a record are those on its statement. -/
theorem remarks_recordEntries :
    (recordEntries a number r).filterMap Entry.remark? =
      if r.isEndPool then [] else r.statement.remarks a.diagnostics := by
  have hliterals : ∀ number,
      (literalEntries r number (literalsOf a r)).filterMap Entry.remark? =
        [] := by
    intro number
    simp [literalEntries, Entry.remark?]
  have hsource : (sourceEntries r number.succ).filterMap Entry.remark? =
      r.statement.lines.map .inl := by
    unfold sourceEntries
    split <;> simp [*, Entry.remark?, Function.comp_def]
  unfold recordEntries
  split
  · exact hliterals number
  · simp [ownEntries, hsource, hliterals, codeEntries, Entry.remark?,
      Function.comp_def, Statement.remarks]

/-- The entries of a record are its own. -/
theorem own_recordEntries : ∀ e ∈ recordEntries a number r, ∀ r' ∈ e.record?,
    r' = r := by
  have hliterals : ∀ number, ∀ e ∈ literalEntries r number (literalsOf a r),
      ∀ r' ∈ e.record?,
      r' = r := by
    simp only [literalEntries, List.forall_mem_map]
    exact fun _ _ _ _ hr => (Option.some.inj hr).symm
  have hcode : ∀ offset pieces, ∀ e ∈ codeEntries r offset pieces,
      ∀ r' ∈ e.record?, r' = r := by
    simp only [codeEntries, List.forall_mem_map]
    exact fun _ _ _ _ _ hr => (Option.some.inj hr).symm
  have hsource : ∀ e ∈ sourceEntries r (number + 1), ∀ r' ∈ e.record?,
      r' = r := by
    unfold sourceEntries
    split <;> simp [Entry.record?]
  intro e he
  unfold recordEntries ownEntries at he
  split at he
  · exact hliterals _ e he
  · simp only [List.mem_append, List.mem_map] at he
    obtain ((he | he) | ⟨d, -, rfl⟩) | he := he
    · exact hsource e he
    · exact hcode _ _ e he
    · exact fun _ hr => absurd hr (by simp [Entry.record?])
    · exact hliterals _ e he

theorem numbers_literalEntries (literals : List Literal) :
    (literalEntries r number literals).filterMap Entry.number? =
      List.range' (number + 1) literals.length := by
  simp [literalEntries, Entry.number?, Function.comp_def, List.zipIdx_map_snd]

/-- The statements and literals of a record are numbered on. -/
theorem numbers_recordEntries
    (hlines : r.isEndPool = false → r.statement.lines ≠ []) :
    (recordEntries a number r).filterMap Entry.number? =
      List.range' (number + 1) (numbersOf a r) := by
  unfold recordEntries numbersOf
  cases hpool : r.isEndPool with
  | true => simpa using numbers_literalEntries r number _
  | false =>
      have hsource : (sourceEntries r (number + 1)).filterMap Entry.number? =
          [number + 1] := by
        unfold sourceEntries
        split
        · exact absurd ‹_› (hlines hpool)
        · simp [Entry.number?, Function.comp_def]
      have hown : (ownEntries a (number + 1) r).filterMap Entry.number? =
          [number + 1] := by
        simp [ownEntries, hsource, codeEntries, Entry.number?,
          Function.comp_def]
      rw [if_neg Bool.false_ne_true, if_neg Bool.false_ne_true,
        List.filterMap_append, hown, numbers_literalEntries, Nat.add_comm 1]
      rfl

/-- The literals under a record are those it lists. -/
theorem literals_recordEntries :
    (recordEntries a number r).filterMap Entry.literal? = literalsOf a r := by
  have hliterals : ∀ number,
      (literalEntries r number (literalsOf a r)).filterMap Entry.literal? =
      literalsOf a r := by
    intro number
    simp [literalEntries, Entry.literal?, Function.comp_def,
      List.zipIdx_map_fst]
  have hsource : (sourceEntries r number.succ).filterMap Entry.literal? =
      [] := by
    unfold sourceEntries
    split <;> simp [Entry.literal?]
  unfold recordEntries
  split
  · exact hliterals number
  · simp [ownEntries, hsource, hliterals, codeEntries, Entry.literal?,
      Function.comp_def]

/-- A record that is not a pool shows its code, the first octets with its first
line. -/
theorem code_recordEntries (hbody : ∀ ids, r.body ≠ .pool ids)
    (hlines : r.statement.lines ≠ []) :
    (recordEntries a number r).flatMap Entry.data = r.object.getD [] := by
  have hpool := Record.isEndPool_of_not_pool hbody
  have hproblems :
      ((a.diagnostics.filter r.statement.owns).map Entry.problem).flatMap
      Entry.data = [] := by
    simp [List.flatMap_map, Entry.data]
  have hsource : (sourceEntries r (number + 1)).flatMap Entry.data =
      (r.object.getD []).take objectPerLine := by
    unfold sourceEntries
    split
    · exact absurd ‹_› hlines
    · simp [List.flatMap_map, Entry.data]
  have hfurther : ∀ offset pieces,
      (codeEntries r offset pieces).flatMap Entry.data = pieces.flatten := by
    intro offset pieces
    rw [codeEntries, List.flatMap_map]
    conv_rhs => rw [← List.zipIdx_map_fst 0 pieces, ← List.flatMap_def]
    rfl
  have hmore : (Deck.chunks objectPerLine
      ((r.object.getD []).drop objectPerLine)).flatten =
      (r.object.getD []).drop objectPerLine :=
    Deck.flatten_chunksFrom (by decide) (Nat.le_refl _)
  rw [recordEntries, hpool, if_neg Bool.false_ne_true,
    literalsOf_of_not_pool hbody, ownEntries]
  simp only [literalEntries, List.zipIdx_nil, List.map_nil, List.append_nil,
    List.flatMap_append,
    hsource, hfurther, hproblems, hmore, List.take_append_drop]

end Projections

/-! ### Printing entries -/

/-- The lines of a statement are printed as they are listed. -/
theorem print_sourceEntries (l : Listing) (r : Record) (number : Nat) :
    (sourceEntries r number).flatMap (Entry.print l) =
      sourceLines r number := by
  unfold sourceLines sourceEntries
  cases r.statement.lines with
  | nil => rfl
  | cons first rest => simp [List.flatMap_map, Entry.print]

/-- So are the octets of a record. -/
theorem print_codeEntries (l : Listing) (r : Record) (offset : Nat)
    (pieces : List Bytes) :
    (codeEntries r offset pieces).flatMap (Entry.print l) =
      objectLines r offset pieces := by
  induction pieces generalizing offset with
  | nil => rfl
  | cons data rest ih =>
      have hshift : codeEntries r offset (data :: rest) =
          .code r offset data ::
            codeEntries r (offset + objectPerLine) rest := by
        simp [codeEntries, List.zipIdx_succ, Nat.mul_add, Nat.add_assoc,
          Nat.add_comm]
      rw [hshift, List.flatMap_cons, ih]
      rfl

/-- So are the literals of a pool. -/
theorem print_literalEntries (l : Listing) (r : Record) (number : Nat)
    (literals : List Literal) :
    (literalEntries r number literals).flatMap (Entry.print l) =
      literalLines r number literals := by
  induction literals generalizing number with
  | nil => rfl
  | cons literal rest ih =>
      exact congrArg (literalLine r (number + 1) literal ++ ·) (ih _)

/-- So are the diagnostics of a line. -/
theorem print_problems (l : Listing) (diagnostics : List Diagnostic)
    (line : Nat) :
    ((diagnostics.filter (·.cursor.line = line)).map Entry.problem).flatMap
      (Entry.print l) =
      l.diagnosticLines diagnostics line := by
  rw [List.flatMap_map]
  rfl

/-! ### Lines that were not printed -/

/-- The diagnostics of lines that were not printed are printed. -/
theorem newDiagnostics_fresh (l : Listing) (diagnostics : List Diagnostic)
    {p : Progress} {lines : List Nat} (hnodup : lines.Nodup)
    (hfresh : ∀ line ∈ lines, line ∉ p.printed) :
    l.newDiagnostics diagnostics p lines =
      (lines.flatMap (l.diagnosticLines diagnostics),
        { p with printed := lines.reverse ++ p.printed }) := by
  induction lines generalizing p with
  | nil => rfl
  | cons line rest ih =>
      obtain ⟨hline, hrest⟩ := List.nodup_cons.mp hnodup
      have hfresh' : ∀ other ∈ rest, other ∉ line :: p.printed := by
        intro other hother hin
        rcases List.mem_cons.mp hin with rfl | hin
        · exact hline hother
        · exact hfresh other (List.mem_cons_of_mem _ hother) hin
      rw [newDiagnostics, if_neg (hfresh line List.mem_cons_self),
        ih hrest hfresh']
      simp

/-- The lines that are printed once some statements are, the last of them
first. -/
def printedThrough (printed : List Nat)
    (statements : List Statement) : List Nat :=
  statements.foldl (fun printed s => s.lineNumbers.reverse ++ printed) printed

/-- A line is printed once its statement is. -/
theorem mem_printedThrough {printed : List Nat} {statements : List Statement}
    {line : Nat} :
    line ∈ printedThrough printed statements ↔
      line ∈ printed ∨ ∃ s ∈ statements, line ∈ s.lineNumbers := by
  unfold printedThrough
  induction statements generalizing printed with
  | nil => simp
  | cons s rest ih =>
      rw [List.foldl_cons, ih, List.mem_append, List.mem_reverse,
        List.exists_mem_cons_iff, or_assoc, or_left_comm]

/-- Records that are no pools are printed as if they were pools without
literals. -/
theorem recordLines_uniform (l : Listing) (a : Assembly) (p : Progress)
    (r : Record) :
    l.recordLines a p r =
      let (source, q) :=
  if r.isEndPool then ([], p) else l.sourceRecord a.diagnostics p r
      (source ++ literalLines r q.number (literalsOf a r),
        { q with number := q.number + (literalsOf a r).length }) := by
  unfold recordLines
  split
  · rename_i ids hbody
    have hliterals : literalsOf a r =
        ids.filterMap fun id => a.literals.literals[id]? := by
      rw [literalsOf, Record.listed, hbody]
    rw [hliterals, Record.isEndPool_of_pool hbody]
    simp only [decide_eq_true_eq]
    rfl
  · rename_i hbody
    rw [literalsOf_of_not_pool hbody, Record.isEndPool_of_not_pool hbody]
    simp [literalLines]

section Sorted

variable {a : Assembly}
  (hsorted : a.diagnostics.Pairwise fun d e =>
    (d.cursor.line : Int) ≤ e.cursor.line)
include hsorted

/-- The diagnostics of increasing lines, one line behind the other. -/
theorem print_lines (l : Listing) {lines : List Nat}
    (hlines : lines.Pairwise (· < ·)) :
    lines.flatMap (l.diagnosticLines a.diagnostics) =
      ((a.diagnostics.filter fun d => decide (d.cursor.line ∈ lines)).map
        Entry.problem).flatMap
        (Entry.print l) := by
  let has : Nat → Diagnostic → Bool :=
    fun line d => decide (d.cursor.line = line)
  have hbins : (lines.flatMap fun line => a.diagnostics.filter (has line)) =
      a.diagnostics.filter fun d => lines.any (has · d) := by
    refine flatMap_filter_of_pairwise hsorted (hlines.imp ?_)
    intro line line' hlt d e hd he
    have hd := of_decide_eq_true hd
    have he := of_decide_eq_true he
    omega
  have hany : (fun d : Diagnostic => decide (d.cursor.line ∈ lines)) =
      fun d => lines.any (has · d) := by
    funext d
    rw [Bool.eq_iff_iff]
    simp [has]
  rw [hany, ← hbins, List.map_flatMap, List.flatMap_assoc]
  exact List.flatMap_congr fun line _ =>
    (print_problems l a.diagnostics line).symm

/-- A record whose lines were not printed before. -/
theorem sourceRecord_eq (l : Listing) {p : Progress} {r : Record}
    (hfresh : ∀ line ∈ r.statement.lineNumbers, line ∉ p.printed) :
    l.sourceRecord a.diagnostics p r =
      ((ownEntries a (p.number + 1) r).flatMap (Entry.print l),
        ⟨p.number + 1, r.statement.lineNumbers.reverse ++ p.printed⟩) := by
  have hlines :
      (List.range r.statement.lines.length).map (r.statement.line + ·) =
      r.statement.lineNumbers := (List.range'_eq_map_range ..).symm
  have hincreasing : r.statement.lineNumbers.Pairwise (· < ·) :=
    List.pairwise_lt_range'
  have hnew : l.newDiagnostics a.diagnostics ⟨p.number + 1,
      p.printed⟩ r.statement.lineNumbers =
      (r.statement.lineNumbers.flatMap (l.diagnosticLines a.diagnostics),
        ⟨p.number + 1, r.statement.lineNumbers.reverse ++ p.printed⟩) :=
    newDiagnostics_fresh l a.diagnostics hincreasing.nodup hfresh
  unfold sourceRecord
  simp only [hlines, hnew, ownEntries, List.flatMap_append, print_sourceEntries,
    print_codeEntries, print_lines hsorted l hincreasing]
  rfl

/-- **The lines of a record** whose lines were not printed before are those of
its entries. -/
theorem recordLines_eq (l : Listing) {p : Progress} {r : Record}
    (hfresh : r.isEndPool = false → ∀ line ∈ r.statement.lineNumbers,
      line ∉ p.printed) :
    l.recordLines a p r =
      ((recordEntries a p.number r).flatMap (Entry.print l),
        ⟨p.number + numbersOf a r, if r.isEndPool then p.printed else
            r.statement.lineNumbers.reverse ++ p.printed⟩) := by
  rw [recordLines_uniform]
  unfold recordEntries numbersOf
  cases hpool : r.isEndPool with
  | true => simp [print_literalEntries]
  | false =>
      simp [sourceRecord_eq hsorted l (hfresh hpool), print_literalEntries,
        Nat.add_assoc]

/-- **The lines of records** whose own statements stand one behind the other,
behind all lines that were printed before. -/
theorem programLines_eq (l : Listing) {n : Nat} {p : Progress}
    {records : List Record}
    (hplaced : Statement.Consecutive n (Record.ownStatements records))
    (hprinted : ∀ line ∈ p.printed, line ≤ n) :
    l.programLines a p records =
      ((programEntries a p.number records).flatten.flatMap (Entry.print l),
        ⟨p.number + (records.map (numbersOf a)).sum,
          printedThrough p.printed (Record.ownStatements records)⟩) := by
  induction records generalizing n p with
  | nil => rfl
  | cons r rest ih =>
      rw [Record.ownStatements_cons] at hplaced ⊢
      cases hpool : r.isEndPool with
      | true =>
          rw [hpool] at hplaced
          have hfresh : r.isEndPool = false → ∀ line ∈ r.statement.lineNumbers,
              line ∉ p.printed :=
            fun hown => absurd (hown.symm.trans hpool) Bool.false_ne_true
          rw [programLines, recordLines_eq hsorted l hfresh]
          simp only [hpool, if_true]
          rw [ih (p := ⟨p.number + numbersOf a r, p.printed⟩) hplaced hprinted]
          simp [programEntries, Nat.add_assoc]
      | false =>
          rw [hpool] at hplaced
          obtain ⟨hline, -, hrest⟩ := hplaced
          obtain ⟨hfresh, hprinted'⟩ :=
            Statement.fresh_lineNumbers hline hprinted
          rw [programLines, recordLines_eq hsorted l fun _ => hfresh]
          simp only [hpool, Bool.false_eq_true, if_false]
          rw [ih (p := ⟨p.number + numbersOf a r, _⟩) hrest hprinted']
          simp [programEntries, printedThrough, Nat.add_assoc]

/-- The diagnostics of no statement are printed behind all others. -/
theorem remainingDiagnostics_eq (l : Listing) {p : Progress}
    {statements : List Statement}
    (hprinted : ∀ line, line ∈ p.printed ↔ ∃ s ∈ statements,
      line ∈ s.lineNumbers) :
    l.remainingDiagnostics a p =
      ((unowned a statements).map Entry.problem).flatMap (Entry.print l) := by
  unfold remainingDiagnostics
  simp only
  generalize hlines : ((a.diagnostics.map (·.cursor.line)).eraseDups).filter
    (· ∉ p.printed) = lines
  have hnodup : lines.Nodup := hlines ▸ (nodup_eraseDups _).filter _
  have hkey : Function.Injective fun line : Nat => (line : Int) :=
    fun _ _ h => Int.ofNat.inj h
  have hincreasing := (sortByKey_pairwise_lt _ hkey hnodup).imp Int.ofNat_lt.mp
  rw [print_lines hsorted l hincreasing, unowned]
  -- a diagnostic stands on one of these lines if no statement has its line
  have hsame : ∀ d ∈ a.diagnostics,
      decide (d.cursor.line ∈
        sortByKey (fun line : Nat => (line : Int)) lines) =
        !statements.any (·.owns d) := by
    intro d hd
    rw [Bool.eq_iff_iff, decide_eq_true_eq,
      (sortByKey_perm _ lines).mem_iff, ← hlines]
    simp only [List.mem_filter, List.mem_eraseDups, decide_eq_true_eq, hprinted]
    have hline : d.cursor.line ∈ a.diagnostics.map (·.cursor.line) :=
      List.mem_map_of_mem hd
    simp [hline, Statement.owns]
  rw [List.filter_congr hsame]

end Sorted

/-! ### The listing as a whole -/

/-- The remarks of a listing are those on the statements of the program, in
their order. -/
theorem remarks_programEntries (a : Assembly) (number : Nat)
    (records : List Record) :
    (programEntries a number records).flatten.filterMap Entry.remark? =
      (Record.ownStatements records).flatMap (·.remarks a.diagnostics) := by
  induction records generalizing number with
  | nil => rfl
  | cons r rest ih =>
      rw [programEntries, List.flatten_cons, List.filterMap_append,
        remarks_recordEntries, ih, Record.ownStatements_cons]
      cases r.isEndPool <;> rfl

/-- The numbers of a listing are consecutive. -/
theorem numbers_programEntries (a : Assembly) (number : Nat)
    {records : List Record}
    (hlines : ∀ r ∈ records, r.isEndPool = false → r.statement.lines ≠ []) :
    (programEntries a number records).flatten.filterMap Entry.number? =
      List.range' (number + 1) (records.map (numbersOf a)).sum := by
  induction records generalizing number with
  | nil => rfl
  | cons r rest ih =>
      obtain ⟨hfirst, hrest⟩ := List.forall_mem_cons.mp hlines
      rw [programEntries, List.flatten_cons, List.filterMap_append,
        numbers_recordEntries a r number hfirst, ih _ hrest, List.map_cons,
        List.sum_cons, ← List.range'_append_1, Nat.add_right_comm]

/-- The literals of a listing are those of the pools, in their order. -/
theorem literals_programEntries (a : Assembly) (number : Nat)
    (records : List Record) :
    (programEntries a number records).flatten.filterMap Entry.literal? =
      (records.flatMap Record.listed).filterMap (a.literals.literals[·]?) := by
  induction records generalizing number with
  | nil => rfl
  | cons r rest ih =>
      rw [programEntries, List.flatten_cons, List.filterMap_append,
        literals_recordEntries, ih, List.flatMap_cons, List.filterMap_append]
      rfl

theorem filterMap_getElem?_range {α : Type} (items : List α) :
    (List.range items.length).filterMap (items[·]?) = items := by
  induction items with
  | nil => rfl
  | cons x rest ih =>
      rw [List.length_cons, List.range_succ_eq_map, List.filterMap_cons,
        List.filterMap_map]
      exact congrArg (x :: ·) ih

/-- The entries of a record show it. -/
theorem shows_recordEntries {a : Assembly} {r : Record} (number : Nat)
    (hlines : r.isEndPool = false → r.statement.lines ≠ [])
    (hids : ∀ id ∈ r.listed, id < a.literals.literals.length) :
    Shows a r (recordEntries a number r) where
  own := own_recordEntries a r number
  remarks := remarks_recordEntries a r number
  literals := by
    rw [literals_recordEntries, literalsOf,
      List.map_filterMap_some_eq_filter_map_isSome, List.filter_eq_self]
    intro literal? hliteral
    obtain ⟨id, hid, rfl⟩ := List.mem_map.mp hliteral
    simpa using hids id hid
  code := fun hbody =>
    code_recordEntries a r number hbody
      (hlines (Record.isEndPool_of_not_pool hbody))

/-- **Every record is shown** by its entries. -/
theorem forall₂_shows {a : Assembly} {records : List Record} (number : Nat)
    (hlines : ∀ r ∈ records, r.isEndPool = false → r.statement.lines ≠ [])
    (hids : ∀ r ∈ records, ∀ id ∈ r.listed, id < a.literals.literals.length) :
    List.Forall₂ (Shows a) records (programEntries a number records) := by
  induction records generalizing number with
  | nil => exact .nil
  | cons r rest ih =>
      obtain ⟨hline, hlines⟩ := List.forall_mem_cons.mp hlines
      obtain ⟨hid, hids⟩ := List.forall_mem_cons.mp hids
      exact .cons (shows_recordEntries number hline hid) (ih _ hlines hids)

section Problems

variable {a : Assembly} {n : Nat} {statements : List Statement}
  (hsorted : a.diagnostics.Pairwise fun d e =>
    (d.cursor.line : Int) ≤ e.cursor.line)
  (hplaced : Statement.Consecutive n statements)
include hsorted hplaced

/-- The diagnostics of statements that stand one behind the other, one statement
behind the other. -/
theorem flatMap_owned :
    (statements.flatMap fun s => a.diagnostics.filter s.owns) =
      a.diagnostics.filter fun d => statements.any (·.owns d) := by
  refine flatMap_filter_of_pairwise hsorted (hplaced.pairwise.imp ?_)
  intro s t hst d e hd he
  have hd := Statement.mem_lineNumbers_iff.mp (of_decide_eq_true hd)
  have he := Statement.mem_lineNumbers_iff.mp (of_decide_eq_true he)
  omega

/-- Every diagnostic is one of a statement or one of none. -/
theorem perm_problems :
    ((statements.flatMap (·.remarks a.diagnostics)).filterMap Sum.getRight? ++
      unowned a statements).Perm a.diagnostics := by
  have hright :
      (statements.flatMap (·.remarks a.diagnostics)).filterMap Sum.getRight? =
      statements.flatMap fun s => a.diagnostics.filter s.owns := by
    simp [List.filterMap_flatMap, Statement.remarks, Function.comp_def]
  rw [hright, flatMap_owned hsorted hplaced, unowned]
  exact List.filter_append_perm _ _

end Problems

/-- What stands in front of the program, as it is printed. -/
theorem front_eq (l : Listing) :
    l.heading l.title ++ l.columnTitles
      "  LOC   OBJECT CODE      ADDR1  ADDR2   STMT  SOURCE STATEMENT" =
        l.front := by
  have hbold : control "1" = 0x1B :: bytes "[1m" := by decide +kernel
  have hplain : control "0" = 0x1B :: bytes "[0m" := by decide +kernel
  unfold heading columnTitles styled endLine front
  rw [hbold, hplain]
  simp

/-- The part of a listing that shows the program, and what stands around it. -/
theorem render_eq {a : Assembly} {statements : List Statement}
    (hsorted : a.diagnostics.Pairwise fun d e =>
      (d.cursor.line : Int) ≤ e.cursor.line)
    (hplaced : Statement.Consecutive 0 statements)
    (howners : Record.ownStatements a.records = statements) (l : Listing) :
    l.render a =
      l.front ++ ((programEntries a 0 a.records).flatten ++
        (unowned a statements).map Entry.problem).flatMap (Entry.print l) ++
        l.tables a ++ l.summary a (a.records.map (numbersOf a)).sum := by
  subst howners
  have hlines := programLines_eq hsorted l (p := {}) hplaced (by simp)
  have hrest : l.remainingDiagnostics a ⟨(a.records.map (numbersOf a)).sum,
      printedThrough [] (Record.ownStatements a.records)⟩ =
        ((unowned a (Record.ownStatements a.records)).map Entry.problem).flatMap
          (Entry.print l) :=
    remainingDiagnostics_eq hsorted l fun line => by simp [mem_printedThrough]
  rw [← front_eq]
  unfold render tables
  cases a.module? <;>
    simp only [hlines, hrest, List.flatMap_append, List.append_assoc,
      Nat.zero_add]

end Listing

namespace Workspace

open Listing

/-- **The listing of an assembly is complete.** -/
theorem listing_complete {w : Workspace} {today source : Bytes}
    {a : Assembly} (h : (w.run today source).1 = .ok a) (l : Listing) :
    ∃ statements blocks number, Statement.readAll source = .ok statements ∧
      statements.flatMap (·.lines) = (Line.pieces source).map Line.trimmed ∧
      l.Complete a (statements ++ Statement.supplied statements) blocks
        number := by
  obtain ⟨statements, hread, -, -, hrecords, hliterals, hdiagnostics, -⟩ :=
    run_made h
  have howners : Record.ownStatements a.records =
      statements ++ Statement.supplied statements := by
    rw [hrecords]
    exact Program.ownStatements_generated w.options statements
  have hlisted :
      (a.records.flatMap Record.listed).Perm
        (List.range a.literals.literals.length) := by
    rw [hrecords, hliterals]
    exact Program.listed_generated w.options statements
  have hsorted : a.diagnostics.Pairwise fun d e => (d.cursor.line : Int) ≤
      e.cursor.line := by
    rw [hdiagnostics]
    exact sortByKey_pairwise _ _
  have hplaced := Statement.consecutive_supplied hread
  have hlines : ∀ r ∈ a.records, r.isEndPool = false → r.statement.lines ≠ [] :=
    fun r hr hpool =>
      hplaced.lines_ne_nil (howners ▸ Record.mem_ownStatements hr hpool)
  have hids : ∀ r ∈ a.records, ∀ id ∈ r.listed,
      id < a.literals.literals.length :=
    fun r hr id hid =>
      List.mem_range.mp (hlisted.mem_iff.mp (List.mem_flatMap.mpr ⟨r, hr, hid⟩))
  have hremarks := remarks_programEntries a 0 a.records
  rw [howners] at hremarks
  refine ⟨statements, programEntries a 0 a.records,
    (a.records.map (numbersOf a)).sum, hread,
    (Statement.readAll_lines hread).1, ?_⟩
  exact
    { text := by
        refine ⟨_, ?_, List.forall₂_map_right_iff.mpr
          (List.forall₂_same.mpr fun e _ => Entry.row_print l e)⟩
        rw [← List.flatMap_def]
        exact render_eq hsorted hplaced howners l
      remarks := hremarks
      problems := hremarks ▸ perm_problems hsorted hplaced
      numbers := numbers_programEntries a 0 hlines
      literals := by
        have hall := hlisted.filterMap (a.literals.literals[·]?)
        rwa [filterMap_getElem?_range, ← literals_programEntries a 0] at hall
      records := forall₂_shows 0 hlines hids }

/-- A source with a statement on two lines, with more code than a line of the
listing holds, with a pool of its own and one of the end statement, which is
missing, and with an unknown operation. -/
theorem listing_complete_small :
    let l : Listing := ⟨bytes "A", true, false⟩
    let source :=
      bytes "A CSECT\n USING *,15\n L 1,=F'1'\n LTORG\n L 2,=F'2'\n XX 1\n" ++
      bytes " DC X'0102030405'," ++ List.replicate 53 blank ++ bytes "X\n" ++
      List.replicate 15 blank ++ bytes "X'0607080910'\n"
    ∃ a statements blocks number,
      ((Workspace.mk {} (Arena.ofPageSize 4096) none).run [] source).1 = .ok a ∧
      (a.records.map fun r => (r.listed.length, (r.object.getD []).length)) =
        [(0, 0), (0, 0), (0, 4), (1, 4), (0, 4), (0, 0), (0, 10),
          (1, 4), (0, 0)] ∧
      a.diagnostics.map (·.cursor.line) = [6, 7] ∧
      ((Bytes.splitOn 0x0A (l.render a)).drop 8).take 4 =
        [bytes "000008 00000001                           5  =F'1'",
          bytes "00000C 5820 F020               00020      6   L 2,=F'2'",
          bytes "000010                                    7   XX 1",
          bytes "** ASM014E 06:02: Unknown mnemonic 'XX'"] ∧
      l.Complete a (statements ++ Statement.supplied statements) blocks
        number := by
  intro l source
  have hcheck :
      (((Workspace.mk {} (Arena.ofPageSize 4096) none).run [] source).1
      |>.toOption.any fun a => decide (
        (a.records.map fun r =>
          (r.listed.length, (r.object.getD []).length)) =
          [(0, 0), (0, 0), (0, 4), (1, 4), (0, 4), (0, 0), (0, 10),
            (1, 4), (0, 0)] ∧
        a.diagnostics.map (·.cursor.line) = [6, 7] ∧
        ((Bytes.splitOn 0x0A (l.render a)).drop 8).take 4 =
          [bytes "000008 00000001                           5  =F'1'",
            bytes "00000C 5820 F020               00020      6   L 2,=F'2'",
            bytes "000010                                    7   XX 1",
            bytes "** ASM014E 06:02: Unknown mnemonic 'XX'"])) = true := by
    decide +kernel
  obtain ⟨a, ha, hok⟩ := exists_ok_of_any hcheck
  obtain ⟨hrecords, hdiagnostics, hlines⟩ := of_decide_eq_true hok
  obtain ⟨statements, blocks, number, -, -, hcomplete⟩ := listing_complete ha l
  exact ⟨a, statements, blocks, number, ha, hrecords, hdiagnostics,
    hlines, hcomplete⟩

end Workspace

end System370
