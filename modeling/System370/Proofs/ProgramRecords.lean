import System370.Proofs.AfterEnd
import System370.Proofs.PhysicalLines
import System370.Proofs.PooledLiterals
import System370.Proofs.StorageOperands

/-!
# The records of a program

Every statement has a record of its own.  The end statement also has the pools
that it places, in front of its record.  So without these pools the records are
those of the statements, in their order, and of the end statement if it had to
be supplied (`Program.ownStatements_ofStatements`).

The statements of a source stand on its lines one behind the other, and the end
statement that is supplied stands behind the last of them
(`Statement.consecutive_supplied`).
-/

namespace System370

/-! ### Lines -/

namespace Statement

/-- Whether statements stand on lines one behind the other, the first of them
behind `n` lines. -/
def Consecutive (n : Nat) : List Statement → Prop
  | [] => True
  | s :: rest => s.line = n + 1 ∧ s.lines ≠ [] ∧
    Consecutive (n + s.lines.length) rest

/-- Two parts of a source are consecutive if the second goes on where the first
ends. -/
theorem consecutive_append {n : Nat} {statements others : List Statement} :
    Consecutive n (statements ++ others) ↔ Consecutive n statements ∧
      Consecutive (n + (statements.flatMap (·.lines)).length) others := by
  induction statements generalizing n with
  | nil => simp [Consecutive]
  | cons s rest ih =>
      rw [List.cons_append, Consecutive, ih, Consecutive, List.flatMap_cons,
        List.length_append, Nat.add_assoc, and_assoc, and_assoc]

/-- Lines are numbered from the one behind. -/
theorem Consecutive.lt_line {n : Nat} {statements : List Statement}
    (h : Consecutive n statements) {s : Statement} (hs : s ∈ statements) :
    n < s.line := by
  induction statements generalizing n with
  | nil => exact absurd hs List.not_mem_nil
  | cons t rest ih =>
      obtain ⟨hline, -, hrest⟩ := h
      rcases List.mem_cons.mp hs with rfl | hs
      · omega
      · exact Nat.lt_of_le_of_lt (Nat.le_add_right _ _) (ih hrest hs)

/-- Every statement has a line. -/
theorem Consecutive.lines_ne_nil {n : Nat} {statements : List Statement}
    (h : Consecutive n statements) {s : Statement} (hs : s ∈ statements) :
    s.lines ≠ [] := by
  induction statements generalizing n with
  | nil => exact absurd hs List.not_mem_nil
  | cons t rest ih =>
      rcases List.mem_cons.mp hs with rfl | hs
      · exact h.2.1
      · exact ih h.2.2 hs

/-- Of two statements the lines of the first are in front of those of the
second. -/
theorem Consecutive.pairwise {n : Nat} {statements : List Statement}
    (h : Consecutive n statements) :
    statements.Pairwise fun s t => s.line + s.lines.length ≤ t.line := by
  induction statements generalizing n with
  | nil => exact .nil
  | cons s rest ih =>
      obtain ⟨hline, -, hrest⟩ := h
      refine .cons (fun t ht => ?_) (ih hrest)
      have := hrest.lt_line ht
      omega

/-- The line behind statements that stand one behind the other. -/
theorem Consecutive.endLine {n : Nat} {statements : List Statement}
    (h : Consecutive n statements) (hne : statements ≠ []) :
    Layout.endLine statements =
      n + (statements.flatMap (·.lines)).length + 1 := by
  have hlast := List.dropLast_append_getLast hne
  have hboth := h
  rw [← hlast, consecutive_append] at hboth
  have hline := hboth.2.1
  have hflat : (statements.flatMap (·.lines)).length =
      (statements.dropLast.flatMap (·.lines)).length +
        (statements.getLast hne).lines.length := by
    conv_lhs => rw [← hlast]
    simp
  unfold Layout.endLine
  rw [List.getLast?_map, List.getLast?_eq_getLast_of_ne_nil hne]
  simp only [Option.map_some, Option.getD_some]
  omega

/-- The statements of a source stand one behind the other. -/
theorem consecutive_readAll {source : Bytes} {statements : List Statement}
    (h : readAll source = .ok statements) : Consecutive 0 statements := by
  have hplaced : ∀ before s after, statements = before ++ s :: after →
      s.line = 0 + (before.flatMap (·.lines)).length + 1 ∧ s.lines ≠ [] := by
    intro before s after hsplit
    obtain ⟨g, hin⟩ := (readAll_lines h).2 before s after hsplit
    obtain ⟨first, rest, rfl, rfl⟩ := hin.holds
    obtain ⟨hline, hlines, -⟩ := ofLines_frame first rest
    rw [hline, hlines, (hin.numbered 0 first rfl).1]
    exact ⟨by omega, by simp⟩
  clear h
  generalize 0 = n at hplaced ⊢
  induction statements generalizing n with
  | nil => trivial
  | cons s rest ih =>
      obtain ⟨hline, hlines⟩ := hplaced [] s rest rfl
      refine ⟨hline, hlines, ih _ fun before t after hsplit => ?_⟩
      obtain ⟨hline', hlines'⟩ :=
        hplaced (s :: before) t after (by rw [hsplit, List.cons_append])
      rw [List.flatMap_cons, List.length_append] at hline'
      exact ⟨by omega, hlines'⟩

/-- Whether a statement is the end of a program. -/
def isEnding (s : Statement) : Bool :=
  !s.isComment && decide (s.mnemonic = endMnemonic)

/-- The end statement that is supplied behind statements without one. -/
def supplied (statements : List Statement) : List Statement :=
  if statements.any isEnding then [] else
    [Layout.suppliedEnd (Layout.endLine statements)]

/-- An `END` that is supplied stands behind the last line. -/
theorem consecutive_supplied {source : Bytes}
    {statements : List Statement} (h : readAll source = .ok statements) :
    Consecutive 0 (statements ++ supplied statements) := by
  have hread := consecutive_readAll h
  refine consecutive_append.mpr ⟨hread, ?_⟩
  unfold supplied
  split
  · trivial
  · refine ⟨?_, by simp [Layout.suppliedEnd], trivial⟩
    by_cases hne : statements = []
    · rw [hne]
      rfl
    · exact hread.endLine hne

end Statement

/-! ### One record for each statement -/

namespace Record

/-- Whether a record is a pool that the end statement places. -/
def isEndPool (r : Record) : Bool :=
  match r.body with
  | .pool _ => decide (r.statement.mnemonic = Statement.endMnemonic)
  | _ => false

/-- A pool belongs to `END` if it stands in its statement. -/
theorem isEndPool_of_pool {r : Record} {ids : List Nat}
    (hbody : r.body = .pool ids) :
    r.isEndPool = decide (r.statement.mnemonic = Statement.endMnemonic) := by
  rw [isEndPool, hbody]

theorem isEndPool_of_ne {r : Record}
    (h : r.statement.mnemonic ≠ Statement.endMnemonic) :
    r.isEndPool = false := by
  unfold isEndPool
  split
  · exact decide_eq_false h
  · rfl

/-- What is no pool is no pool of `END`. -/
theorem isEndPool_of_not_pool {r : Record} (h : ∀ ids, r.body ≠ .pool ids) :
    r.isEndPool = false := by
  unfold isEndPool
  split
  · exact absurd ‹_› (h _)
  · rfl

/-- The statements of records that are not pools of the end statement. -/
def ownStatements (records : List Record) : List Statement :=
  (records.filter fun r => !r.isEndPool).map (·.statement)

/-- Statements of records behind records. -/
theorem ownStatements_append (records others : List Record) :
    ownStatements (records ++ others) = ownStatements records ++
      ownStatements others := by
  rw [ownStatements, List.filter_append, List.map_append]
  rfl

theorem ownStatements_cons (r : Record) (rest : List Record) :
    ownStatements (r :: rest) =
      if r.isEndPool then ownStatements rest else
        r.statement :: ownStatements rest := by
  unfold ownStatements
  rw [List.filter_cons]
  cases r.isEndPool <;> rfl

/-- A record that is no pool of `END` has its statement among them. -/
theorem mem_ownStatements {records : List Record} {r : Record}
    (hr : r ∈ records) (h : r.isEndPool = false) :
    r.statement ∈ ownStatements records := by
  refine List.mem_map_of_mem (List.mem_filter.mpr ⟨hr, ?_⟩)
  rw [h]
  rfl

theorem ownStatements_single {r : Record} (h : r.isEndPool = false) :
    ownStatements [r] = [r.statement] := by
  rw [ownStatements_cons, h]
  rfl

/-- Pools of `END` have no statement of their own. -/
theorem ownStatements_pools {records : List Record}
    (h : ∀ r ∈ records, r.isEndPool = true) :
    ownStatements records = [] := by
  have hnone : records.filter (fun r => !r.isEndPool) = [] := by
    rw [List.filter_eq_nil_iff]
    intro r hr
    simp [h r hr]
  rw [ownStatements, hnone, List.map_nil]

/-- Whether a record of the same statement is a pool just if another one is. -/
def SameOwner (r r' : Record) : Prop :=
  r'.statement = r.statement ∧
    ((∃ ids, r'.body = .pool ids) ↔ ∃ ids, r.body = .pool ids)

/-- Being a pool of `END` is a matter of the statement and the kind of the
body. -/
theorem SameOwner.isEndPool {r r' : Record} (h : SameOwner r r') :
    r'.isEndPool = r.isEndPool := by
  obtain ⟨hstatement, hpool⟩ := h
  by_cases hbody : ∃ ids, r.body = .pool ids
  · obtain ⟨ids, hids⟩ := hbody
    obtain ⟨ids', hids'⟩ := hpool.mpr ⟨ids, hids⟩
    rw [isEndPool_of_pool hids, isEndPool_of_pool hids', hstatement]
  · rw [isEndPool_of_not_pool (not_exists.mp hbody),
      isEndPool_of_not_pool (not_exists.mp (mt hpool.mp hbody))]

/-- Records with the same owners have the same statements. -/
theorem ownStatements_congr {records others : List Record}
    (h : List.Forall₂ SameOwner records others) :
    ownStatements others = ownStatements records := by
  induction h with
  | nil => rfl
  | @cons r r' records others hfirst _ ih =>
      rw [ownStatements_cons, ownStatements_cons, hfirst.isEndPool,
        hfirst.1, ih]

end Record

namespace Draft

theorem statement_startAt (d : Draft) (text : Bytes) :
    (d.startAt text).record.statement = d.record.statement := by
  have hvalue := (d.steps_absolute text).statement
  unfold startAt
  simp only
  split
  · exact hvalue
  · split
    · exact hvalue
    · split <;> exact hvalue

theorem statement_openSection (d : Draft) (kind : SectionKind) :
    (d.openSection kind).record.statement = d.record.statement := by
  unfold openSection
  split
  · rfl
  · exact (steps_locate _).statement

/-- A directive that opens a section leaves the statement of its record
alone. -/
theorem statement_layOutSection (d : Draft) (directive : Directive) :
    (d.layOutSection directive).record.statement = d.record.statement := by
  unfold layOutSection
  simp only
  split
  · split
    · exact (Steps.refl d).requireLabel.statement
    · exact statement_openSection d _
  · generalize (if d.record.label = [] then SectionKind.unnamed else .named) =
      kind
    split
    · split
      · exact (statement_startAt _ _).trans (statement_openSection d _)
      · exact statement_openSection d _
    · exact statement_openSection d _

/-- A directive leaves its record with its statement. -/
theorem statement_layOutDirective (d : Draft) (directive : Directive) :
    (d.layOutDirective directive).record.statement = d.record.statement := by
  cases hsection : directive.isSection with
  | false => exact (d.steps_layOutDirective hsection).statement
  | true =>
      cases directive with
      | start | csect | rsect | dsect => exact statement_layOutSection d _
      | _ => simp [Directive.isSection] at hsection

end Draft

namespace Layout

open Record

/-- The pools at the end belong to its statement. -/
theorem pools_flushSections (l : Layout) (s : Statement) (ids : List Int) :
    ∀ r ∈ (l.flushSections s ids).2, r.statement = s ∧ ∃ listed,
    r.body = .pool listed := by
  induction ids generalizing l with
  | nil => exact fun _ hr => absurd hr List.not_mem_nil
  | cons id rest ih =>
      intro r hr
      rcases List.mem_append.mp hr with hr | hr
      · have hpool := Option.mem_toList.mp hr
        split at hpool
        · cases hpool
        · simp only at hpool
          split at hpool
          · cases hpool
          · obtain rfl := Option.some.inj hpool
            exact ⟨rfl, _, rfl⟩
      · exact ih _ r hr

/-- The end statement: its pools, and its own record behind them. -/
theorem ownStatements_layOutEnd {d : Draft}
    (h : d.statement.mnemonic = Statement.endMnemonic) :
    ownStatements (layOutEnd d).2 = [d.statement] := by
  have hstatement : (d.locate.withBody .located).statement = d.statement :=
    d.steps_locate.statement
  unfold layOutEnd
  simp only
  rw [ownStatements_append, ownStatements_pools, List.nil_append,
    ownStatements_single rfl]
  · exact congrArg (fun s => [s]) hstatement
  · intro r hr
    obtain ⟨hs, ids, hbody⟩ := pools_flushSections _ _ _ r hr
    rw [isEndPool_of_pool hbody, hs, hstatement]
    exact decide_eq_true h

/-- A statement has one record of its own. -/
theorem ownStatements_layOutStatement (d : Draft) :
    ownStatements (layOutStatement d).2 = [d.statement] := by
  by_cases hend : d.statement.mnemonic = Statement.endMnemonic
  · rw [layOutStatement_end hend]
    exact ownStatements_layOutEnd hend
  · have hsingle : ∀ {d' : Draft}, d'.record.statement = d.record.statement →
        ownStatements [d'.record] = [d.statement] := by
      intro d' hsame
      rw [ownStatements_single (isEndPool_of_ne (hsame ▸ hend)), hsame]
      rfl
    unfold layOutStatement
    simp only
    split
    · exact hsingle d.steps_layOutMark.statement
    · split
      · exact hsingle (d.steps_layOutInstruction _).statement
      · split
        · rename_i directive hdirective
          let named : Draft :=
            { d with record := { d.record with directive := some directive } }
          split
          · rename_i hending
            exact absurd (ofMnemonic?_ending
              (hdirective.trans (congrArg some hending))) hend
          · split
            · exact hsingle named.steps_locate.statement
            · exact hsingle (named.statement_layOutDirective directive)
        · split
          · exact hsingle rfl
          · exact hsingle (Draft.steps_layOutMark _).statement

/-- One statement makes one record of its own. -/
theorem ownStatements_step (l : Layout) (s : Statement) :
    ownStatements (l.step s).2 = [s] := by
  unfold step
  simp only
  split
  · exact ownStatements_single rfl
  · split
    · exact ownStatements_single rfl
    · rw [ownStatements_layOutStatement, statement_checkLabel]
      rfl

/-- **Statements and records** correspond, pools of `END` apart. -/
theorem ownStatements_run (l : Layout) (statements : List Statement) :
    ownStatements (l.run statements).2 = statements := by
  induction statements generalizing l with
  | nil => rfl
  | cons s rest ih =>
      show ownStatements ((l.step s).2 ++ ((l.step s).1.run rest).2) = s :: rest
      rw [ownStatements_append, ownStatements_step, ih]
      rfl

/-- A program is ended by its first end statement. -/
theorem ended_run {l : Layout} (hended : l.ended = false)
    (hafter : l.afterEnd = false) (statements : List Statement) :
    (l.run statements).1.ended = statements.any Statement.isEnding := by
  induction statements generalizing l with
  | nil => exact hended
  | cons s rest ih =>
      show ((l.step s).1.run rest).1.ended = _
      rw [List.any_cons]
      cases hs : s.isEnding with
      | true =>
          simp only [Statement.isEnding, Bool.and_eq_true, Bool.not_eq_true',
            decide_eq_true_eq] at hs
          obtain ⟨extra, hrun, -⟩ :=
            run_ended (step_end hended hafter hs.1 hs.2).1 rest
          rw [hrun]
          exact (step_end hended hafter hs.1 hs.2).1
      | false =>
          have hopen : s.isComment = true ∨
              s.mnemonic ≠ Statement.endMnemonic := by
            cases hcomment : s.isComment with
            | true => exact Or.inl rfl
            | false =>
                exact Or.inr (by simpa [Statement.isEnding, hcomment] using hs)
          obtain ⟨hended', hafter'⟩ := step_open hended hafter hopen
          exact ih hended' hafter'

/-- A round over equates keeps the owners. -/
theorem sameOwner_settleRound (last : Bool) (l : Layout)
    (records : List Record) :
    List.Forall₂ SameOwner records (settleRound last l records).2 := by
  induction records generalizing l with
  | nil => exact .nil
  | cons r rest ih =>
      unfold settleRound
      simp only
      refine .cons ?_ (ih _)
      split
      · rename_i hwaiting
        obtain ⟨-, value, waiting, hequate⟩ := frame_settle ⟨l, r⟩ last
        refine ⟨((Draft.Steps.refl (⟨l, r⟩ : Draft)).settle last).statement, ?_⟩
        unfold isWaiting at hwaiting
        split at hwaiting
        · rename_i hbody
          rw [hequate, hbody]
          simp
        · cases hwaiting
      · exact ⟨rfl, Iff.rfl⟩

/-- So do all the rounds. -/
theorem ownStatements_settleAll (fuel : Nat) (l : Layout)
    (records : List Record) :
    ownStatements (settleAll fuel l records).2 = ownStatements records := by
  have hround : ∀ last l records, ownStatements (settleRound last l records).2 =
      ownStatements records := fun last l records =>
    ownStatements_congr (sameOwner_settleRound last l records)
  induction fuel generalizing l records with
  | zero => rfl
  | succ fuel ih =>
      unfold settleAll
      simp only
      split
      · rfl
      · split
        · rw [hround, hround]
        · rw [ih, hround]

end Layout

namespace Program

open Record

/-- **The records of a program** are those of its statements, each with one
record of its own. -/
theorem ownStatements_ofStatements (options : Options)
    (statements : List Statement) :
    ownStatements (ofStatements options statements).records =
      statements ++ Statement.supplied statements := by
  have hsupplied : ownStatements
      (((Layout.new options).run statements).1.supplyEnd statements).2 =
      Statement.supplied statements := by
    have hended := Layout.ended_run (l := Layout.new options) rfl rfl statements
    unfold Statement.supplied
    cases hany : statements.any Statement.isEnding with
    | true =>
        rw [Layout.supplyEnd_ended (hended.trans hany)]
        rfl
    | false =>
        obtain ⟨cursor, hopen⟩ :=
          Layout.supplyEnd_open (hended.trans hany) statements
        rw [hopen, Layout.ownStatements_step]
        rfl
  have hunplaced : ownStatements (unplaced options statements).records =
      statements ++ Statement.supplied statements := by
    unfold unplaced
    simp only
    rw [Layout.ownStatements_settleAll, ownStatements_append,
      Layout.ownStatements_run, hsupplied]
  rw [← hunplaced]
  refine ownStatements_congr ?_
  show List.Forall₂ SameOwner _
    ((unplaced options statements).records.map (moveRecord _))
  rw [List.forall₂_map_right_iff]
  exact List.forall₂_same.mpr fun r _ =>
    ⟨rfl, by simp only [body_moveRecord_eq_pool]⟩

/-- Generating code changes no statement and no body. -/
theorem forall₂_generated {p : Program}
    (h : ∀ r ∈ p.records, Generation.Ready r) :
    List.Forall₂
      (fun r r' : Record => r'.statement = r.statement ∧
      r'.body = r.body) p.records
      p.generated.1 := by
  unfold generated
  generalize p.records = records at h
  generalize Generation.new p = g
  induction records generalizing g with
  | nil => exact .nil
  | cons r rest ih =>
      have hplace := (Generation.step_spec g (h r List.mem_cons_self)).1.place
      have hfirst : (g.step r).1.statement = r.statement ∧
          (g.step r).1.body = r.body := by
        rw [hplace]
        exact ⟨rfl, rfl⟩
      exact .cons hfirst
        (ih (fun r hr => h r (List.mem_cons_of_mem _ hr)) (g.step r).2)

/-- **Literals of generated records.**  Every literal of the program is listed
once. -/
theorem listed_generated (options : Options) (statements : List Statement) :
    ((ofStatements options statements).generated.1.flatMap Record.listed).Perm
      (List.range
        (ofStatements options statements).layout.literals.literals.length) := by
  have hsame := forall₂_generated fun r hr =>
    (settled_ofStatements options statements r hr).ready
  have hlisted : ∀ {records others : List Record},
      List.Forall₂ (fun r r' : Record => r'.statement = r.statement ∧
        r'.body = r.body) records
        others → others.flatMap Record.listed = records.flatMap
          Record.listed := by
    intro records others h
    induction h with
    | nil => rfl
    | cons hfirst _ ih =>
        rw [List.flatMap_cons, List.flatMap_cons, ih, listed, listed, hfirst.2]
  rw [hlisted hsame]
  exact (pooled_unplaced options statements).normalize.listed

/-- The records of a program have the statements of its source, and an `END` if
it lacked one. -/
theorem ownStatements_generated (options : Options)
    (statements : List Statement) :
    ownStatements (ofStatements options statements).generated.1 =
      statements ++ Statement.supplied statements := by
  rw [← ownStatements_ofStatements options]
  refine ownStatements_congr ?_
  refine (forall₂_generated fun r hr =>
    (settled_ofStatements options statements r hr).ready).imp ?_
  rintro r r' ⟨hstatement, hbody⟩
  exact ⟨hstatement, by rw [hbody]⟩

end Program

end System370
