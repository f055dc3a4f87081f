import System370.Proofs.LinkedItems

/-!
# The entry point of a module

The end statement says where a program begins: at the value of its operand, or
at its first section if there is none.  No other statement touches the entry
point (`Generate.ending_generate_of_ne`), so it is one of these, or there is
none at all.

* `Deck.End.Given`: how the end item of a module comes about;
* `Generation.given_run`: the end item of a program comes about in this way;
* `Generation.ending_run`: it is the first section if no end statement has an
  operand;
* `Deck.End.Given.cases`: it names a section of the module, or a name from
  outside.
-/

namespace System370

/-- How an end item comes about: there is no end statement that gives one, or it
is the first section, or an end statement at one of some places has a value for
it. -/
inductive Deck.End.Given (t : SymbolTable) (P : Expression.Place → Prop) :
    Deck.End → Prop where
  | nothing : Given t P {}
  | first (h : t.sections ≠ []) : Given t P (Generate.defaultEnding t)
  | value {place : Expression.Place} {text : Bytes} {result : Expression.Result}
      {e : Deck.End} (hplace : P place)
        (hresult : (Expression.evaluate t place text).result = .ok result)
      (hending : Generate.endingAt? t result.value = some e) : Given t P e

/-- Whether a record is one of an end statement. -/
def Record.isEnd (r : Record) : Bool :=
  r.body = .located ∧ r.directive = some .ending

namespace Generate

variable {t : SymbolTable} {P : Expression.Place → Prop} {r : Record}
  {g : Generation}

/-- The entry point at a value depends on the sections only. -/
theorem endingAt?_congr (h : g.Reads t) (v : Value) :
    endingAt? g.symbols v = endingAt? t v := by
  have hsection : g.symbols.section? = t.section? := by rw [h.symbols]; rfl
  unfold endingAt?
  rw [hsection]

/-- The entry point where `END` names none is a matter of the table. -/
theorem defaultEnding_congr (h : g.Reads t) :
    defaultEnding g.symbols = defaultEnding t := by
  unfold defaultEnding
  rw [h.symbols]

/-- An end statement without an operand gives the first section, if there is
one. -/
theorem ending_endProgram_nil (hoperands : r.statement.operands = []) :
    (exec endProgram r g).2.2.ending =
      if g.symbols.sections ≠ [] then defaultEnding g.symbols else
        g.ending := by
  unfold endProgram
  rw [exec_bind, exec_bind]
  have hdrop : exec dropAll r g = ((), r, { g with bases := {} }) := rfl
  rw [hdrop, exec_statement]
  simp only [hoperands]
  rw [exec_bind, exec_generation]
  split
  · rw [exec_modifyGeneration]
  · rfl

/-- **An end statement gives an end item**, or leaves it as it is. -/
theorem ending_endProgram (h : g.Reads t) (hplace : P r.place) :
    (exec endProgram r g).2.2.ending = g.ending ∨
      Deck.End.Given t P (exec endProgram r g).2.2.ending := by
  unfold endProgram
  rw [exec_bind, exec_bind]
  have hdrop : exec dropAll r g = ((), r, { g with bases := {} }) := rfl
  rw [hdrop, exec_statement]
  simp only
  have hreads : Generation.Reads t { g with bases := {} } :=
    ⟨h.symbols, h.definitions⟩
  split
  · rw [exec_bind, exec_generation]
    split
    · rename_i hsections
      right
      rw [exec_modifyGeneration]
      simp only
      rw [defaultEnding_congr h]
      rw [h.symbols] at hsections
      exact .first hsections
    · exact .inl rfl
  · rename_i text _ _
    rw [exec_bind]
    have hkept := quiet_evaluate .plain text r { g with bases := {} }
    have hresult : (exec (evaluate .plain text) r { g with bases := {} }).1 =
        (Expression.evaluate t r.place text).result :=
      result_evaluate hreads _ _
    split
    · left
      exact ((quiet_report _ _ _ _).ending.trans hkept.ending)
    · rename_i result hok
      rw [hresult] at hok
      simp only [exec_bind, exec_generation]
      rw [endingAt?_congr (hreads.kept hkept)]
      split
      · rename_i ending hending
        exact .inr (.value hplace hok hending)
      · exact .inl ((quiet_report _ _ _ _).ending.trans hkept.ending)

/-- A step that leaves the end item alone. -/
def KeepsEnding {α : Type} (x : Generate α) : Prop :=
  ∀ r g, (exec x r g).2.2.ending = g.ending

section

variable {α β : Type}

/-- What is quiet leaves the entry point alone. -/
theorem Quiet.keepsEnding {x : Generate α} (hx : Quiet x) :
    KeepsEnding x := fun r g =>
  (hx r g).ending

theorem keepsEnding_bind {x : Generate α} {f : α → Generate β}
    (hx : KeepsEnding x) (hf : ∀ a, KeepsEnding (f a)) :
    KeepsEnding (x >>= f) := fun r g =>
  (hf _ _ _).trans (hx r g)

theorem keepsEnding_forM {items : List α} {f : α → Generate Unit}
    (hf : ∀ a, KeepsEnding (f a)) :
    KeepsEnding (items.forM f) := by
  induction items with
  | nil => exact (quiet_pure ()).keepsEnding
  | cons a rest ih => exact keepsEnding_bind (hf a) fun _ => ih

end

theorem keepsEnding_setBases (f : Generation → BaseRegisters) :
    KeepsEnding
      (modifyThe Generation fun g => { g with bases := f g } : Generate Unit) :=
  fun _ _ => rfl

theorem keepsEnding_useRegisters (v : Value) (remaining : Option Int64)
    (k : Nat) (registers : List Register) :
    KeepsEnding (useRegisters v remaining k registers) := by
  induction registers generalizing k with
  | nil => exact (quiet_pure _).keepsEnding
  | cons r rest ih =>
      refine keepsEnding_bind quiet_statement.keepsEnding fun s =>
        keepsEnding_bind quiet_generation.keepsEnding fun g => ?_
      simp only
      split
      · exact keepsEnding_bind (quiet_report _ _).keepsEnding fun _ =>
          keepsEnding_bind (keepsEnding_setBases _) fun _ => ih _
      · exact keepsEnding_bind (keepsEnding_setBases _) fun _ => ih _

/-- `USING` leaves the entry point alone. -/
theorem keepsEnding_useBases : KeepsEnding useBases := by
  refine keepsEnding_bind quiet_statement.keepsEnding fun s => ?_
  split
  · exact (quiet_pure _).keepsEnding
  · refine keepsEnding_bind (quiet_baseOperands _ _).keepsEnding
      fun registers => ?_
    split
    · exact (quiet_pure _).keepsEnding
    · refine keepsEnding_bind (quiet_evaluate _ _).keepsEnding fun outcome => ?_
      split
      · exact (quiet_report _ _).keepsEnding
      · simp only
        split
        · exact (quiet_report _ _).keepsEnding
        · exact keepsEnding_bind quiet_generation.keepsEnding fun _ =>
            keepsEnding_useRegisters _ _ _ _

theorem keepsEnding_dropOperand (operand : Nat × Bytes) :
    KeepsEnding (dropOperand operand) := by
  refine keepsEnding_bind quiet_statement.keepsEnding fun s =>
    keepsEnding_bind (quiet_register _ _).keepsEnding fun outcome => ?_
  split
  · exact (quiet_report _ _).keepsEnding
  · refine keepsEnding_bind quiet_generation.keepsEnding fun g => ?_
    simp only
    split
    · exact keepsEnding_bind (quiet_report _ _).keepsEnding fun _ =>
        keepsEnding_setBases _
    · exact keepsEnding_setBases _

/-- So does `DROP`. -/
theorem keepsEnding_dropBases : KeepsEnding dropBases := by
  refine keepsEnding_bind quiet_statement.keepsEnding fun s => ?_
  split
  · exact keepsEnding_setBases _
  · exact keepsEnding_forM keepsEnding_dropOperand

theorem ending_emit (data : Bytes) (r : Record) (g : Generation) :
    (exec (emit data) r g).2.2.ending = g.ending := by
  rw [exec_emit]
  split <;> rfl

/-- So does emission. -/
theorem ending_emitParts (parts : List (Int64 × Bytes)) (r : Record)
    (g : Generation) :
    (exec (emitParts parts) r g).2.2.ending = g.ending := by
  unfold emitParts
  rw [exec_bind, exec_record]
  split
  · exact ending_emit _ _ _
  · rfl

/-- **Generating a record leaves the end item alone**, unless it is an end
statement. -/
theorem ending_generate_of_ne (h : r.isEnd = false) :
    (exec generate r g).2.2.ending = g.ending := by
  unfold generate
  rw [exec_bind, exec_record]
  simp only
  split
  · rw [exec_bind, ending_emit]
    exact (quiet_instructionOctets _ r g).ending
  · rw [exec_bind, ending_emitParts]
    obtain ⟨_, hkept⟩ := steady_storageParts _ r g
    exact hkept.ending
  · rw [exec_bind, ending_emitParts]
    obtain ⟨_, hkept⟩ := steady_poolParts _ r g
    exact hkept.ending
  · exact (quiet_forM (fun _ => quiet_discard (quiet_evaluate _ _)) r g).ending
  · exact keepsEnding_useBases r g
  · exact keepsEnding_dropBases r g
  · rename_i hbody hdirective
    simp [Record.isEnd, hbody, hdirective] at h
  · split
    · rfl
    · exact ending_emit _ r g
  · rfl

/-- `END` has no octets; it says where the program begins. -/
theorem generate_isEnd (h : r.isEnd = true) :
    exec generate r g = exec endProgram r g := by
  obtain ⟨hbody, hdirective⟩ := of_decide_eq_true h
  unfold generate
  rw [exec_bind, exec_record]
  simp only [hbody, hdirective]

end Generate

namespace Generation

variable {t : SymbolTable} {P : Expression.Place → Prop}

/-- **One record** leaves an entry point that a record has given. -/
theorem given_step {r : Record} {g : Generation} (h : g.Reads t)
    (hplace : P r.place) (hgiven : Deck.End.Given t P g.ending) :
    Deck.End.Given t P (g.step r).2.ending := by
  unfold step
  split
  · exact hgiven
  · show Deck.End.Given t P (Generate.exec Generate.generate r g).2.2.ending
    cases hend : r.isEnd with
    | false =>
        rw [Generate.ending_generate_of_ne hend]
        exact hgiven
    | true =>
        rw [Generate.generate_isEnd hend]
        rcases Generate.ending_endProgram h hplace with hsame | hnew
        · exact hsame ▸ hgiven
        · exact hnew

/-- **The end item of a program** comes from its end statement. -/
theorem given_run {records : List Record} {g : Generation}
    (hready : ∀ r ∈ records, Ready r) (h : g.Reads t)
    (hplaces : ∀ r ∈ records, P r.place)
    (hgiven : Deck.End.Given t P g.ending) :
    Deck.End.Given t P (g.run records).2.ending := by
  induction records generalizing g with
  | nil => exact hgiven
  | cons r rest ih =>
      have hfirst := hready r List.mem_cons_self
      exact ih (fun r hr => hready r (List.mem_cons_of_mem _ hr))
        (h.adds (step_spec g hfirst).2)
        (fun r hr => hplaces r (List.mem_cons_of_mem _ hr))
        (given_step h (hplaces r List.mem_cons_self) hgiven)

/-- An end statement without an operand gives the first section; another record
gives nothing. -/
theorem ending_step {r : Record} {g : Generation} (h : g.Reads t)
    (hsections : t.sections ≠ []) (hclean : r.errored = false)
    (hfault : g.fault = none)
    (hplain : r.directive = some .ending → r.statement.operands = []) :
    (g.step r).2.ending = if r.isEnd then Generate.defaultEnding t else
      g.ending := by
  have hstep : (g.step r).2 = (Generate.exec Generate.generate r g).2.2 := by
    unfold step
    rw [if_neg (by simp [hclean, hfault])]
    rfl
  rw [hstep]
  cases hend : r.isEnd with
  | false => exact Generate.ending_generate_of_ne hend
  | true =>
      have hdirective : r.directive = some .ending := (of_decide_eq_true hend).2
      have hsome : g.symbols.sections ≠ [] := by rwa [h.symbols]
      rw [Generate.generate_isEnd hend,
        Generate.ending_endProgram_nil (hplain hdirective),
        if_pos hsome, Generate.defaultEnding_congr h]
      rfl

/-- **The end item of a program without an entry point** of its own is the first
section. -/
theorem ending_run {records : List Record} {g : Generation}
    (hready : ∀ r ∈ records, Ready r) (h : g.Reads t)
    (hsections : t.sections ≠ []) (hclean : ∀ r ∈ records, r.errored = false)
    (hplain : ∀ r ∈ records, r.directive = some .ending →
      r.statement.operands = []) (hfault : (g.run records).2.fault = none) :
    (g.run records).2.ending =
      if records.any Record.isEnd then Generate.defaultEnding t else
        g.ending := by
  induction records generalizing g with
  | nil => rfl
  | cons r rest ih =>
      have hfirst := hready r List.mem_cons_self
      have hstep := ending_step h hsections (hclean r List.mem_cons_self)
        (fault_of_run hfault)
        (hplain r List.mem_cons_self)
      have hrest := ih (fun r hr => hready r (List.mem_cons_of_mem _ hr))
        (h.adds (step_spec g hfirst).2)
        (fun r hr => hclean r (List.mem_cons_of_mem _ hr))
        (fun r hr => hplain r (List.mem_cons_of_mem _ hr)) hfault
      rw [hstep] at hrest
      show ((g.step r).2.run rest).2.ending = _
      rw [hrest, List.any_cons]
      cases r.isEnd <;> simp

end Generation

/-- The places of statements in the sections of a table. -/
def SymbolTable.Holds (t : SymbolTable) (place : Expression.Place) : Prop :=
  place.sectionId ≠ 0 → ∃ s, t.section? place.sectionId = some s

/-- **An end item** has no entry point, or one in a control section, or it names
an external symbol. -/
theorem Deck.End.Given.cases {t : SymbolTable} (hwf : t.WellFormed)
    {e : Deck.End} (h : Given t.normalize t.Holds e) :
    e = {} ∨
      (∃ s, 0 < e.sectionId ∧ t.normalize.section? e.sectionId = some s ∧
        e = { hasEntry := true, address := e.address, sectionId := e.sectionId,
              length := s.length }) ∨
      ∃ name, t.Knows (.external name 0) ∧ e = { hasEntry := true, name } := by
  cases h with
  | nothing => exact .inl rfl
  | first hsections =>
      right
      left
      obtain ⟨s, rest, hs⟩ := List.exists_cons_of_ne_nil hsections
      have hid : s.id = 1 := by
        have := hwf.numbered.control_normalize 0 s (by rw [hs]; rfl)
        omega
      have hdefault : Generate.defaultEnding t.normalize =
          { hasEntry := true, address := s.base, sectionId := s.id
            length := s.length } := by
        unfold Generate.defaultEnding
        rw [hs]
      rw [hdefault, hid]
      refine ⟨s, Int.one_pos, ?_, rfl⟩
      rw [SymbolTable.section?, if_pos Int.one_pos, hs]
      rfl
  | @value place text result e hplace hresult hending =>
      have hknown := hwf.targets_evaluate_normalize hplace hresult
      right
      unfold Generate.endingAt? at hending
      split at hending
      · rename_i name id sign hclass hterms
        right
        have hterm := hknown ⟨.external name id,
          sign⟩ (by rw [hterms]; exact List.mem_cons_self)
        obtain rfl : id = 0 := hterm.1
        exact ⟨name, hterm, (Option.some.inj hending).symm⟩
      · rename_i id sign hclass hterms
        left
        split at hending
        · rename_i hpos
          obtain rfl := Option.some.inj hending
          obtain ⟨s₀, hs₀⟩ :=
            hknown ⟨.origin id, sign⟩ (by rw [hterms]; exact List.mem_cons_self)
          obtain ⟨s, hs, -⟩ := hwf.numbered.exists_section?_normalize hs₀
          refine ⟨s, hpos, hs, ?_⟩
          simp [hs]
        · simp at hending
      · simp at hending

end System370
