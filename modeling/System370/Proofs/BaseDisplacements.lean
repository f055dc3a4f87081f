import System370.Proofs.BaseHistory
import System370.Proofs.ModuleText

/-!
# Base registers and displacements

An operand in storage that names no base register is addressed by the best
register that is in force.  The two octets of the operand then hold the number
of that register and the distance from what it is promised to hold.

* `Record.Asks`: the address that such an operand stands for, that of a literal
  or that of a label;
* `Generate.address_spec`: a step for an operand chooses the best register for
  it;
* `Generate.runs_address`: every operand of an instruction has its step and its
  octets;
* `Assembly.base_displacements`: so the octets of all instructions without
  errors are right, whatever came before them.
-/

namespace System370

/-! ### Two octets for an address -/

/-- The base register and the displacement that two octets hold. -/
def addressField? (code : Bytes) (offset : Nat) : Option BaseRegisters.Choice :=
  match code.drop offset with
  | high :: low :: _ =>
    some ⟨Fin.ofNat 16 (high.toNat / 16),
      Int64.ofNat (high.toNat % 16 * 256 + low.toNat)⟩
  | _ => none

/-- Where the base register and the displacement of an operand stand behind the
first two octets of an instruction: each operand in storage before it takes two
octets. -/
def Format.addressOffset (f : Format) (i : Nat) : Nat :=
  2 * (f.operands.take i).countP OperandForm.isStorage

/-- A register takes four bits, and a displacement in range twelve. -/
theorem addressField?_eq_some {code : Bytes} {offset : Nat}
    {c : BaseRegisters.Choice}
    (h : (code.drop offset).take 2 = Generate.baseDisplacement c)
    (hlow : 0 ≤ c.displacement) (hhigh : c.displacement < 4096) :
    addressField? code offset = some c := by
  have hlimit : (4096 : Int64).toInt = 4096 := by decide
  rw [Int64.le_iff_toInt_le, Int64.toInt_zero] at hlow
  rw [Int64.lt_iff_toInt_lt, hlimit] at hhigh
  obtain ⟨n, hn⟩ := Int.eq_ofNat_of_zero_le hlow
  have hregister := c.register.isLt
  have hput : Generate.baseDisplacement c =
      [(c.register.val * 16 + n / 256).toUInt8, (n % 256).toUInt8] := by
    have hhighOctet :
        (((c.register.val * 4096 + c.displacement.toInt) / 256) % 256).toNat =
        c.register.val * 16 + n / 256 := by
      omega
    have hlowOctet : ((c.register.val * 4096 + c.displacement.toInt) %
        256).toNat = n % 256 := by
      omega
    simp only [Generate.baseDisplacement, Field.put, hhighOctet, hlowOctet,
      List.nil_append, List.cons_append]
  rw [hput] at h
  have hdrop : code.drop offset =
      (c.register.val * 16 + n / 256).toUInt8 :: (n % 256).toUInt8 ::
      (code.drop offset).drop 2 := by
    conv => lhs; rw [← List.take_append_drop 2 (code.drop offset), h]
    rfl
  have hhighNat : (c.register.val * 16 + n / 256).toUInt8.toNat =
      c.register.val * 16 + n / 256 :=
    Nat.mod_eq_of_lt (by omega)
  have hlowNat : (n % 256).toUInt8.toNat = n % 256 :=
    Nat.mod_eq_of_lt (by omega)
  unfold addressField?
  rw [hdrop]
  simp only [hhighNat, hlowNat]
  have hfirst : (c.register.val * 16 + n / 256) / 16 = c.register.val := by
    omega
  have hrest : (c.register.val * 16 + n / 256) % 16 * 256 + n % 256 = n := by
    omega
  rw [hfirst, hrest]
  congr 2
  · exact Fin.ofNat_val_eq_self _
  · rw [← Int64.toInt_inj, hn, Int64.toInt_ofNat_of_lt (by omega)]

/-! ### Operands in storage -/

/-- The text of an operand. -/
def Record.operand (r : Record) (i : Nat) : Bytes :=
  r.statement.operands.getD i []

/-- The address, with its section, that an operand in storage stands for without
naming a base register: that of its literal, or that of a label with nothing or
too little in parentheses for a base register. -/
inductive Record.Asks (t : SymbolTable) (literals : LiteralPool) (r : Record)
    (i : Nat) (kind : Inner) : Int64 → Int → Prop where
  | literal {literal : Literal} {place : Literal.Place}
      (hbound : Generate.boundLiteral? r literals i = some literal)
      (hplace : literal.place = some place) :
        Asks t literals r i kind place.address literal.sectionId
  | label {result : Expression.Result}
      (htext : (r.operand i).head? ≠ some (octet '='))
      (hbase : (splitAddress (r.operand i)).2.length <
        if kind = .base then 1 else 2)
      (hresult : (Expression.evaluate t r.place
        (splitAddress (r.operand i)).1).result = .ok result)
      (hclass : result.value.classify = .relocatable) :
      Asks t literals r i kind result.value.number result.value.sectionId

/-- What an operand stands for depends on the statement and its place only. -/
theorem Record.Asks.congr {t : SymbolTable} {literals : LiteralPool}
    {r r' : Record} {i : Nat} {kind : Inner} {address : Int64}
    {sectionId : Int} (h : r.Asks t literals i kind address sectionId)
    (hstatement : r'.statement = r.statement) (hplace : r'.place = r.place)
    (hbody : r'.body = r.body) :
    r'.Asks t literals i kind address sectionId := by
  have hoperand : r'.operand i = r.operand i := by
    rw [Record.operand, hstatement]; rfl
  have hbound : Generate.boundLiteral? r' literals i =
      Generate.boundLiteral? r literals i := by
    rw [Generate.boundLiteral?, hbody]
    rfl
  cases h with
  | literal hliteral hspot => exact .literal (hbound.trans hliteral) hspot
  | label htext hbase hresult hclass =>
      rw [← hoperand] at htext hbase hresult
      rw [← hplace] at hresult
      exact .label htext hbase hresult hclass

/-- An instruction whose operands are counted and whose literals are those of
its operands. -/
structure Record.Bound (literals : LiteralPool) (r : Record) : Prop where
  counted : ∀ op bound, r.body = .instruction op bound → r.errored = false →
    op.operandCount ≤ r.statement.operands.length
  bound : ∀ op bound, r.body = .instruction op bound → ∀ b ∈ bound, ∃ literal,
    literals.literals[b.2]? = some literal ∧
      r.statement.operands[b.1]? = some literal.text ∧
      literal.text.head? = some (octet '=') ∧ literal.sectionId = r.sectionId

/-- The literal of an operand has the text of the operand. -/
theorem Record.Bound.boundLiteral? {literals : LiteralPool} {r : Record}
    (h : r.Bound literals) {i : Nat} {literal : Literal}
    (hliteral : Generate.boundLiteral? r literals i = some literal) :
    literal ∈ literals.literals ∧ literal.text = r.operand i ∧
      (r.operand i).head? = some (octet '=') ∧
      literal.sectionId = r.sectionId := by
  unfold Generate.boundLiteral? at hliteral
  split at hliteral
  · rename_i op bound hbody
    obtain ⟨b, hb, hget⟩ := Option.bind_eq_some_iff.mp hliteral
    obtain ⟨literal', hget', htext, hhead, hsection⟩ :=
      h.bound op bound hbody b (List.mem_of_find?_eq_some hb)
    obtain rfl := Option.some.inj (hget.symm.trans hget')
    have hi : b.1 = i := by simpa using List.find?_some hb
    have hoperand : r.operand i = literal.text := by
      rw [Record.operand, List.getD_eq_getElem?_getD, ← hi, htext]
      rfl
    exact ⟨List.mem_of_getElem? hget, hoperand.symm, hoperand ▸ hhead, hsection⟩
  · simp at hliteral

namespace Generate

variable {t : SymbolTable} {r : Record} {g : Generation}

/-- Steps that leave promises alone keep what is best. -/
theorem Kept.promised {more : List Deck.Relocation} {r' : Record}
    {g' : Generation} (h : Kept more r g r' g')
    (register : Register) (d : Domain) :
    g'.bases.Promises register d ↔ g.bases.Promises register d := by
  unfold BaseRegisters.Promises
  rw [h.promises]

/-- **Looking for a base register** gives the best one, or an error. -/
theorem implicitBase_spec (operand : StorageOperand) {v : Value}
    (hclass : v.classify = .relocatable) :
    (exec (implicitBase operand v) r g).1.1.choice.Best g.bases.Promises
      v.number v.sectionId ∨
      ∃ problem, (exec (implicitBase operand v) r g).1.2 = some problem ∧
        problem.severity.isError = true := by
  have hresolve : (∃ c, (exec (resolve v) r g).1 = .ok c ∧
        c.Best g.bases.Promises v.number v.sectionId) ∨
      ∃ problem, (exec (resolve v) r g).1 = .error problem ∧
        problem.severity.isError = true := by
    unfold resolve
    simp only [hclass]
    split
    · exact Or.inr ⟨_, rfl, rfl⟩
    · rw [exec_bind, exec_generation]
      simp only
      cases hchoice : g.bases.choose? v.number v.sectionId with
      | none =>
          have hnone : g.bases.resolve v.number v.sectionId =
              (none, g.bases) := by
            simp [BaseRegisters.resolve, hchoice]
          rw [hnone]
          exact Or.inr ⟨_, rfl, rfl⟩
      | some c =>
          have hsome : (g.bases.resolve v.number v.sectionId).1 = some c := by
            simp [BaseRegisters.resolve, hchoice]
          rw [hsome]
          exact Or.inl ⟨c, rfl, BaseRegisters.choose?_spec hchoice⟩
  unfold implicitBase
  rw [exec_bind]
  rcases hresolve with ⟨c, hc, hbest⟩ | ⟨problem, hproblem, herror⟩
  · rw [hc]
    exact Or.inl hbest
  · rw [hproblem]
    exact Or.inr ⟨problem, rfl, herror⟩

/-- What is written first in parentheses has a value, or there is an error. -/
theorem isError_innerValue {kind : Inner} {parts : List Bytes}
    {problem : Problem}
    (h : (exec (innerValue kind parts) r g).1 = .error problem) :
    problem.severity.isError = true := by
  unfold innerValue at h
  split at h
  · cases h
  · cases h
  · rename_i text _ _
    split at h
    · cases h
    · split at h
      · rw [exec_bind] at h
        cases hvalue : (exec (register .plain text) r g).1 with
        | error problem' =>
            rw [hvalue] at h
            obtain rfl : problem' = problem := Except.error.inj h
            exact isError_register hvalue
        | ok n =>
            rw [hvalue] at h
            cases h
      · rw [exec_bind] at h
        cases hvalue : (exec (absolute .plain text) r g).1 with
        | error problem' =>
            rw [hvalue] at h
            obtain rfl : problem' = problem := Except.error.inj h
            exact isError_absolute hvalue
        | ok n =>
            rw [hvalue] at h
            cases h

/-- **An operand that is a label** gets the best register for its address, or
there is an error. -/
theorem expressionOperand_spec (h : g.Reads t) {kind : Inner} {usage : Usage}
    {text : Bytes} {result : Expression.Result}
    (hbase : (splitAddress text).2.length < if kind = .base then 1 else 2)
    (hresult : (Expression.evaluate t r.place (splitAddress text).1).result =
      .ok result) (hclass : result.value.classify = .relocatable) :
    (exec (expressionOperand kind usage text) r g).1.1.choice.Best
      g.bases.Promises result.value.number result.value.sectionId ∨
      ∃ problem,
        (exec (expressionOperand kind usage text) r g).1.2 = some problem ∧
          problem.severity.isError = true := by
  unfold expressionOperand
  simp only
  generalize (if kind = Inner.base then 1 else 2) = allowed at *
  rw [if_neg (by omega), exec_bind]
  have hevaluated : (exec (evaluate usage (splitAddress text).1) r g).1 =
      .ok result :=
    (result_evaluate h _ _).trans hresult
  have hkept := quiet_evaluate usage (splitAddress text).1 r g
  rw [hevaluated]
  generalize exec (evaluate usage (splitAddress text).1) r g =
    evaluated at hkept
  obtain ⟨_, r₁, g₁⟩ := evaluated
  simp only at hkept ⊢
  rw [exec_bind]
  have hkept' := hkept.trans (quiet_innerValue kind (splitAddress text).2 r₁ g₁)
  cases hinner : (exec (innerValue kind (splitAddress text).2) r₁ g₁).1 with
  | error problem => exact Or.inr ⟨problem, rfl, isError_innerValue hinner⟩
  | ok inner =>
      simp only
      rw [if_neg (by omega)]
      refine (implicitBase_spec _ hclass).imp (fun hbest => ?_) id
      exact hbest.congr (hkept'.promised)

/-- **An operand in storage** that names no base register gets the best one, or
there is an error. -/
theorem storageOperand_spec (h : g.Reads t) {op : Instruction}
    {kind : Inner} {i : Nat}
    (hunbound : (r.operand i).head? ≠ some (octet '=') →
      boundLiteral? r g.literals i = none) {address : Int64}
    {sectionId : Int} (hasks : r.Asks t g.literals i kind address sectionId) :
    (exec (storageOperand op kind i (r.operand i)) r g).1.1.choice.Best
      g.bases.Promises address sectionId ∨
      ∃ problem,
        (exec (storageOperand op kind i (r.operand i)) r g).1.2 =
          some problem ∧
          problem.severity.isError = true := by
  unfold storageOperand
  rw [exec_bind, exec_record, exec_bind, exec_generation]
  simp only
  cases hasks with
  | literal hbound hplace =>
      rw [hbound]
      simp only [hplace, Option.map_some, Option.getD_some]
      exact implicitBase_spec (v := Value.relocatable _ _) _ rfl
  | label htext hbase hresult hclass =>
      rw [hunbound htext]
      simp only
      rw [if_neg htext]
      exact expressionOperand_spec h hbase hresult hclass

/-- A literal is bound to its operand, or there is an error. -/
theorem storageOperand_literal {op : Instruction} {kind : Inner} {i : Nat}
    {text : Bytes} (htext : text.head? = some (octet '=')) :
    (∃ literal, boundLiteral? r g.literals i = some literal) ∨
      ∃ problem, (exec (storageOperand op kind i text) r g).1.2 = some problem ∧
        problem.severity.isError = true := by
  unfold storageOperand
  rw [exec_bind, exec_record, exec_bind, exec_generation]
  simp only
  cases boundLiteral? r g.literals i with
  | some literal => exact Or.inl ⟨literal, rfl⟩
  | none =>
      simp only
      rw [if_pos htext]
      exact Or.inr ⟨_, rfl, rfl⟩

/-- An operand of a record without errors has no problem that is one. -/
theorem address_clean {op : Instruction} {kind : Inner}
    {i : Nat} (hok : (exec (address op kind i) r g).2.1.errored = false) :
    (exec (address op kind i) r g).1 =
      (exec (storageOperand op kind i (r.operand i)) r g).1.1 ∧
      ¬ ∃ problem,
      (exec (storageOperand op kind i (r.operand i)) r g).1.2 = some problem ∧
        problem.severity.isError = true := by
  unfold address at hok ⊢
  rw [exec_bind] at hok ⊢
  have htext : exec (operandText i) r g =
      ((r.operand i, r.statement.operandCursor i), r, g) := rfl
  rw [htext] at hok ⊢
  simp only at hok ⊢
  rw [exec_bind] at hok ⊢
  generalize exec (storageOperand op kind i (r.operand i)) r g = out at hok ⊢
  obtain ⟨⟨operand, problem⟩, r₁, g₁⟩ := out
  simp only at hok ⊢
  cases problem with
  | none =>
      simp only
      refine ⟨?_, by simp⟩
      split
      · rw [exec_bind]
        rfl
      · rfl
  | some problem =>
      simp only [exec_bind] at hok ⊢
      refine ⟨?_, ?_⟩
      · split
        · rw [exec_bind]
          rfl
        · rfl
      rintro ⟨_, hsame, herror⟩
      obtain rfl := Option.some.inj hsame
      have hreported : (exec (report (r.statement.operandCursor i) problem) r₁
          g₁).2.1.errored = true :=
        Bool.or_eq_true_iff.mpr (Or.inr herror)
      -- noting the address keeps an error that there is
      refine Bool.false_ne_true (hok.symm.trans ?_)
      split
      · exact (quiet_noteAddress _ _ _ _ _ _).errored hreported
      · exact hreported

/-- **An operand of a record without errors** has the best register for its
address, and a literal is bound to it if it asks for one. -/
theorem address_spec (h : g.Reads t) {op : Instruction} {kind : Inner} {i : Nat}
    (hunbound : (r.operand i).head? ≠ some (octet '=') →
      boundLiteral? r g.literals i = none)
    (hok : (exec (address op kind i) r g).2.1.errored = false) :
    ((r.operand i).head? = some (octet '=') → ∃ literal,
      boundLiteral? r g.literals i = some literal) ∧
      ∀ address sectionId, r.Asks t g.literals i kind address sectionId →
        (exec (Generate.address op kind i) r g).1.choice.Best g.bases.Promises
          address sectionId := by
  obtain ⟨hsame, hclean⟩ := address_clean hok
  rw [hsame]
  exact ⟨fun htext => (storageOperand_literal htext).resolve_right hclean,
    fun address sectionId hasks =>
      (storageOperand_spec h hunbound hasks).resolve_right hclean⟩

/-! ### Steps of a step -/

section Runs

variable {α β γ : Type}

/-- Whether a step runs another one on its way, and nothing that changes a
promise before or behind it.  `P` relates what both of them give. -/
def Runs (x : Generate α) (y : Generate β) (P : α → β → Prop) : Prop :=
  ∀ r g, ∃ r₁ g₁, Kept [] r g r₁ g₁ ∧
    Kept [] (exec y r₁ g₁).2.1 (exec y r₁ g₁).2.2 (exec x r g).2.1
      (exec x r g).2.2 ∧
    P (exec x r g).1 (exec y r₁ g₁).1

/-- The step that is run stands in front. -/
theorem runs_now {y : Generate β} {f : β → Generate α} {P : α → β → Prop}
    (hf : ∀ b, Quiet (f b)) (hP : ∀ b r g, P (exec (f b) r g).1 b) :
    Runs (y >>= f) y P :=
  fun r g => ⟨r, g, Kept.refl r g, hf _ _ _, hP _ _ _⟩

/-- The step that is run stands behind. -/
theorem runs_later {x : Generate γ} {f : γ → Generate α} {y : Generate β}
    {P : α → β → Prop} (hx : Quiet x) (hf : ∀ c, Runs (f c) y P) :
    Runs (x >>= f) y P := by
  intro r g
  obtain ⟨r₁, g₁, hbefore, hbehind, hP⟩ :=
    hf (exec x r g).1 (exec x r g).2.1 (exec x r g).2.2
  exact ⟨r₁, g₁, (hx r g).trans hbefore, hbehind, hP⟩

end Runs

theorem length_baseDisplacement (c : BaseRegisters.Choice) :
    (baseDisplacement c).length = 2 :=
  Field.length_put 2 _

/-- The octets of the first and of the second operand in storage. -/
theorem addressOctets_first (first : StorageOperand)
    (rest : List StorageOperand) :
    (addressOctets (first :: rest)).take 2 = baseDisplacement first.choice := by
  simp [addressOctets, List.take_left' (length_baseDisplacement _)]

theorem addressOctets_second (first second : StorageOperand)
    (rest : List StorageOperand) :
    ((addressOctets (first :: second :: rest)).drop 2).take 2 =
      baseDisplacement second.choice := by
  simp [addressOctets, List.drop_left' (length_baseDisplacement _),
    List.take_left' (length_baseDisplacement _)]

section Octets

variable {f : StorageOperand → Generate (Nat × Bytes)}
  {y : Generate StorageOperand}

/-- A step for the first operand in storage, whose octets stand in front. -/
theorem runs_first (hf : ∀ b, Quiet (f b))
    (hoctets : ∀ b r g, ∃ rest,
      (exec (f b) r g).1.2 = addressOctets (b :: rest)) :
    Runs (y >>= f) y fun out operand => (out.2.drop 0).take 2 =
      baseDisplacement operand.choice := by
  refine runs_now hf fun b r g => ?_
  obtain ⟨rest, hrest⟩ := hoctets b r g
  rw [hrest]
  exact addressOctets_first b rest

/-- A step for the second operand in storage, whose octets stand behind those of
the first. -/
theorem runs_second {first : StorageOperand} (hf : ∀ b, Quiet (f b))
    (hoctets : ∀ b r g, (exec (f b) r g).1.2 = addressOctets [first, b]) :
    Runs (y >>= f) y fun out operand => (out.2.drop 2).take 2 =
      baseDisplacement operand.choice := by
  refine runs_now hf fun b r g => ?_
  rw [hoctets b r g]
  exact addressOctets_second first b []

end Octets

/-- **Every operand in storage has its step**, and its octets behind those of
the others before it. -/
theorem runs_address {op : Instruction} {i : Nat} {kind : Inner}
    (h : op.format.operands[i]? = some (.storage kind)) :
    Runs (fields op) (address op kind i) fun out operand =>
      (out.2.drop (op.format.addressOffset i)).take 2 =
          baseDisplacement operand.choice := by
  unfold fields
  simp only
  -- a format says where its operands in storage are, so the position leaves one
  -- or two cases
  cases hformat : op.format with
  | rr => rcases i with _ | _ | i <;> simp [hformat, Format.operands] at h
  | rrSingle => rcases i with _ | i <;> simp [hformat, Format.operands] at h
  | rrImmediate => rcases i with _ | i <;> simp [hformat, Format.operands] at h
  | rrMask => rcases i with _ | i <;> simp [hformat, Format.operands] at h
  | sNone => simp [hformat, Format.operands] at h
  | rx =>
      rcases i with _ | _ | i <;> simp [hformat, Format.operands] at h
      subst h
      exact runs_later (quiet_registerField 0) fun _ =>
        runs_first (fun _ => quiet_pure _) fun b r g => ⟨[], rfl⟩
  | rxMask =>
      rcases i with _ | i <;> simp [hformat, Format.operands] at h
      subst h
      exact runs_first (fun _ => quiet_pure _) fun b r g => ⟨[], rfl⟩
  | rs =>
      rcases i with _ | _ | _ | i <;> simp [hformat, Format.operands] at h
      subst h
      exact runs_later (quiet_registerField 0) fun _ =>
        runs_later (quiet_registerField 1) fun _ =>
        runs_first (fun _ => quiet_pure _) fun b r g => ⟨[], rfl⟩
  | rsShift =>
      rcases i with _ | _ | i <;> simp [hformat, Format.operands] at h
      subst h
      exact runs_later (quiet_registerField 0) fun _ =>
        runs_first (fun _ => quiet_pure _) fun b r g => ⟨[], rfl⟩
  | si =>
      rcases i with _ | _ | i <;> simp [hformat, Format.operands] at h
      subst h
      exact runs_first
        (fun _ => quiet_bind (quiet_immediateField _ _) fun _ => quiet_pure _)
        fun b r g => ⟨[], rfl⟩
  | s =>
      rcases i with _ | i <;> simp [hformat, Format.operands] at h
      subst h
      exact runs_first (fun _ => quiet_pure _) fun b r g => ⟨[], rfl⟩
  | ssLength =>
      rcases i with _ | _ | i <;> simp [hformat, Format.operands] at h
      · subst h
        exact runs_first (fun _ => quiet_bind (quiet_address _ _ _) fun _ =>
          quiet_bind (quiet_lengthField _ _ _) fun _ =>
            quiet_pure _) fun b r g => ⟨[_], rfl⟩
      · subst h
        exact runs_later (quiet_address _ _ _) fun first =>
          runs_second (fun _ => quiet_bind (quiet_lengthField _ _ _) fun _ =>
            quiet_pure _)
            fun b r g => rfl
  | ssLengths =>
      rcases i with _ | _ | i <;> simp [hformat, Format.operands] at h
      · subst h
        exact runs_first (fun _ => quiet_bind (quiet_address _ _ _) fun _ =>
          quiet_bind (quiet_lengthField _ _ _) fun _ =>
            quiet_bind (quiet_lengthField _ _ _) fun _ =>
            quiet_pure _) fun b r g => ⟨[_], rfl⟩
      · subst h
        exact runs_later (quiet_address _ _ _) fun first =>
          runs_second (fun _ => quiet_bind (quiet_lengthField _ _ _) fun _ =>
            quiet_bind (quiet_lengthField _ _ _) fun _ =>
              quiet_pure _) fun b r g => rfl
  | ssShift =>
      rcases i with _ | _ | _ | i <;> simp [hformat, Format.operands] at h
      · subst h
        exact runs_first (fun _ => quiet_bind (quiet_address _ _ _) fun _ =>
          quiet_bind (quiet_lengthField _ _ _) fun _ =>
            quiet_bind (quiet_immediateField _ _) fun _ =>
            quiet_pure _) fun b r g => ⟨[_], rfl⟩
      · subst h
        exact runs_later (quiet_address _ _ _) fun first =>
          runs_second (fun _ => quiet_bind (quiet_lengthField _ _ _) fun _ =>
            quiet_bind (quiet_immediateField _ _) fun _ =>
              quiet_pure _) fun b r g => rfl

/-- The octets of an operand in an instruction that has all its operands. -/
theorem instructionOctets_spec {op : Instruction} {i : Nat}
    {kind : Inner} (h : op.format.operands[i]? = some (.storage kind))
    (hcounted : op.operandCount ≤ r.statement.operands.length) :
    ∃ r₁ g₁, Kept [] r g r₁ g₁ ∧
      ((exec (instructionOctets op) r g).2.1.errored = false →
        (exec (address op kind i) r₁ g₁).2.1.errored = false) ∧
      ((exec (instructionOctets op) r g).1.drop
        (2 + op.format.addressOffset i)).take 2 =
        baseDisplacement (exec (address op kind i) r₁ g₁).1.choice := by
  obtain ⟨r₁, g₁, hbefore, hbehind, hoctets⟩ := runs_address h r g
  unfold instructionOctets
  rw [exec_bind, exec_statement, if_neg (Nat.not_lt.mpr hcounted), exec_bind]
  refine ⟨r₁, g₁, hbefore, fun hok => ?_, ?_⟩
  · exact Bool.eq_false_iff.mpr fun herror =>
      Bool.false_ne_true (hok.symm.trans (hbehind.errored herror))
  · have hdrop : ∀ (second : UInt8) (rest : Bytes),
        (op.skeleton.take 1 ++ [second] ++ rest).drop
          (2 + op.format.addressOffset i) =
          rest.drop (op.format.addressOffset i) := by
      intro second rest
      rw [← List.drop_drop]
      rfl
    rw [← hoctets]
    exact congrArg (List.take 2) (hdrop _ _)

/-- **An instruction without errors** has the best register in the octets of
each operand that names none. -/
theorem generate_operand (h : g.Reads t) (hbound : r.Bound g.literals)
    (hready : r.errored = false) {op : Instruction}
    {bound : List (Nat × Nat)} (hbody : r.body = .instruction op bound)
    (hok : (exec generate r g).2.1.errored = false) {i : Nat}
    {kind : Inner} (hi : op.format.operands[i]? = some (.storage kind)) :
    ∃ code c, (exec generate r g).2.1.object = some code ∧
      (code.drop (2 + op.format.addressOffset i)).take 2 = baseDisplacement c ∧
      ((r.operand i).head? = some (octet '=') →
        ∃ literal, boundLiteral? r g.literals i = some literal) ∧
      ∀ address sectionId, r.Asks t g.literals i kind address sectionId →
        c.Best g.bases.Promises address sectionId := by
  have hgenerate : exec generate r g =
      exec (emit (exec (instructionOctets op) r g).1)
      (exec (instructionOctets op) r g).2.1
        (exec (instructionOctets op) r g).2.2 := by
    unfold generate
    rw [exec_bind, exec_record]
    simp only [hbody]
    rfl
  rw [hgenerate, exec_emit] at hok ⊢
  simp only at hok ⊢
  obtain ⟨r₁, g₁, hkept, herrors, hoctets⟩ :=
    instructionOctets_spec (g := g) hi (hbound.counted op bound hbody hready)
  have hrecord := hkept.record
  have hoperand : r₁.operand i = r.operand i := by rw [hrecord]; rfl
  have hliteral : boundLiteral? r₁ g₁.literals i =
      boundLiteral? r g.literals i := by
    rw [hrecord, hkept.literals]
    rfl
  have hunbound : (r₁.operand i).head? ≠ some (octet '=') →
      boundLiteral? r₁ g₁.literals i = none := by
    rw [hoperand, hliteral]
    intro htext
    cases hsome : boundLiteral? r g.literals i with
    | none => rfl
    | some literal => exact absurd (hbound.boundLiteral? hsome).2.2.1 htext
  obtain ⟨hliterals, hbest⟩ :=
    address_spec (h.kept hkept) hunbound (herrors hok)
  rw [hoperand, hliteral] at hliterals
  refine ⟨_, _, rfl, hoctets, hliterals, fun address sectionId hasks => ?_⟩
  refine (hbest address sectionId ?_).congr hkept.promised
  rw [hkept.literals]
  exact hasks.congr (by rw [hrecord]) (by rw [hrecord]; rfl) (by rw [hrecord])

end Generate

namespace Generation

/-- Every record is generated in some state. -/
theorem mem_run {g : Generation} {records : List Record} {r : Record}
    (h : r ∈ records) :
    ∃ g' : Generation, (g'.step r).1 ∈ (g.run records).1 := by
  induction records generalizing g with
  | nil => simp at h
  | cons first rest ih =>
      rcases List.mem_cons.mp h with rfl | h
      · exact ⟨g, List.mem_cons_self⟩
      · obtain ⟨g', hmem⟩ := ih (g := (g.step first).2) h
        exact ⟨g', List.mem_cons_of_mem _ hmem⟩

/-- What registers hold before a record is what the records before it
promise. -/
theorem promises_before {t : SymbolTable} {p : Program}
    (hready : ∀ r ∈ p.records, Ready r) (h : (new p).Reads t)
    {n : Nat} (hfault : ((new p).run (p.records.take n)).2.fault = none)
    (register : Register) (d : Domain) :
    ((new p).run (p.records.take n)).2.bases.Promises register d ↔
      InForce t (p.records.take n) register d := by
  rw [BaseRegisters.Promises,
    promise?_run (fun r hr => hready r (List.mem_of_mem_take hr)) h hfault]
  have hnew : (new p).bases.promise? register = none :=
    BaseRegisters.promise?_empty register
  simp [hnew]

/-- An instruction that is generated without errors, after the records before
it. -/
theorem step_operand {t : SymbolTable} {r : Record} {g : Generation}
    (h : g.Reads t) (hfault : g.fault = none)
    (hbound : r.Bound g.literals) {op : Instruction} {bound : List (Nat × Nat)}
    (hbody : r.body = .instruction op bound)
    (hok : (g.step r).1.errored = false) {i : Nat}
    {kind : Inner} (hi : op.format.operands[i]? = some (.storage kind)) :
    ∃ code c, (g.step r).1.object = some code ∧
      (code.drop (2 + op.format.addressOffset i)).take
        2 = Generate.baseDisplacement c ∧
      ((r.operand i).head? = some (octet '=') →
        ∃ literal, Generate.boundLiteral? r g.literals i = some literal) ∧
      ∀ address sectionId, r.Asks t g.literals i kind address sectionId →
        c.Best g.bases.Promises address sectionId := by
  cases hready : r.errored with
  | true =>
      simp only [step, hready, true_or, if_true] at hok
      cases hok
  | false =>
      have hstep : g.step r = ((Generate.exec Generate.generate r g).2.1,
          (Generate.exec Generate.generate r g).2.2) := by
        simp only [step, hready, hfault]
        rfl
      rw [hstep] at hok ⊢
      exact Generate.generate_operand h hbound hready hbody hok hi

end Generation

/-! ### Programs -/

namespace Program

/-- A moved instruction keeps its literals and their texts. -/
theorem bound_ofStatements (options : Options) (statements : List Statement) :
    ∀ r ∈ (ofStatements options statements).records,
      r.Bound (ofStatements options statements).layout.literals := by
  obtain ⟨-, hplaced⟩ := unplaced_spec options statements
  intro r hr
  obtain ⟨r₀, hr₀, rfl⟩ := List.mem_map.mp hr
  refine ⟨fun op bound hbody =>
    (hplaced r₀ hr₀).counted op bound (body_moveRecord_eq_instruction.mp hbody),
    fun op bound hbody b hb => ?_⟩
  obtain ⟨literal, hliteral, htext, hhead, hsection⟩ :=
    (hplaced r₀ hr₀).bound op bound
      (body_moveRecord_eq_instruction.mp hbody) b hb
  exact ⟨_, getElem?_normalize hliteral, htext, hhead, hsection⟩

/-- **Every literal has its place in a pool.** -/
theorem pooled_ofStatements (options : Options) (statements : List Statement) :
    ∀ literal ∈ (ofStatements options statements).layout.literals.literals,
      ∃ place, literal.place = some place ∧
      ∃ pool ∈ (ofStatements options statements).records,
        pool.sectionId = literal.sectionId ∧
        ∃ d, literal.descriptor = some d ∧ (d, place.address - pool.loc) ∈
          pool.constants (ofStatements options statements).layout.literals := by
  obtain ⟨hwf, hplaced⟩ := unplaced_spec options statements
  intro literal hl
  obtain ⟨old, hold, rfl⟩ := List.mem_map.mp hl
  obtain ⟨hplace, r, hr, ids, hbody, hid⟩ :=
    unplaced_pooled options statements old hold
  obtain ⟨spot, hspot⟩ := Option.isSome_iff_exists.mp hplace
  obtain ⟨d, hd, -⟩ := hwf.described old hold
  have hget :=
    (unplaced options statements).layout.literals.inStep.getElem?_id hold
  obtain ⟨old', hget', hsection, -⟩ :=
    (hplaced r hr).pooled ids hbody old.id hid
  obtain rfl := Option.some.inj (hget.symm.trans hget')
  let t := (unplaced options statements).layout.symbols.normalize
  refine ⟨{ spot with address := spot.address + t.offset old.sectionId },
    by simp [hspot, t], moveRecord t r, List.mem_map_of_mem hr, hsection.symm,
    d, hd, ?_⟩
  rw [Record.constants_of_pool (body_moveRecord_eq_pool.mpr hbody)]
  refine List.mem_filterMap.mpr ⟨old.id, hid, ?_⟩
  have hliteral :
      (ofStatements options statements).layout.literals.literals[old.id]? = _ :=
    getElem?_normalize hget
  rw [hliteral, Option.bind_some, LiteralPool.constantFrom,
    Literal.descriptor_moved, hd, Literal.place_moved, hspot]
  rfl

/-- **An instruction of a program without faults** has the best registers, as
the records before it promise them. -/
theorem operand_generated {t : SymbolTable}
    {p : Program} (hready : ∀ r ∈ p.records, Generation.Ready r)
    (hbound : ∀ r ∈ p.records, r.Bound p.layout.literals)
    (hnew : (Generation.new p).Reads t) (hfault : p.generated.2.fault = none)
    {n : Nat} {r : Record} (hr : p.generated.1[n]? = some r) {op : Instruction}
    {bound : List (Nat × Nat)}
    (hbody : r.body = .instruction op bound) (hok : r.errored = false) {i : Nat}
    {kind : Inner} (hi : op.format.operands[i]? = some (.storage kind)) :
    ∃ code c, r.object = some code ∧
      (code.drop (2 + op.format.addressOffset i)).take
        2 = Generate.baseDisplacement c ∧
      ((r.operand i).head? = some (octet '=') →
        ∃ literal ∈ p.layout.literals.literals,
        Generate.boundLiteral? r p.layout.literals i = some literal ∧
        literal.text = r.operand i) ∧
      ∀ address sectionId, r.Asks t p.layout.literals i kind address sectionId →
        c.Best (InForce t (p.records.take n)) address sectionId := by
  -- the record before it was generated, and the state that was reached by then
  rw [generated, Generation.getElem?_run] at hr
  obtain ⟨r₀, hr₀, hstep⟩ := Option.map_eq_some_iff.mp hr
  have hmem : r₀ ∈ p.records := List.mem_of_getElem? hr₀
  obtain ⟨-, hadds⟩ :=
    @Generation.run_spec (p.records.take n) (Generation.new p)
    fun r hr => hready r (List.mem_of_mem_take hr)
  have hfault₀ : ((Generation.new p).run (p.records.take n)).2.fault = none :=
    Generation.fault_run_take hfault n
  have hpromises := Generation.promises_before hready hnew hfault₀
  generalize ((Generation.new p).run (p.records.take n)).2 = g at *
  have hliterals : g.literals = p.layout.literals := hadds.literals
  have hsame := (Generation.step_spec g (hready r₀ hmem)).1.place
  rw [hstep] at hsame
  have hbody₀ : r₀.body = .instruction op bound := by rw [← hbody, hsame]
  have hbound₀ := hbound r₀ hmem
  rw [← hliterals] at hbound₀ ⊢
  obtain ⟨code, c, hcode, hoctets, hliteral, hbest⟩ :=
    Generation.step_operand (hnew.adds hadds) hfault₀ hbound₀ hbody₀
      (hstep ▸ hok) hi
  have hoperand : r.operand i = r₀.operand i := by rw [hsame]; rfl
  have hboundLiteral : Generate.boundLiteral? r g.literals i =
      Generate.boundLiteral? r₀ g.literals i := by
    rw [hsame]
    rfl
  refine ⟨code, c, hstep ▸ hcode, hoctets, fun htext => ?_,
    fun address sectionId hasks => ?_⟩
  · obtain ⟨literal, hbind⟩ := hliteral (hoperand ▸ htext)
    obtain ⟨hpooled, htext', -⟩ := hbound₀.boundLiteral? hbind
    exact ⟨literal, hpooled, hboundLiteral.trans hbind,
      htext'.trans hoperand.symm⟩
  · refine (hbest address sectionId (hasks.congr ?_ ?_ ?_)).congr hpromises
    · rw [hsame]
    · rw [hsame]
      rfl
    · rw [hsame]

end Program

theorem Record.body_of_instruction? {r : Record}
    {op : Instruction} (h : r.instruction? = some op) :
    ∃ bound, r.body = .instruction op bound := by
  unfold instruction? at h
  split at h
  · rename_i op' bound hbody
    obtain rfl := Option.some.inj h
    exact ⟨bound, hbody⟩
  · cases h

namespace Assembly

variable {options : Options} {source today : Bytes} {a : Assembly}
  {statements : List Statement}

/-- Whether some pool of an assembly has a literal at an address. -/
def Pools (a : Assembly) (literal : Literal) (address : Int64) : Prop :=
  ∃ pool ∈ a.records, pool.sectionId = literal.sectionId ∧ ∃ d,
    literal.descriptor = some d ∧
    (d, address - pool.loc) ∈ pool.constants a.literals

/-- Every literal of an assembly is in some pool. -/
theorem Made.pools
    (h : a.Made options (Program.ofStatements options statements))
    {literal : Literal} (hl : literal ∈ a.literals.literals) :
    ∃ place, literal.place = some place ∧ a.Pools literal place.address := by
  rw [h.literals] at hl
  obtain ⟨place, hplace, pool, hpool, hsection, d, hd, hmem⟩ :=
    Program.pooled_ofStatements options statements literal hl
  refine ⟨place, hplace, ?_⟩
  obtain ⟨g, hgenerated⟩ := Generation.mem_run
    (g := Generation.new (Program.ofStatements options statements)) hpool
  have hready :=
    (Program.settled_ofStatements options statements pool hpool).ready
  have hsame := (Generation.step_spec g hready).1.place
  refine ⟨(g.step pool).1, h.records ▸ hgenerated, ?_, d, hd, ?_⟩
  · rw [hsame]
    exact hsection
  · rw [h.literals, hsame]
    exact hmem

/-- **Base registers and displacements are right over whole runs.**  In every
instruction without errors, the octets of an operand in storage that names no
base register hold a register and a displacement such that

* the register is in force, by the last `USING` before the instruction that
  names it, and nothing before the instruction took that back;
* the displacement leads from what the register holds to the address of the
  operand, within its section, in twelve bits and within what is left of the
  section;
* no other register in force leads there by a smaller displacement, and none
  that is higher by the same.

An operand that is a literal has such an address, which is that of the literal
in a pool. -/
theorem base_displacements (hrun : assemble options source today = .ok a)
    (hread : Statement.readAll source = .ok statements) {n : Nat} {r : Record}
    (hr : a.records[n]? = some r) {op : Instruction} {bound : List (Nat × Nat)}
    (hbody : r.body = .instruction op bound) (hok : r.errored = false) {i : Nat}
    {kind : Inner} (hi : op.format.operands[i]? = some (.storage kind)) :
    ((r.operand i).head? = some (octet '=') → ∃ literal place,
      Generate.boundLiteral? r a.literals i = some literal ∧
      literal.text = r.operand i ∧
        literal.place = some place ∧ a.Pools literal place.address) ∧
    ∀ address sectionId, r.Asks a.symbols a.literals i kind address sectionId →
      ∃ code c, r.object = some code ∧
        addressField? code (2 + op.format.addressOffset i) = some c ∧
        c.Best (InForce a.symbols
          ((Program.ofStatements options statements).records.take n))
          address sectionId := by
  obtain ⟨hcontained, hmade⟩ := of_assemble hrun hread
  have hready : ∀ r ∈ (Program.ofStatements options statements).records,
      Generation.Ready r :=
    fun r hr => (Program.settled_ofStatements options statements r hr).ready
  have hnew : (Generation.new (Program.ofStatements options statements)).Reads
      a.symbols := by
    have hstart :
        (Generation.new (Program.ofStatements options statements)).Reads
        (Program.ofStatements options statements).layout.symbols :=
      ⟨rfl, fun _ => rfl⟩
    rw [hmade.table]
    exact hstart.between (Program.reads_generated hready)
  rw [hmade.records] at hr
  obtain ⟨code, c, hcode, hoctets, hliteral, hbest⟩ :=
    Program.operand_generated hready
      (Program.bound_ofStatements options statements) hnew hcontained.unbroken hr
      hbody hok hi
  rw [← hmade.literals] at hliteral hbest
  refine ⟨fun htext => ?_, fun address sectionId hasks => ?_⟩
  · obtain ⟨literal, hmem, hbind, htext'⟩ := hliteral htext
    obtain ⟨place, hplace, hpools⟩ := hmade.pools hmem
    exact ⟨literal, place, hbind, htext', hplace, hpools⟩
  · have hchoice := hbest address sectionId hasks
    obtain ⟨d, -, hcovers⟩ := hchoice.covers
    exact ⟨code, c, hcode,
      addressField?_eq_some hoctets hcovers.nonneg hcovers.small, hchoice⟩

/-- A literal behind a `DROP`: of the registers that are left, the one with the
smaller displacement addresses it. -/
theorem base_displacements_dropped :
    ∃ source statements a r op bound, ∃ literal : Literal,
      ∃ place : Literal.Place,
      Statement.readAll source = .ok statements ∧ assemble {} source = .ok a ∧
      a.records[6]? = some r ∧ r.body = .instruction op bound ∧
      r.errored = false ∧
      op.format.operands[1]? = some (.storage .index) ∧
      Generate.boundLiteral? r a.literals 1 = some literal ∧
      literal.place = some place ∧
      place.address = 8 ∧ a.Pools literal 8 ∧
      r.object = some [0x58, 0x10, 0x80, 0x06] ∧
      (⟨8, 6⟩ : BaseRegisters.Choice).Best
        (InForce a.symbols
          ((Program.ofStatements {} statements).records.take 6)) 8 1 := by
  have hassembled := exists_assemble_of_any {} (bytes (String.append
      "A CSECT\n BALR 12,0\n USING *,12,11\n USING A,9\n USING A+2,8\n"
      " DROP 12\n L 1,=F'5'\n END\n"))
    (fun _ a => a.records[6]?.any fun r => r.instruction?.any fun op =>
      (Generate.boundLiteral? r a.literals 1).any fun literal =>
        decide (r.errored = false ∧
        op.format.operands[1]? = some (.storage .index) ∧
        literal.place = some ⟨8, 4⟩ ∧ literal.sectionId = 1 ∧
        (r.operand 1).head? = some (octet '=') ∧
        r.object = some [0x58, 0x10, 0x80, 0x06] ∧
          op.format.addressOffset 1 = 0)) (by decide +kernel)
  obtain ⟨statements, a, hread, hrun, hcheck⟩ := hassembled
  obtain ⟨r, hr, hcheck⟩ := (Option.any_eq_true _ _).mp hcheck
  obtain ⟨op, hop, hcheck⟩ := (Option.any_eq_true _ _).mp hcheck
  obtain ⟨literal, hbound, hcheck⟩ := (Option.any_eq_true _ _).mp hcheck
  obtain ⟨bound, hbody⟩ := Record.body_of_instruction? hop
  obtain ⟨hok, hi, hplace, hsection, htext, hobject, hoffset⟩ :=
    of_decide_eq_true hcheck
  obtain ⟨hliteral, hasked⟩ := base_displacements hrun hread hr hbody hok hi
  obtain ⟨literal', place, hbound', -, hplace', hpools⟩ := hliteral htext
  obtain rfl := Option.some.inj (hbound.symm.trans hbound')
  obtain rfl := Option.some.inj (hplace.symm.trans hplace')
  obtain ⟨code, c, hcode, hfield, hbest⟩ := hasked _ _ (.literal hbound hplace)
  obtain rfl := Option.some.inj (hobject.symm.trans hcode)
  rw [hoffset] at hfield
  have hc : (⟨8, 6⟩ : BaseRegisters.Choice) = c := Option.some.inj hfield
  exact ⟨_, statements, a, r, op, bound, literal, ⟨8, 4⟩, hread, hrun, hr,
    hbody, hok, hi, hbound, hplace, rfl, hpools, hobject, hc ▸ hsection ▸ hbest⟩

end Assembly

end System370
