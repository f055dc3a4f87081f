import System370.Proofs.OperandValues

/-!
# Fields of instructions

The second octet of an instruction is shared by registers, masks, lengths and
immediate values, and two octets for each operand in storage follow it.
`Format.parts` says which part of the second octet belongs to which operand,
`Format.field?` reads the fields of an operand back, and `Format.clear` clears
them.

* `Generate.Gives`: what steps give that report no errors, and how this goes
  through a sequence;
* `Generate.encodes_instructionOctets`: in an instruction without errors the
  fields hold what the operands stand for, and nothing else of it depends on
  them.
-/

namespace System370

/-! ### Parts of the second octet -/

/-- A part of the second octet. -/
inductive Part where
  | high
  | low
  | whole
  deriving DecidableEq, Repr

namespace Part

/-- The number in a part of an octet. -/
def read (o : UInt8) : Part → Nat
  | high => o.toNat / 16
  | low => o.toNat % 16
  | whole => o.toNat

/-- An octet without one of its parts. -/
def clear (o : UInt8) : Part → UInt8
  | high => (o.toNat % 16).toUInt8
  | low => (o.toNat / 16 * 16).toUInt8
  | whole => 0

theorem toNat_octet {n : Nat} (h : n < 256) : n.toUInt8.toNat = n :=
  Nat.mod_eq_of_lt h

variable {a b : Nat} (ha : a < 16)

include ha

/-- A digit of its own in an octet is read back. -/
theorem read_alone : high.read (a * 16).toUInt8 = a := by
  rw [read, toNat_octet (by omega)]
  omega

/-- Nothing else is in that octet. -/
theorem clear_alone : high.clear (a * 16).toUInt8 = 0 := by
  rw [clear, toNat_octet (by omega), Nat.mul_mod_left]
  rfl

variable (hb : b < 16)

include hb

/-- The digit on the left is read back. -/
theorem read_high : high.read (a * 16 + b).toUInt8 = a := by
  rw [read, toNat_octet (by omega)]
  omega

/-- So is the digit on the right. -/
theorem read_low : low.read (a * 16 + b).toUInt8 = b := by
  rw [read, toNat_octet (by omega)]
  omega

/-- Clearing the right digit leaves the left one. -/
theorem clear_low : low.clear (a * 16 + b).toUInt8 = (a * 16).toUInt8 := by
  rw [clear, toNat_octet (by omega)]
  congr 2
  omega

end Part

/-- Nothing is left of an octet without both of its halves. -/
theorem Part.clear_halves (o : UInt8) :
    Part.clear (Part.clear o .high) .low = 0 := by
  have hlow : o.toNat % 16 < 16 := Nat.mod_lt _ (by decide)
  rw [clear, clear, toNat_octet (by omega), Nat.div_eq_of_lt hlow]
  rfl

/-- What the fields of an operand hold. -/
inductive OperandField where
  | register (number : Nat)
  | immediate (octet : Nat)
  /-- The index register or the length code, if the operand has such a field,
  and the base register with the displacement. -/
  | storage (inner : Option Nat) (choice : BaseRegisters.Choice)
  deriving DecidableEq, Repr

namespace Format

/-- The part of the second octet that each operand has.  Some operands in
storage have none. -/
def parts : Format → List (Option Part)
  | rr => [some .high, some .low]
  | rrSingle => [some .high]
  | rrImmediate => [some .whole]
  | rrMask => [some .low]
  | rx => [some .high, some .low]
  | rxMask => [some .low]
  | rs => [some .high, some .low, none]
  | rsShift => [some .high, none]
  | si => [none, some .whole]
  | s => [none]
  | sNone => []
  | ssLength => [some .whole, none]
  | ssLengths => [some .high, some .low]
  | ssShift => [some .high, none, some .low]

/-- The number that an operand has in the second octet. -/
def number? (f : Format) (code : Bytes) (i : Nat) : Option Nat :=
  (f.parts[i]?.join).bind fun part => code[1]?.map fun second =>
    part.read second

/-- What an instruction holds in the fields of an operand. -/
def field? (f : Format) (code : Bytes) (i : Nat) : Option OperandField :=
  match f.operands[i]? with
  | some .register => (f.number? code i).map .register
  | some (.immediate _) => (f.number? code i).map .immediate
  | some (.storage _) =>
    (addressField? code (2 + f.addressOffset i)).map
      (.storage (f.number? code i))
  | none => none

/-- An instruction without the fields of its operands. -/
def clear (f : Format) : Bytes → Bytes
  | first :: second :: rest =>
    first :: (f.parts.filterMap id).foldl Part.clear second ::
      (if f.operands.any OperandForm.isStorage then
        List.replicate rest.length 0 else rest)
  | code => code

end Format

/-- The number of octets of the code of an instruction. -/
def Instruction.codeLength (op : Instruction) : Nat :=
  if op.code ≤ 0xFF then 1 else 2

/-- The length code of a length: one less, and zero for the length zero. -/
def lengthCode (n : Int64) : Nat := n.toInt.toNat - 1

/-- A length code stays below its limit. -/
theorem lengthCode_lt {n : Int64} {limit : Nat} (h : n.toInt ≤ limit)
    (hlimit : 0 < limit) :
    lengthCode n < limit := by
  rw [lengthCode]
  omega

/-- Whether the fields of an operand hold what the operand of a record is.  An
immediate octet is held modulo 256.  The length of an operand in storage is the
one that is written, or else that of its expression. -/
inductive Record.Determines (t : SymbolTable) (literals : LiteralPool)
    (holds : Register → Domain → Prop) (r : Record) (i : Nat) :
      OperandForm → OperandField → Prop where
  | register {q : Register} (h : r.register? t (r.operand i) = some q) :
      Determines t literals holds r i .register (.register q.val)
  | immediate {limit octet : Nat} {n : Int64}
      (h : (Expression.absolute t r.place (r.operand i)).result = .ok n)
      (hrange : (if limit = 0xFF then -128 else 0) ≤ n.toInt ∧ n.toInt ≤ limit)
      (hoctet : (octet : Int) = n.toInt % 256) :
      Determines t literals holds r i (.immediate limit) (.immediate octet)
  | base {operand : StorageOperand}
      (h : r.Denotes t literals holds i .base operand) :
      Determines t literals holds r i (.storage .base)
        (.storage none operand.choice)
  | index {operand : StorageOperand} {index : Nat}
      (h : r.Denotes t literals holds i .index operand)
      (hindex : (index : Int) = (operand.inner.getD 0).toInt) :
      Determines t literals holds r i (.storage .index)
        (.storage (some index) operand.choice)
  | length {operand : StorageOperand} {n : Int64}
      (h : r.Denotes t literals holds i .length operand)
      (hlength : operand.inner.getD operand.length = n) (hnonneg : 0 ≤ n) :
      Determines t literals holds r i (.storage .length)
        (.storage (some (lengthCode n)) operand.choice)

/-- Whether an instruction holds in the fields of an operand what the operand
is. -/
def Record.Encoded (t : SymbolTable) (literals : LiteralPool)
    (holds : Register → Domain → Prop) (r : Record) (f : Format) (code : Bytes)
    (i : Nat) (form : OperandForm) : Prop :=
  ∃ field, f.field? code i = some field ∧
    r.Determines t literals holds i form field

/-- Whether an instruction encodes the operands of a record, given what is known
when it is generated: its octets are those of the instruction, and the fields of
all operands hold what the operands are. -/
structure Record.Encodes (r : Record) (g : Generation) (op : Instruction)
    (code : Bytes) : Prop where
  length : code.length = op.length
  /-- The code of the instruction, in one octet or in two. -/
  opcode : code.take op.codeLength = op.skeleton.take op.codeLength ∧
    Field.get (code.take op.codeLength) = op.code
  /-- The mask of an extended branch. -/
  mask : op.format = .rrMask ∨ op.format = .rxMask → ∃ second,
    code[1]? = some second ∧
    op.skeleton[1]?.map (Part.read · .high) = some (Part.read second .high) ∧
    Part.read second .high = op.mask
  /-- Nothing else depends on the operands. -/
  cleared : op.format.clear code = op.skeleton
  operands : ∀ i form, op.format.operands[i]? = some form →
    r.Encoded g.symbols g.literals g.bases.Promises op.format code i form

namespace Generate

variable {t : SymbolTable} {r : Record} {g : Generation} {α β : Type}

/-! ### Steps without errors -/

/-- Whether a step reports no errors. -/
def Clean (x : Generate α) (r : Record) (g : Generation) : Prop :=
  ∀ d ∈ (exec x r g).2.2.diagnostics.drop g.diagnostics.length,
    d.severity.isError = false

/-- Steps in sequence report no errors if none of them does. -/
theorem clean_bind {x : Generate α} {f : α → Generate β} (hx : Quiet x)
    (hf : ∀ a, Quiet (f a)) :
    Clean (x >>= f) r g ↔
      Clean x r g ∧
      Clean (f (exec x r g).1) (exec x r g).2.1 (exec x r g).2.2 := by
  obtain ⟨more, hmore⟩ := (hx r g).diagnostics
  obtain ⟨others, hothers⟩ :=
    (hf (exec x r g).1 (exec x r g).2.1 (exec x r g).2.2).diagnostics
  unfold Clean
  rw [exec_bind, ← hothers, ← hmore]
  simp [List.append_assoc, or_imp, forall_and]

/-- A diagnostic leaves a statement clean if it is no error. -/
theorem clean_report {cursor : Cursor} {problem : Problem} :
    Clean (report cursor problem) r g ↔ problem.severity.isError = false := by
  have hexec : (exec (report cursor problem) r g).2.2.diagnostics =
      g.diagnostics ++ [⟨cursor, problem⟩] := rfl
  simp [Clean, hexec, Diagnostic.severity]

/-- A step that adds nothing, and what it gives in states that such steps lead
to, unless it reports an error. -/
structure Gives (r : Record) (g : Generation) (x : Generate α)
    (P : α → Prop) : Prop where
  quiet : Quiet x
  result : ∀ r₁ g₁, Kept [] r g r₁ g₁ → Clean x r₁ g₁ → P (exec x r₁ g₁).1

theorem gives_pure {a : α} {P : α → Prop} (h : P a) : Gives r g (pure a) P :=
  ⟨quiet_pure a, fun _ _ _ _ => h⟩

/-- What two steps give, one behind the other. -/
theorem Gives.bind {x : Generate α} {f : α → Generate β} {P : α → Prop}
    {Q : β → Prop} (hx : Gives r g x P)
    (hf : ∀ a, Gives r g (f a) fun b => P a → Q b) : Gives r g (x >>= f) Q := by
  have hquiet := fun a => (hf a).quiet
  refine ⟨quiet_bind hx.quiet hquiet, fun r₁ g₁ hkept hclean => ?_⟩
  obtain ⟨hfirst, hrest⟩ := (clean_bind hx.quiet hquiet).mp hclean
  exact (hf _).result _ _ (hkept.trans (hx.quiet r₁ g₁)) hrest
    (hx.result r₁ g₁ hkept hfirst)

/-- Of any quiet step it can be said that it gives something. -/
theorem Quiet.gives {x : Generate α} (hx : Quiet x) :
    Gives r g x fun _ => True :=
  ⟨hx, fun _ _ _ _ => trivial⟩

/-- No error is reported. -/
theorem gives_report (cursor : Cursor) (problem : Problem) :
    Gives r g (report cursor problem) fun _ =>
      problem.severity.isError = false :=
  ⟨quiet_report cursor problem, fun _ _ _ hclean => clean_report.mp hclean⟩

/-! ### Fields -/

/-- The operands stay those of the statement. -/
theorem Kept.operand {more : List Deck.Relocation} {r' : Record}
    {g' : Generation} (h : Kept more r g r' g') (i : Nat) :
    r'.operand i = r.operand i := by
  rw [h.record]
  rfl

theorem gives_operandText (i : Nat) :
    Gives r g (operandText i) fun out => out.1 = r.operand i :=
  ⟨quiet_operandText i, fun _ _ hkept _ => hkept.operand i⟩

/-- An absolute expression gives the value in the table. -/
theorem gives_absolute (h : g.Reads t) (usage : Usage) (text : Bytes) :
    Gives r g (absolute usage text) fun outcome =>
      outcome = (Expression.absolute t r.place text).result :=
  ⟨quiet_absolute usage text,
    fun _ _ hkept _ => hkept.place ▸ result_absolute (h.kept hkept) usage text⟩

/-- A register operand gives its number, and what is wrong with it is an
error. -/
theorem gives_register (h : g.Reads t) (usage : Usage) (text : Bytes) :
    Gives r g (register usage text) fun outcome =>
      (∀ q, outcome = .ok q → r.register? t text = some q) ∧
        ∀ problem, outcome = .error problem → problem.severity.isError = true :=
  ⟨quiet_register usage text, fun _ _ hkept _ =>
    ⟨fun q hq => by
      rw [← Record.register?_congr t hkept.place,
        ← register_eq_ok_iff (h.kept hkept), hq],
    fun _ => isError_register⟩⟩

/-- A register field holds the register that the operand names. -/
theorem gives_registerField (h : g.Reads t) (i : Nat) :
    Gives r g (registerField i) fun n =>
      ∃ q, r.register? t (r.operand i) = some q ∧ n = q.val := by
  refine (gives_operandText i).bind fun x =>
    (gives_register h _ _).bind fun outcome => ?_
  cases outcome with
  | ok q =>
      refine gives_pure fun hregister htext => ⟨q, ?_, rfl⟩
      rw [← htext]
      exact hregister.1 q rfl
  | error problem =>
      refine (gives_report _ _).bind fun _ => gives_pure fun hok hregister => ?_
      exact absurd (hregister.2 problem rfl) (Bool.eq_false_iff.mp hok)

/-- An immediate field holds the number of the operand. -/
theorem gives_immediateField (h : g.Reads t) (i : Nat) {limit : Nat}
    (hlimit : limit ≤ 0xFF) :
    Gives r g (immediateField i limit) fun octet => ∃ n : Int64,
      (Expression.absolute t r.place (r.operand i)).result = .ok n ∧
        (if limit = 0xFF then -128 else 0) ≤ n.toInt ∧ n.toInt ≤ limit ∧
        (octet : Int) = n.toInt % 256 := by
  have hint : (Int64.ofNat limit).toInt = limit :=
    Int64.toInt_ofNat_of_lt (by omega)
  have hzero : (0 : Int64).toInt = 0 := rfl
  have hlow : (-128 : Int64).toInt = -128 := rfl
  refine (gives_operandText i).bind fun x =>
    (gives_absolute h _ _).bind fun outcome => ?_
  cases outcome with
  | error problem =>
      refine (gives_report _ _).bind fun _ => gives_pure fun hok hproblem => ?_
      exact absurd (Expression.isError_absolute hproblem.symm)
        (Bool.eq_false_iff.mp hok)
  | ok n =>
      simp only [Int64.lt_iff_toInt_lt, Int64.le_iff_toInt_le, hint,
        hzero, hlow]
      split
      · rename_i hnegative
        refine gives_pure fun hn htext => ⟨n, htext ▸ hn.symm, ?_⟩
        rw [if_pos hnegative.1]
        omega
      · split
        · refine (gives_report _ _).bind fun _ => gives_pure fun hok => ?_
          cases hok
        · refine gives_pure fun hn htext => ⟨n, htext ▸ hn.symm, ?_⟩
          split <;> omega

/-- An operand in storage that is accepted is what it stands for. -/
theorem gives_storageOperand (h : g.Reads t) (op : Instruction) (kind : Inner)
    (i : Nat) (text : Bytes) :
    Gives r g (storageOperand op kind i text) fun out => Grave out ∧
      (text = r.operand i → out.2 = none →
        r.Denotes t g.literals g.bases.Promises i kind out.1) := by
  refine ⟨quiet_storageOperand op kind i _, fun r₁ g₁ hkept _ =>
    ⟨grave_storageOperand op kind i _, fun htext hnone => ?_⟩⟩
  rw [htext, ← hkept.operand] at hnone ⊢
  have hok : (exec (storageOperand op kind i (r₁.operand i)) r₁ g₁).1 =
      (_, none) := Prod.ext rfl hnone
  exact hkept.denotes ((storageOperand_eq_iff (h.kept hkept)).mp hok)

/-- A storage operand gives what the statement denotes. -/
theorem gives_address (h : g.Reads t) (op : Instruction)
    (kind : Inner) (i : Nat) :
    Gives r g (address op kind i)
      (r.Denotes t g.literals g.bases.Promises i kind) := by
  refine (gives_operandText i).bind fun x => ?_
  obtain ⟨text, cursor⟩ := x
  refine (gives_storageOperand h op kind i text).bind fun out => ?_
  obtain ⟨operand, problem⟩ := out
  cases problem with
  | some problem =>
      refine (gives_report _ _).bind fun _ => ?_
      split
      · exact (quiet_noteAddress _ _ _ _).gives.bind fun _ =>
          gives_pure fun _ hok hproblem =>
          absurd (hproblem.1 problem rfl) (Bool.eq_false_iff.mp hok)
      · exact gives_pure fun hok hproblem =>
          absurd (hproblem.1 problem rfl) (Bool.eq_false_iff.mp hok)
  | none =>
      simp only
      split
      · exact (quiet_noteAddress _ _ _ _).gives.bind fun _ =>
          gives_pure fun _ hdenotes htext =>
          hdenotes.2 htext trivial
      · exact gives_pure fun hdenotes htext => hdenotes.2 htext trivial

/-- A length field holds the length that is written or implied. -/
theorem gives_lengthField (operand : StorageOperand) (i : Nat) {limit : Nat}
    (hlimit : limit ≤ 256) :
    Gives r g (lengthField operand i limit) fun n =>
      0 ≤ operand.inner.getD operand.length ∧
      (operand.inner.getD operand.length).toInt ≤ limit ∧
      n = lengthCode (operand.inner.getD operand.length) := by
  have hint : (Int64.ofNat limit).toInt = limit :=
    Int64.toInt_ofNat_of_lt (by omega)
  unfold lengthField
  generalize operand.inner.getD operand.length = n
  have hzero : (0 : Int64).toInt = 0 := rfl
  simp only [Int64.lt_iff_toInt_lt, Int64.le_iff_toInt_le, hint,
    ← Int64.toInt_inj, hzero]
  split
  · rename_i hn
    exact gives_pure ⟨by omega, by omega, by simp [lengthCode, hn]⟩
  · split
    · refine quiet_statement.gives.bind fun _ =>
        (gives_report _ _).bind fun _ => gives_pure fun hok => ?_
      cases hok
    · exact gives_pure ⟨by omega, by omega, rfl⟩

/-! ### Operands in their fields -/

section Encoded

variable {literals : LiteralPool} {holds : Register → Domain → Prop}
  {f : Format} {first second : UInt8} {rest : Bytes} {i n : Nat}
  {operand : StorageOperand} {part : Part} {kind : Inner}

/-- The number in a field of the second octet. -/
theorem number?_eq (hpart : f.parts[i]? = some (some part)) :
    f.number? (first :: second :: rest) i = some (part.read second) := by
  simp [Format.number?, hpart]

/-- A register stands in its field. -/
theorem encoded_register
    (h : ∃ q, r.register? t (r.operand i) = some q ∧ n = q.val)
    (hform : f.operands[i]? = some .register)
    (hpart : f.parts[i]? = some (some part)) (hread : part.read second = n) :
    r.Encoded t literals holds f (first :: second :: rest) i .register := by
  obtain ⟨q, hq, rfl⟩ := h
  exact ⟨.register
    q.val, by simp [Format.field?, hform, number?_eq hpart, hread],
    .register hq⟩

/-- An immediate value stands in its field. -/
theorem encoded_immediate {limit : Nat}
    (h : ∃ m : Int64,
      (Expression.absolute t r.place (r.operand i)).result = .ok m ∧
        (if limit = 0xFF then -128 else 0) ≤ m.toInt ∧ m.toInt ≤ limit ∧
      (n : Int) = m.toInt % 256)
    (hform : f.operands[i]? = some (.immediate limit))
    (hpart : f.parts[i]? = some (some part)) (hread : part.read second = n) :
    r.Encoded t literals holds f (first :: second :: rest) i
      (.immediate limit) := by
  obtain ⟨m, hm, hlow, hhigh, hoctet⟩ := h
  exact ⟨.immediate n, by simp [Format.field?, hform, number?_eq hpart, hread],
    .immediate hm ⟨hlow, hhigh⟩ hoctet⟩

/-- The fields of an operand in storage. -/
theorem field?_storage (h : r.Denotes t literals holds i kind operand)
    (hform : f.operands[i]? = some (.storage kind))
    (hoctets : (rest.drop (f.addressOffset i)).take 2 =
      baseDisplacement operand.choice) :
    f.field? (first :: second :: rest) i =
      some
        (.storage (f.number? (first :: second :: rest) i) operand.choice) := by
  have hdrop : (first :: second :: rest).drop (2 + f.addressOffset i) =
      rest.drop (f.addressOffset i) := by
    rw [← List.drop_drop]
    rfl
  have haddress := addressField?_eq_some (hdrop ▸ hoctets) h.bounds.1 h.bounds.2
  simp [Format.field?, hform, haddress]

/-- A base and its displacement stand in the two octets of the operand. -/
theorem encoded_base (h : r.Denotes t literals holds i .base operand)
    (hform : f.operands[i]? = some (.storage .base))
    (hpart : f.parts[i]? = some none)
    (hoctets : (rest.drop (f.addressOffset i)).take 2 =
      baseDisplacement operand.choice) :
    r.Encoded t literals holds f (first :: second :: rest) i
      (.storage .base) := by
  have hn : f.number? (first :: second :: rest) i = none := by
    simp [Format.number?, hpart]
  exact ⟨_, field?_storage h hform hoctets, hn ▸ .base h⟩

/-- An index stands in its field beside them. -/
theorem encoded_index (h : r.Denotes t literals holds i .index operand)
    (hform : f.operands[i]? = some (.storage .index))
    (hpart : f.parts[i]? = some (some part))
    (hread : part.read second = indexField operand)
    (hoctets : (rest.drop (f.addressOffset i)).take 2 =
      baseDisplacement operand.choice) :
    r.Encoded t literals holds f (first :: second :: rest) i
      (.storage .index) := by
  obtain ⟨index, -, hindex⟩ := h.index
  refine ⟨_, field?_storage h hform hoctets, ?_⟩
  rw [number?_eq hpart, hread]
  refine .index h ?_
  rw [indexField, hindex]
  rfl

/-- A length stands in its field, one less than it is. -/
theorem encoded_length (h : r.Denotes t literals holds i .length operand)
    (hnonneg : 0 ≤ operand.inner.getD operand.length)
    (hform : f.operands[i]? = some (.storage .length))
    (hpart : f.parts[i]? = some (some part))
    (hread : part.read second = lengthCode (operand.inner.getD operand.length))
    (hoctets : (rest.drop (f.addressOffset i)).take 2 =
      baseDisplacement operand.choice) :
    r.Encoded t literals holds f (first :: second :: rest) i
      (.storage .length) := by
  refine ⟨_, field?_storage h hform hoctets, ?_⟩
  rw [number?_eq hpart, hread]
  exact .length h rfl hnonneg

end Encoded

/-- An index is the number of a register. -/
theorem indexField_lt {literals : LiteralPool}
    {holds : Register → Domain → Prop} {i : Nat} {operand : StorageOperand}
    (h : r.Denotes t literals holds i .index operand) :
    indexField operand < 16 := by
  obtain ⟨index, hlt, hindex⟩ := h.index
  rw [indexField, hindex]
  exact hlt

/-- What holds of the first operand and of those behind it holds of all of
them. -/
theorem forall_operands_cons {P : Nat → OperandForm → Prop}
    {first : OperandForm} {rest : List OperandForm} :
    (∀ i form, (first :: rest)[i]? = some form → P i form) ↔
    P 0 first ∧ ∀ i form, rest[i]? = some form → P (i + 1) form := by
  constructor
  · exact fun h => ⟨h 0 first rfl, fun i form => h (i + 1) form⟩
  · rintro ⟨hfirst, hrest⟩ (_ | i) form hform
    · obtain rfl := Option.some.inj hform
      exact hfirst
    · exact hrest i form hform

/-- Whether an instruction consists of the fields of its operands, which hold
what the operands are, and of what is there before operands are filled in. -/
structure Filled (t : SymbolTable) (literals : LiteralPool)
    (holds : Register → Domain → Prop) (r : Record) (op : Instruction)
    (second : UInt8) (rest : Bytes) : Prop where
  cleared : (op.format.parts.filterMap id).foldl Part.clear second =
    op.secondOctet
  zeros : op.format.operands.any OperandForm.isStorage = false →
    rest = List.replicate rest.length 0
  operands : ∀ first i form, op.format.operands[i]? = some form →
    r.Encoded t literals holds op.format (first :: second :: rest) i form

/-- The octets of an instruction are filled if each operand is in its field and
what is left is clear. -/
theorem Filled.of_format {literals : LiteralPool}
    {holds : Register → Domain → Prop} {op : Instruction}
    {f : Format} {second : UInt8} {rest : Bytes} (hformat : op.format = f)
    (hcleared : (f.parts.filterMap id).foldl Part.clear second = op.secondOctet)
    (hzeros : f.operands.any OperandForm.isStorage = false →
      rest = List.replicate rest.length 0)
    (hoperands : ∀ first i form, f.operands[i]? = some form →
      r.Encoded t literals holds f (first :: second :: rest) i form) :
    Filled t literals holds r op second rest := by
  subst hformat
  exact ⟨hcleared, hzeros, hoperands⟩

/-- What the second octet of an instruction is before operands are filled in. -/
theorem of_mem_table {op : Instruction} (hop : op ∈ Instruction.table) :
    (op.format ∉ [.rrMask, .rxMask, .s, .sNone] → op.secondOctet = 0) ∧
      op.mask < 16 ∧
      (0xFF < op.code → op.format = .s ∨ op.format = .sNone) := by
  have htable : ∀ op ∈ Instruction.table,
      (op.format ∉ [.rrMask, .rxMask, .s, .sNone] → op.secondOctet = 0) ∧
        op.mask < 16 ∧
        (0xFF < op.code → op.format = .s ∨ op.format = .sNone) := by
    decide +kernel
  exact htable op hop

/-- The number of a register fits into half an octet. -/
theorem register_lt {i n : Nat}
    (h : ∃ q, r.register? t (r.operand i) = some q ∧ n = q.val) :
    n < 16 := by
  obtain ⟨q, -, rfl⟩ := h
  exact q.isLt

/-- An implied mask stands in the first half of the second octet. -/
theorem secondOctet_of_mask {op : Instruction} (hop : op ∈ Instruction.table)
    (hformat : op.format = .rrMask ∨ op.format = .rxMask) :
    op.secondOctet = (op.mask * 16).toUInt8 ∧
      op.secondOctet.toNat = op.mask * 16 := by
  obtain ⟨-, hmask, -⟩ := of_mem_table hop
  have hsecond : op.secondOctet = (op.mask * 16).toUInt8 := by
    rw [Instruction.secondOctet, if_pos hformat]
  exact ⟨hsecond, hsecond ▸ Part.toNat_octet (by omega)⟩

/-- Whether an instruction for which no error is reported is filled with its
operands. -/
def GivesFields (t : SymbolTable) (r : Record) (g : Generation)
    (op : Instruction) : Prop :=
  Gives r g (fields op) fun out =>
    Filled t g.literals g.bases.Promises r op out.1.toUInt8 out.2

/-! ### The formats

The operands are evaluated in the order of `fields`, and each of them fills its
own field. -/

section Formats

variable {op : Instruction}

/-- Two registers. -/
theorem gives_rr (h : g.Reads t) (hop : op ∈ Instruction.table)
    (hformat : op.format = .rr) : GivesFields t r g op := by
  unfold GivesFields fields
  simp only [hformat]
  refine (gives_registerField h 0).bind fun r1 =>
    (gives_registerField h 1).bind fun r2 =>
    gives_pure fun h2 h1 => .of_format hformat ?_ (fun _ => rfl) fun first => ?_
  · exact (Part.clear_halves _).trans
      ((of_mem_table hop).1 (by simp [hformat])).symm
  · refine forall_operands_cons.mpr ⟨?_, forall_operands_cons.mpr ⟨?_, nofun⟩⟩
    · exact encoded_register h1 rfl rfl
        (Part.read_high (register_lt h1) (register_lt h2))
    · exact encoded_register h2 rfl rfl
        (Part.read_low (register_lt h1) (register_lt h2))

/-- A register in the first half of the octet. -/
theorem gives_rrSingle (h : g.Reads t) (hop : op ∈ Instruction.table)
    (hformat : op.format = .rrSingle) : GivesFields t r g op := by
  unfold GivesFields fields
  simp only [hformat]
  refine (gives_registerField h 0).bind fun r1 =>
    gives_pure fun h1 => .of_format hformat ?_ (fun _ => rfl) fun first => ?_
  · exact (Part.clear_alone (register_lt h1)).trans
      ((of_mem_table hop).1 (by simp [hformat])).symm
  · exact forall_operands_cons.mpr
      ⟨encoded_register h1 rfl rfl (Part.read_alone (register_lt h1)), nofun⟩

/-- An octet that is written out. -/
theorem gives_rrImmediate (h : g.Reads t) (hop : op ∈ Instruction.table)
    (hformat : op.format = .rrImmediate) : GivesFields t r g op := by
  unfold GivesFields fields
  simp only [hformat]
  refine (gives_immediateField h 0 (Nat.le_refl _)).bind fun n =>
    gives_pure fun h1 => .of_format hformat ?_ (fun _ => rfl) fun first => ?_
  · exact ((of_mem_table hop).1 (by simp [hformat])).symm
  · obtain ⟨m, -, -, -, hn⟩ := id h1
    exact forall_operands_cons.mpr
      ⟨encoded_immediate h1 rfl rfl (Part.toNat_octet (show n < 256 by omega)),
        nofun⟩

/-- A register behind an implied mask. -/
theorem gives_rrMask (h : g.Reads t) (hop : op ∈ Instruction.table)
    (hformat : op.format = .rrMask) : GivesFields t r g op := by
  have hmask := (of_mem_table hop).2.1
  unfold GivesFields fields
  simp only [hformat]
  obtain ⟨hsecond, hoctet⟩ := secondOctet_of_mask hop (Or.inl hformat)
  rw [hoctet]
  refine (gives_registerField h 0).bind fun r2 =>
    gives_pure fun h1 => .of_format hformat ?_ (fun _ => rfl) fun first => ?_
  · exact (Part.clear_low hmask (register_lt h1)).trans hsecond.symm
  · exact forall_operands_cons.mpr
      ⟨encoded_register h1 rfl rfl (Part.read_low hmask (register_lt h1)),
        nofun⟩

/-- A register and storage with an index register. -/
theorem gives_rx (h : g.Reads t) (hop : op ∈ Instruction.table)
    (hformat : op.format = .rx) : GivesFields t r g op := by
  unfold GivesFields fields
  simp only [hformat]
  refine (gives_registerField h 0).bind fun r1 =>
    (gives_address h op .index 1).bind fun second =>
    gives_pure fun h2 h1 => .of_format hformat ?_ nofun fun first => ?_
  · exact (Part.clear_halves _).trans
      ((of_mem_table hop).1 (by simp [hformat])).symm
  · refine forall_operands_cons.mpr ⟨?_, forall_operands_cons.mpr ⟨?_, nofun⟩⟩
    · exact encoded_register h1 rfl rfl
        (Part.read_high (register_lt h1) (indexField_lt h2))
    · exact encoded_index h2 rfl rfl
        (Part.read_low (register_lt h1) (indexField_lt h2))
        (addressOctets_first second [])

/-- Storage with an index register, behind an implied mask. -/
theorem gives_rxMask (h : g.Reads t) (hop : op ∈ Instruction.table)
    (hformat : op.format = .rxMask) : GivesFields t r g op := by
  have hmask := (of_mem_table hop).2.1
  unfold GivesFields fields
  simp only [hformat]
  obtain ⟨hsecond, hoctet⟩ := secondOctet_of_mask hop (Or.inr hformat)
  rw [hoctet]
  refine (gives_address h op .index 0).bind fun second =>
    gives_pure fun h1 => .of_format hformat ?_ nofun fun first => ?_
  · exact (Part.clear_low hmask (indexField_lt h1)).trans hsecond.symm
  · exact forall_operands_cons.mpr ⟨encoded_index h1 rfl rfl
      (Part.read_low hmask (indexField_lt h1)) (addressOctets_first second []),
      nofun⟩

/-- Two registers and storage. -/
theorem gives_rs (h : g.Reads t) (hop : op ∈ Instruction.table)
    (hformat : op.format = .rs) : GivesFields t r g op := by
  unfold GivesFields fields
  simp only [hformat]
  refine (gives_registerField h 0).bind fun r1 =>
    (gives_registerField h 1).bind fun r3 =>
    (gives_address h op .base 2).bind fun second =>
    gives_pure fun h2 h3 h1 => .of_format hformat ?_ nofun fun first => ?_
  · exact (Part.clear_halves _).trans
      ((of_mem_table hop).1 (by simp [hformat])).symm
  · refine forall_operands_cons.mpr ⟨?_, forall_operands_cons.mpr ⟨?_,
      forall_operands_cons.mpr ⟨?_, nofun⟩⟩⟩
    · exact encoded_register h1 rfl rfl
        (Part.read_high (register_lt h1) (register_lt h3))
    · exact encoded_register h3 rfl rfl
        (Part.read_low (register_lt h1) (register_lt h3))
    · exact encoded_base h2 rfl rfl (addressOctets_first second [])

/-- A register and storage, which is the amount of a shift. -/
theorem gives_rsShift (h : g.Reads t) (hop : op ∈ Instruction.table)
    (hformat : op.format = .rsShift) : GivesFields t r g op := by
  unfold GivesFields fields
  simp only [hformat]
  refine (gives_registerField h 0).bind fun r1 =>
    (gives_address h op .base 1).bind fun second =>
    gives_pure fun h2 h1 => .of_format hformat ?_ nofun fun first => ?_
  · exact (Part.clear_alone (register_lt h1)).trans
      ((of_mem_table hop).1 (by simp [hformat])).symm
  · refine forall_operands_cons.mpr ⟨?_, forall_operands_cons.mpr ⟨?_, nofun⟩⟩
    · exact encoded_register h1 rfl rfl (Part.read_alone (register_lt h1))
    · exact encoded_base h2 rfl rfl (addressOctets_first second [])

/-- Storage and an octet that is written out. -/
theorem gives_si (h : g.Reads t) (hop : op ∈ Instruction.table)
    (hformat : op.format = .si) : GivesFields t r g op := by
  unfold GivesFields fields
  simp only [hformat]
  refine (gives_address h op .base 0).bind fun base =>
    (gives_immediateField h 1 (Nat.le_refl _)).bind fun n =>
    gives_pure fun h2 h1 => .of_format hformat ?_ nofun fun first => ?_
  · exact ((of_mem_table hop).1 (by simp [hformat])).symm
  · obtain ⟨m, -, -, -, hn⟩ := id h2
    refine forall_operands_cons.mpr ⟨?_, forall_operands_cons.mpr ⟨?_, nofun⟩⟩
    · exact encoded_base h1 rfl rfl (addressOctets_first base [])
    · exact encoded_immediate h2 rfl rfl
        (Part.toNat_octet (show n < 256 by omega))

/-- Storage only. -/
theorem gives_s (h : g.Reads t) (hformat : op.format = .s) :
    GivesFields t r g op := by
  unfold GivesFields fields
  simp only [hformat]
  refine (gives_address h op .base 0).bind fun base =>
    gives_pure fun h1 => .of_format hformat ?_ nofun fun first => ?_
  · exact UInt8.ofNat_toNat
  · exact forall_operands_cons.mpr
      ⟨encoded_base h1 rfl rfl (addressOctets_first base []), nofun⟩

/-- No operands at all. -/
theorem gives_sNone (hformat : op.format = .sNone) : GivesFields t r g op := by
  unfold GivesFields fields
  simp only [hformat]
  refine gives_pure (.of_format hformat ?_ (fun _ => rfl) fun first => nofun)
  exact UInt8.ofNat_toNat

/-- Two operands in storage with one length. -/
theorem gives_ssLength (h : g.Reads t) (hop : op ∈ Instruction.table)
    (hformat : op.format = .ssLength) : GivesFields t r g op := by
  unfold GivesFields fields
  simp only [hformat]
  refine (gives_address h op .length 0).bind fun first =>
    (gives_address h op .base 1).bind fun second =>
    (gives_lengthField first 0 (Nat.le_refl _)).bind fun n =>
    gives_pure fun hlength h2 h1 => .of_format hformat ?_ nofun fun opcode => ?_
  · exact ((of_mem_table hop).1 (by simp [hformat])).symm
  · obtain ⟨hnonneg, hlimit, rfl⟩ := hlength
    refine forall_operands_cons.mpr ⟨?_, forall_operands_cons.mpr ⟨?_, nofun⟩⟩
    · exact encoded_length h1 hnonneg rfl rfl
        (Part.toNat_octet (lengthCode_lt hlimit (by decide)))
        (addressOctets_first first [second])
    · exact encoded_base h2 rfl rfl (addressOctets_second first second [])

/-- Two operands in storage, each with its length. -/
theorem gives_ssLengths (h : g.Reads t) (hop : op ∈ Instruction.table)
    (hformat : op.format = .ssLengths) : GivesFields t r g op := by
  unfold GivesFields fields
  simp only [hformat]
  refine (gives_address h op .length 0).bind fun first =>
    (gives_address h op .length 1).bind fun second =>
    (gives_lengthField first 0 (by decide)).bind fun l1 =>
    (gives_lengthField second 1 (by decide)).bind fun l2 =>
    gives_pure fun hlength2 hlength1 h2 h1 =>
      .of_format hformat ?_ nofun fun opcode => ?_
  · exact (Part.clear_halves _).trans
      ((of_mem_table hop).1 (by simp [hformat])).symm
  · obtain ⟨hnonneg1, hlimit1, rfl⟩ := hlength1
    obtain ⟨hnonneg2, hlimit2, rfl⟩ := hlength2
    have hsmall1 := lengthCode_lt hlimit1 (by decide)
    have hsmall2 := lengthCode_lt hlimit2 (by decide)
    refine forall_operands_cons.mpr ⟨?_, forall_operands_cons.mpr ⟨?_, nofun⟩⟩
    · exact encoded_length h1 hnonneg1 rfl rfl (Part.read_high hsmall1 hsmall2)
        (addressOctets_first first [second])
    · exact encoded_length h2 hnonneg2 rfl rfl (Part.read_low hsmall1 hsmall2)
        (addressOctets_second first second [])

/-- Storage with a length, the amount of a shift and how it is rounded. -/
theorem gives_ssShift (h : g.Reads t) (hop : op ∈ Instruction.table)
    (hformat : op.format = .ssShift) : GivesFields t r g op := by
  unfold GivesFields fields
  simp only [hformat]
  refine (gives_address h op .length 0).bind fun first =>
    (gives_address h op .base 1).bind fun second =>
    (gives_lengthField first 0 (by decide)).bind fun l1 =>
    (gives_immediateField h 2 (by decide)).bind fun n =>
    gives_pure fun h3 hlength h2 h1 =>
      .of_format hformat ?_ nofun fun opcode => ?_
  · exact (Part.clear_halves _).trans
      ((of_mem_table hop).1 (by simp [hformat])).symm
  · obtain ⟨hnonneg, hlimit, rfl⟩ := hlength
    have hsmall := lengthCode_lt hlimit (by decide)
    obtain ⟨m, -, hlow, hhigh, hn⟩ := id h3
    have hrounding : n < 16 := by
      rw [if_neg (by decide)] at hlow
      omega
    refine forall_operands_cons.mpr ⟨?_, forall_operands_cons.mpr ⟨?_,
      forall_operands_cons.mpr ⟨?_, nofun⟩⟩⟩
    · exact encoded_length h1 hnonneg rfl rfl (Part.read_high hsmall hrounding)
        (addressOctets_first first [second])
    · exact encoded_base h2 rfl rfl (addressOctets_second first second [])
    · exact encoded_immediate h3 rfl rfl (Part.read_low hsmall hrounding)

end Formats

/-- **The fields of an instruction** hold its operands, if no error is
reported. -/
theorem gives_fields (h : g.Reads t) {op : Instruction}
    (hop : op ∈ Instruction.table) :
    GivesFields t r g op := by
  cases hformat : op.format with
  | rr => exact gives_rr h hop hformat
  | rrSingle => exact gives_rrSingle h hop hformat
  | rrImmediate => exact gives_rrImmediate h hop hformat
  | rrMask => exact gives_rrMask h hop hformat
  | rx => exact gives_rx h hop hformat
  | rxMask => exact gives_rxMask h hop hformat
  | rs => exact gives_rs h hop hformat
  | rsShift => exact gives_rsShift h hop hformat
  | si => exact gives_si h hop hformat
  | s => exact gives_s h hformat
  | sNone => exact gives_sNone hformat
  | ssLength => exact gives_ssLength h hop hformat
  | ssLengths => exact gives_ssLengths h hop hformat
  | ssShift => exact gives_ssShift h hop hformat

/-- The octets that hold the code of an instruction in the table. -/
theorem get_code {op : Instruction} (hop : op ∈ Instruction.table) :
    Field.get (op.skeleton.take op.codeLength) = op.code := by
  have htable : ∀ op ∈ Instruction.table,
      Field.get (op.skeleton.take op.codeLength) = op.code := by decide +kernel
  exact htable op hop

/-- Octets that are filled with operands are those of the instruction. -/
theorem Filled.encodes {op : Instruction} (hop : op ∈ Instruction.table)
    {second : UInt8} {rest : Bytes}
    (h : Filled g.symbols g.literals g.bases.Promises r op second rest)
    (hlength : 2 + rest.length = op.length) :
    r.Encodes g op (op.skeleton.take 1 ++ [second] ++ rest) := by
  obtain ⟨-, hmask, hlong⟩ := of_mem_table hop
  have hcleared := h.cleared
  have hzeros : op.length - 2 = rest.length := by omega
  have hskeleton : op.skeleton =
      op.skeleton.head (by simp [Instruction.skeleton]) ::
      op.secondOctet :: List.replicate rest.length 0 := by
    rw [← hzeros]
    rfl
  generalize op.skeleton.head _ = first at hskeleton
  have hcode : op.skeleton.take 1 ++ [second] ++ rest =
      first :: second :: rest := by
    rw [hskeleton]
    rfl
  rw [hcode]
  have htake : (first :: second :: rest).take op.codeLength =
      op.skeleton.take op.codeLength := by
    rw [hskeleton, Instruction.codeLength]
    split
    · rfl
    · -- a code of two octets leaves no part of the second octet to the operands
      have hformat := hlong (by omega)
      have hparts : op.format.parts.filterMap id = [] := by
        rcases hformat with h | h <;> rw [h] <;> rfl
      rw [hparts] at hcleared
      have hsecond : second = op.secondOctet := hcleared
      rw [hsecond]
      rfl
  refine ⟨hlength ▸ by simp; omega, ⟨htake, htake ▸ get_code hop⟩,
    fun hformat => ?_, ?_, h.operands first⟩
  · have hparts : op.format.parts.filterMap id = [.low] := by
      rcases hformat with h | h <;> rw [h] <;> rfl
    have hoctet : op.secondOctet = (op.mask * 16).toUInt8 := by
      rw [Instruction.secondOctet, if_pos hformat]
    have hsecond : (second.toNat / 16 * 16).toUInt8 =
        (op.mask * 16).toUInt8 := by
      rw [hparts] at hcleared
      exact hcleared.trans hoctet
    have hnumber := congrArg UInt8.toNat hsecond
    have hbyte := second.toNat_lt
    rw [Part.toNat_octet (by omega), Part.toNat_octet (by omega)] at hnumber
    have hread : Part.read second .high = op.mask := by
      rw [Part.read]
      omega
    refine ⟨second, rfl, ?_, hread⟩
    rw [hskeleton, hread, hoctet]
    exact congrArg some (Part.read_alone hmask)
  · rw [hskeleton, Format.clear, hcleared]
    split
    · rfl
    · rename_i hstorage
      rw [← h.zeros (Bool.eq_false_iff.mpr hstorage)]

/-- An instruction without errors is filled with its operands. -/
theorem filled_instructionOctets {op : Instruction}
    (hop : op ∈ Instruction.table)
    (hcounted : r.statement.operands.length = op.operandCount)
    (hclean : Clean (instructionOctets op) r g) :
    ∃ second rest, (exec (instructionOctets op) r g).1 = op.skeleton.take 1 ++
      [second] ++ rest ∧
      2 + rest.length = op.length ∧
      Filled g.symbols g.literals g.bases.Promises r op second rest := by
  have hnot : ¬ r.statement.operands.length < op.operandCount := by omega
  have hfields := gives_fields (r := r) (g := g) ⟨rfl, fun _ => rfl⟩ hop
  unfold instructionOctets at hclean ⊢
  rw [exec_bind, exec_statement, if_neg hnot]
  have hclean' := ((clean_bind quiet_statement fun s => ?_).mp hclean).2
  · rw [exec_statement, if_neg hnot] at hclean'
    have hfilled := hfields.result r g (Kept.refl r g)
      ((clean_bind hfields.quiet fun _ => quiet_pure _).mp hclean').1
    exact ⟨_, _, rfl, length_fields op r g, hfilled⟩
  · split
    · exact quiet_pure _
    · exact quiet_bind hfields.quiet fun _ => quiet_pure _

/-- **Instruction encoding is faithful.**  If no error is reported for an
instruction with all its operands, its octets are the code of the instruction,
an implied mask, and fields that hold what the operands are. -/
theorem encodes_instructionOctets {op : Instruction}
    (hop : op ∈ Instruction.table)
    (hcounted : r.statement.operands.length = op.operandCount)
    (hclean : Clean (instructionOctets op) r g) :
    r.Encodes g op (exec (instructionOctets op) r g).1 := by
  obtain ⟨second, rest, hcode, hlength, hfilled⟩ :=
    filled_instructionOctets hop hcounted hclean
  rw [hcode]
  exact hfilled.encodes hop hlength

/-- An instruction with two lengths, one of them written, and a base register
for one operand. -/
theorem encodes_instructionOctets_pack :
    ∃ (r : Record) (g : Generation) (op : Instruction),
    op ∈ Instruction.table ∧ r.statement.operands.length = op.operandCount ∧
      Clean (instructionOctets op) r g ∧
      r.Encodes g op [0xF2, 0x71, 0xC0, 0x06, 0x70, 0x05] := by
  have hany : (Statement.readAll (bytes
      "A CSECT\n BALR 12,0\n USING *,12\n PACK F,5(2,7)\nF DS CL8\n END\n")
      |>.toOption.any fun statements =>
          let p := Program.ofStatements {} statements
          let g := ((Generation.new p).run (p.records.take 3)).2
          p.records[3]?.any fun r => r.instruction?.any fun op =>
            decide (op ∈ Instruction.table ∧
                r.statement.operands.length = op.operandCount ∧
              (∀ d ∈ (exec (instructionOctets op) r g).2.2.diagnostics.drop
                g.diagnostics.length, d.severity.isError = false) ∧
              (exec (instructionOctets op) r g).1 = [0xF2, 0x71, 0xC0, 0x06,
                0x70, 0x05])) = true := by
    decide +kernel
  obtain ⟨statements, -, hcheck⟩ := exists_ok_of_any hany
  obtain ⟨r, -, hcheck⟩ := (Option.any_eq_true _ _).mp hcheck
  obtain ⟨op, -, hcheck⟩ := (Option.any_eq_true _ _).mp hcheck
  obtain ⟨hop, hcounted, hclean, hcode⟩ := of_decide_eq_true hcheck
  exact ⟨r, _, op, hop, hcounted, hclean,
    hcode ▸ encodes_instructionOctets hop hcounted hclean⟩

end Generate

end System370
