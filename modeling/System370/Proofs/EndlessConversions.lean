import Mathlib.Algebra.Order.Field.Power
import Mathlib.Logic.Relation
import System370.Proofs.LayoutSteps
import System370.Proofs.NominalValues
import System370.Proofs.ProgramLayout

/-!
# Conversions that never come to an end

Hexadecimal floating point needs the power of 16 that brings a number into the
interval from 1/16 to 1.  It is found by turns: as long as a number is at least
one it is divided by 16, and as long as it is below 1/16 it is multiplied.  For
a number with a significand the turns come to an end, and the count is
`Binary.hexExponent`.  An infinite number stays infinite, whatever it is divided
by.

So a constant can keep the assembly from an end, but only one with an infinite
value behind values that have octets.

* `Floating.hexadecimal_eq_endless_iff`: a conversion is endless just if its
  turns are;
* `Constant.Descriptor.validation_eq_endless_iff`: the constants with such a
  conversion;
* `Program.endless_ofStatements`: a layout without an end has a statement with
  such a constant.
-/

namespace System370

/-! ### The turns of a conversion -/

/-- The size of a number as far as comparisons can tell. -/
inductive Magnitude where
  | finite (x : ℚ)
  | infinite
  /-- Of what is no number; no comparison holds of it. -/
  | undefined

namespace Magnitude

/-- One turn: a number and the power of 16 that was taken out of it so far. -/
inductive Turn : Magnitude × Int → Magnitude × Int → Prop
  | divide {x : ℚ} (e : Int) (h : 1 ≤ x) :
      Turn (finite x, e) (finite (x / 16), e + 1)
  | divideInfinite (e : Int) : Turn (infinite, e) (infinite, e + 1)
  | multiply {x : ℚ} (e : Int) (h : x < 1 / 16) :
      Turn (finite x, e) (finite (x * 16), e - 1)

/-- Turns one after the other. -/
def Turns : Magnitude × Int → Magnitude × Int → Prop :=
  Relation.ReflTransGen Turn

theorem Turns.refl (state : Magnitude × Int) : Turns state state :=
  Relation.ReflTransGen.refl

/-- Whether the turns from a number on never come to an end. -/
def Endless (m : Magnitude) : Prop := ∀ state, Turns (m, 0) state → ∃ next,
  Turn state next

/-- A number that is large enough is divided as often as it takes. -/
theorem turns_divide (n : Nat) {x : ℚ} (e : Int) (h : 16 ^ n ≤ x * 16) :
    Turns (finite x, e) (finite (x / 16 ^ n), e + n) := by
  induction n generalizing x e with
  | zero => simpa using Turns.refl (finite x, e)
  | succ n ih =>
      have hone : (1 : ℚ) ≤ 16 ^ n := one_le_pow₀ (by norm_num)
      have hx : 16 ^ n ≤ x := by
        rw [pow_succ] at h
        linarith
      have hrest := ih (x := x / 16) (e + 1) (by linarith)
      have hnumber : x / 16 / 16 ^ n = x / 16 ^ (n + 1) := by
        rw [div_div, ← pow_succ']
      have hcount : e + 1 + (n : Int) = e + ((n + 1 : Nat) : Int) := by omega
      rw [hnumber, hcount] at hrest
      exact Relation.ReflTransGen.head (.divide e (hone.trans hx)) hrest

/-- A number that is small enough is multiplied as often as it takes. -/
theorem turns_multiply (n : Nat) {x : ℚ} (e : Int) (h : x * 16 ^ n < 1) :
    Turns (finite x, e) (finite (x * 16 ^ n), e - n) := by
  induction n generalizing x e with
  | zero => simpa using Turns.refl (finite x, e)
  | succ n ih =>
      have hnumber : x * 16 * 16 ^ n = x * 16 ^ (n + 1) := by
        rw [mul_assoc, ← pow_succ']
      have hrest := ih (x := x * 16) (e - 1) (hnumber ▸ h)
      have hcount : e - 1 - (n : Int) = e - ((n + 1 : Nat) : Int) := by omega
      rw [hnumber, hcount] at hrest
      have hx : x < 1 / 16 := by
        by_contra hlarge
        have hone : (1 : ℚ) ≤ 16 ^ n := one_le_pow₀ (by norm_num)
        have hpower : 1 * 1 ≤ x * 16 * 16 ^ n :=
          mul_le_mul (by linarith) hone (by norm_num) (by linarith)
        rw [hnumber] at hpower
        linarith
      exact Relation.ReflTransGen.head (.multiply e hx) hrest

/-- **A finite number is brought into the interval**, and the turns end
there. -/
theorem turns_finite {x : ℚ} {h : Int} (hlow : (16 : ℚ) ^ (h - 1) ≤ x)
    (hhigh : x < (16 : ℚ) ^ h) :
    Turns (finite x, 0) (finite (x / (16 : ℚ) ^ h), h) ∧
      ∀ next, ¬ Turn (finite (x / (16 : ℚ) ^ h), h) next := by
  have hpos : (0 : ℚ) < 16 ^ h := by positivity
  rw [zpow_sub_one₀ (by norm_num)] at hlow
  constructor
  · rcases Int.le_total 0 h with hsign | hsign
    · obtain ⟨n, rfl⟩ := Int.eq_ofNat_of_zero_le hsign
      simp only [zpow_natCast] at *
      simpa using turns_divide n (x := x) 0 (by linarith)
    · obtain ⟨n, hn⟩ := Int.eq_ofNat_of_zero_le (Int.neg_nonneg_of_nonpos hsign)
      obtain rfl : h = -(n : Int) := by omega
      simp only [zpow_neg, zpow_natCast, div_inv_eq_mul] at *
      have hsmall : x * 16 ^ n < 1 := by
        rwa [← lt_div_iff₀ (by positivity), one_div]
      simpa using turns_multiply n (x := x) 0 hsmall
  · have hleast : 1 / 16 ≤ x / (16 : ℚ) ^ h := by
      rw [le_div_iff₀ hpos]
      linarith
    have hless : x / (16 : ℚ) ^ h < 1 := by
      rwa [div_lt_one hpos]
    intro next hnext
    cases hnext with
    | divide _ hone => linarith
    | multiply _ hsmall => linarith

/-- **An infinite number never comes into the interval.** -/
theorem endless_infinite : Endless infinite := by
  have hall : ∀ {state}, Turns (infinite, 0) state → state.1 = infinite := by
    intro state h
    induction h with
    | refl => rfl
    | tail _ hlast ih =>
        cases hlast with
        | divideInfinite e => rfl
        | divide e _ => cases ih
        | multiply e _ => cases ih
  rintro ⟨m, e⟩ hstate
  obtain rfl : m = infinite := hall hstate
  exact ⟨_, .divideInfinite e⟩

/-- What is no number is left as it is. -/
theorem not_endless_undefined : ¬ Endless undefined := by
  intro h
  obtain ⟨next, hnext⟩ := h _ (Turns.refl _)
  cases hnext

end Magnitude

namespace Binary

/-- The size of a number without its sign. -/
def magnitude (b : Binary) : ℚ := b.significand * 2 ^ b.exponent

/-- **The exponent of a number** is the one that the turns find. -/
theorem magnitude_bounds {b : Binary} (hb : b.significand ≠ 0) :
    (16 : ℚ) ^ (b.hexExponent - 1) ≤ b.magnitude ∧
      b.magnitude < (16 : ℚ) ^ b.hexExponent := by
  have hlow : ((2 : ℚ) ^ Nat.log2 b.significand) ≤ b.significand := by
    exact_mod_cast Nat.log2_self_le hb
  have hhigh : (b.significand : ℚ) < 2 ^ (Nat.log2 b.significand + 1) := by
    exact_mod_cast Nat.lt_log2_self
  have hpos : (0 : ℚ) < 2 ^ b.exponent := by positivity
  have hbase : ∀ k : Int, (16 : ℚ) ^ k = 2 ^ (4 * k) := by
    intro k
    rw [zpow_mul]
    norm_num
  have hexponent : ∀ n : Nat,
      ((2 : ℚ) ^ n) * 2 ^ b.exponent = 2 ^ ((n : Int) + b.exponent) := by
    intro n
    rw [zpow_add₀ (by norm_num), zpow_natCast]
  have hquarter :
      4 * (b.hexExponent - 1) ≤ (Nat.log2 b.significand : Int) + b.exponent ∧
      ((Nat.log2 b.significand + 1 : Nat) : Int) + b.exponent ≤ 4 *
        b.hexExponent := by
    unfold hexExponent
    omega
  unfold magnitude
  constructor
  · calc (16 : ℚ) ^ (b.hexExponent - 1)
        = 2 ^ (4 * (b.hexExponent - 1)) := hbase _
      _ ≤ 2 ^ ((Nat.log2 b.significand : Int) + b.exponent) :=
          zpow_le_zpow_right₀ (by norm_num) hquarter.1
      _ = 2 ^ Nat.log2 b.significand * 2 ^ b.exponent := (hexponent _).symm
      _ ≤ b.significand * 2 ^ b.exponent :=
        mul_le_mul_of_nonneg_right hlow hpos.le
  · calc (b.significand : ℚ) * 2 ^ b.exponent
        < 2 ^ (Nat.log2 b.significand + 1) * 2 ^ b.exponent :=
          mul_lt_mul_of_pos_right hhigh hpos
      _ = 2 ^ (((Nat.log2 b.significand + 1 : Nat) : Int) + b.exponent) :=
        hexponent _
      _ ≤ 2 ^ (4 * b.hexExponent) :=
        zpow_le_zpow_right₀ (by norm_num) hquarter.2
      _ = (16 : ℚ) ^ b.hexExponent := (hbase _).symm

end Binary

namespace Floating

/-- The size of what a text stands for. -/
def magnitude : Floating → Magnitude
  | finite b => .finite b.magnitude
  | infinite _ => .infinite
  | notANumber => .undefined

/-- The conversion of a finite number comes to an end. -/
theorem hexadecimal_finite_ne_endless (b : Binary) :
    (finite b).hexadecimal ≠ .endless := by
  simp only [hexadecimal]
  cases b.hexadecimal? <;> simp

/-- **A conversion is endless just if its turns are.**  Zero is converted
without any. -/
theorem hexadecimal_eq_endless_iff {number : Floating}
    (h : ∀ b, number = finite b → b.significand ≠ 0) :
    number.hexadecimal = .endless ↔ number.magnitude.Endless := by
  cases number with
  | finite b =>
      obtain ⟨hlow, hhigh⟩ := Binary.magnitude_bounds (h b rfl)
      obtain ⟨hturns, hstop⟩ := Magnitude.turns_finite hlow hhigh
      refine iff_of_false (hexadecimal_finite_ne_endless b) fun hendless => ?_
      obtain ⟨next, hnext⟩ := hendless _ hturns
      exact hstop next hnext
  | infinite negative => exact iff_of_true rfl Magnitude.endless_infinite
  | notANumber =>
      exact iff_of_false (by simp [hexadecimal]) Magnitude.not_endless_undefined

end Floating

/-! ### Values and constants -/

namespace Constant

/-- The words for an infinite number, in small letters. -/
def infinities : List Bytes :=
  ["inf", "infinity", "+inf", "+infinity", "-inf", "-infinity"].map bytes

/-- Whether a value is an infinite floating-point number. -/
def IsInfinite (kind : Kind) (value : Bytes) : Prop :=
  (kind = .shortFloat ∨ kind = .longFloat) ∧ value.map lowerAscii ∈ infinities

/-- The words for an infinite number are read as one, and no others. -/
theorem word?_infinite_iff {word : Bytes} :
    (∃ negative, Floating.word? word = some (.infinite negative)) ↔
      word ∈ infinities := by
  constructor
  · rintro ⟨negative, h⟩
    unfold Floating.word? at h
    split at h
    · rename_i hword
      rcases hword with rfl | rfl <;> decide
    · split at h
      · rename_i hword
        rcases hword with rfl | rfl <;> decide
      · split at h
        · rename_i hword
          rcases hword with rfl | rfl <;> decide
        · split at h <;> cases h
  · intro h
    simp only [infinities, List.map_cons, List.map_nil, List.mem_cons,
      List.not_mem_nil, or_false] at h
    rcases h with rfl | rfl | rfl | rfl | rfl | rfl
    all_goals exact ⟨_, rfl⟩

/-- A text is read as an infinite number just if it is one of the words, in
capital or in small letters. -/
theorem read?_infinite_iff {value : Bytes} :
    (∃ negative, Floating.read? value = some (.infinite negative)) ↔
      value.map lowerAscii ∈ infinities := by
  rw [← word?_infinite_iff]
  unfold Floating.read?
  cases Floating.word? (value.map lowerAscii) with
  | some number => simp
  | none => simp

/-- A floating-point value is converted for ever just if it is infinite. -/
theorem encodeFloat_eq_endless_iff {length : Nat} {value : Bytes} :
    encodeFloat length value = .error .endless ↔
      value.map lowerAscii ∈ infinities := by
  rw [← read?_infinite_iff]
  unfold encodeFloat
  cases hread : Floating.read? value with
  | none => simp
  | some number =>
      cases number with
      | finite b =>
          have hends := Floating.hexadecimal_finite_ne_endless b
          cases hword : (Floating.finite b).hexadecimal with
          | endless => exact absurd hword hends
          | word n => simp [hword]
          | outOfRange => simp [hword]
      | infinite negative => simp [Floating.hexadecimal]
      | notANumber => simp [Floating.hexadecimal]

/-- Integers and decimal numerals are converted in one go. -/
theorem encodeInteger_ne_endless (length : Nat) (n : Int64) :
    encodeInteger length n ≠ .error .endless := by
  unfold encodeInteger
  split <;> simp

/-- A packed number is always done. -/
theorem encodePacked_ne_endless (length : Nat) (d : Decimal) :
    encodePacked length d ≠ .error .endless := by
  unfold encodePacked
  extract_lets nibbles octets
  split <;> simp

/-- So is a zoned one. -/
theorem encodeZoned_ne_endless (length : Nat) (d : Decimal) :
    encodeZoned length d ≠ .error .endless := by
  unfold encodeZoned
  split <;> simp

/-- Reading a decimal number comes to an end, whatever is made of it. -/
theorem bind_readDecimal_ne_endless {encode : Decimal → Except ValueError Bytes}
    (h : ∀ d, encode d ≠ .error .endless) (value : Bytes) :
    (readDecimal value).bind encode ≠ .error .endless := by
  cases hread : readDecimal value with
  | error e =>
      obtain ⟨reason, rfl⟩ := readDecimal_malformed hread
      simp [Except.bind]
  | ok d => exact h d

/-- **A value is converted for ever** just if it is an infinite floating-point
number. -/
theorem encodeValue_eq_endless_iff {kind : Kind} {value : Bytes}
    {length : Nat} :
    encodeValue kind value length = .error .endless ↔
      IsInfinite kind value := by
  unfold IsInfinite
  cases kind with
  | shortFloat | longFloat =>
      simpa [encodeValue] using encodeFloat_eq_endless_iff
  | fullword | halfword =>
      refine iff_of_false ?_ (by simp)
      simp only [encodeValue]
      cases Numeral.integer value with
      | error e => simp
      | ok n => exact encodeInteger_ne_endless length n
  | packed =>
      exact iff_of_false
        (bind_readDecimal_ne_endless (encodePacked_ne_endless length) value)
        (by simp)
  | zoned =>
      exact iff_of_false
        (bind_readDecimal_ne_endless (encodeZoned_ne_endless length) value)
        (by simp)
  | character =>
      refine iff_of_false ?_ (by simp)
      simp only [encodeValue]
      cases CodePage037.encode value <;> simp
  | hexadecimal =>
      refine iff_of_false ?_ (by simp)
      simp only [encodeValue]
      cases Numeral.hex value <;> simp
  | binary =>
      refine iff_of_false ?_ (by simp)
      simp only [encodeValue]
      cases Numeral.binary value <;> simp
  | address | halfAddress | externalAddress | baseDisplacement =>
      simp [encodeValue]

namespace Descriptor

variable {d : Descriptor}

/-- Whether the first value without octets is infinite. -/
def Endless (d : Descriptor) : Prop :=
  ∃ before value length after,
    d.nominal.zip d.lengths = before ++ (value, length) :: after ∧
    (∀ item ∈ before, ∃ octets, encodeValue d.kind item.1 item.2 = .ok octets) ∧
    IsInfinite d.kind value

/-- **A constant is checked for ever** just if the first of its values without
octets is infinite. -/
theorem validation_eq_endless_iff : d.validation = .error .endless ↔
    d.Endless := by
  cases haddress : d.kind.isAddress with
  | true =>
      refine iff_of_false
        (by simp [validation, encodeOnce, haddress, Except.map]) ?_
      rintro ⟨-, value, -, -, -, -, hkind, -⟩
      rcases hkind with hkind | hkind <;>
        simp [hkind, Kind.isAddress] at haddress
  | false =>
      have hmap : d.validation = .error .endless ↔
          encodeValues d.text d.kind (d.nominal.zip d.lengths) =
            .error .endless := by
        rw [validation_eq haddress]
        cases encodeValues d.text d.kind (d.nominal.zip d.lengths) <;>
          simp [Except.map]
      rw [hmap, encodeValues_eq_error]
      constructor
      · rintro ⟨before, value, length, after, problem, hitems, hbefore,
          hvalue, hblame⟩
        cases problem with
        | outOfRange => cases hblame
        | malformed reason => cases hblame
        | endless =>
            exact ⟨before, value, length, after, hitems, hbefore,
              encodeValue_eq_endless_iff.mp hvalue⟩
      · rintro ⟨before, value, length, after, hitems, hbefore, hinfinite⟩
        exact ⟨before, value, length, after, .endless, hitems, hbefore,
          encodeValue_eq_endless_iff.mpr hinfinite, rfl⟩

end Descriptor

end Constant

/-! ### Layouts -/

namespace Draft

variable {d d' d'' : Draft}

/-- A step on a draft that keeps the mark of an endless conversion, and sets it
only for a statement with such a constant. -/
structure Marks (d d' : Draft) : Prop where
  kept : d.layout.endless = true → d'.layout.endless = true
  cause : d'.layout.endless = true → d.layout.endless = true ∨
    d.statement.HasEndless
  statement : d'.statement = d.statement

theorem Marks.refl (d : Draft) : Marks d d := ⟨id, Or.inl, rfl⟩

theorem Marks.trans (h : Marks d d') (h' : Marks d' d'') : Marks d d'' := by
  refine ⟨fun hd => h'.kept (h.kept hd), fun hd'' => ?_,
    h'.statement.trans h.statement⟩
  rcases h'.cause hd'' with hd' | hhas
  · exact h.cause hd'
  · exact Or.inr (h.statement ▸ hhas)

/-- A step that has nothing to do with conversions. -/
theorem Marks.of_eq (h : d'.layout.endless = d.layout.endless)
    (hstatement : d'.statement = d.statement) : Marks d d' :=
  ⟨fun hd => h.trans hd, fun hd' => Or.inl (h ▸ hd'), hstatement⟩

/-- A refusal marks the layout just if the constant has no end. -/
theorem endless_refuse (d : Draft) (failure : Constant.Failure)
    (cursor : Cursor) :
    (d.refuse failure cursor).layout.endless =
      (d.layout.endless || failure = .endless) := rfl

/-- Small steps set the mark when a constant of the statement is refused for
it. -/
theorem Step.marks (h : d.Step d') : Marks d d' := by
  cases h with
  | report cursor problem => exact .of_eq rfl rfl
  | refuse cursor hcause =>
      refine ⟨fun hd => by rw [endless_refuse, hd, Bool.true_or],
        fun hd' => ?_, rfl⟩
      rw [endless_refuse, Bool.or_eq_true, decide_eq_true_eq] at hd'
      exact hd'.imp_right hcause
  | record hstatement _ _ => exact .of_eq rfl hstatement
  | symbols _ => exact .of_eq rfl rfl
  | layout _ _ _ _ hendless => exact .of_eq hendless rfl

/-- No step of the layout marks but for an endless operand. -/
theorem Steps.marks (h : d.Steps d') : Marks d d' :=
  h.lift Marks.refl Marks.trans Step.marks

/-- Starting a section has nothing to do with conversions. -/
theorem marks_startAt (d : Draft) (text : Bytes) :
    Marks d (d.startAt text) := by
  have hvalue := (d.steps_absolute text).marks
  unfold startAt
  simp only
  split
  · exact hvalue.trans (.of_eq rfl rfl)
  · split
    · exact hvalue.trans (.of_eq rfl rfl)
    · split <;> exact .of_eq rfl rfl

/-- A section that is opened marks nothing. -/
theorem marks_openSection (d : Draft) (kind : SectionKind) :
    Marks d (d.openSection kind) := by
  unfold openSection
  split
  · exact .of_eq rfl rfl
  · exact (Marks.of_eq rfl rfl : Marks d
      ((d.mapSymbols _).withBody .located)).trans
      (steps_locate _).marks

/-- Nor does a directive that opens one. -/
theorem marks_layOutSection (d : Draft) (directive : Directive) :
    Marks d (d.layOutSection directive) := by
  unfold layOutSection
  simp only
  split
  · split
    · exact (Steps.refl d).requireLabel.marks
    · exact marks_openSection d _
  · generalize (if d.record.label = [] then SectionKind.unnamed else .named) =
      kind
    split
    · split
      · exact (marks_openSection d _).trans (marks_startAt _ _)
      · exact marks_openSection d _
    · exact marks_openSection d _

/-- **Every directive** marks just for an endless operand of its own. -/
theorem marks_layOutDirective (d : Draft) (directive : Directive) :
    Marks d (d.layOutDirective directive) := by
  cases hsection : directive.isSection with
  | false => exact (d.steps_layOutDirective hsection).marks
  | true =>
      cases directive with
      | start | csect | rsect | dsect => exact marks_layOutSection d _
      | _ => simp [Directive.isSection] at hsection

end Draft

namespace Layout

/-- A part of a layout that keeps the mark of an endless conversion, and sets it
only for a statement with such a constant. -/
structure Marks (l : Layout) (statements : List Statement)
    (l' : Layout) : Prop where
  kept : l.endless = true → l'.endless = true
  cause : l'.endless = true → l.endless = true ∨ ∃ s ∈ statements, s.HasEndless

/-- A layout that is marked as it was. -/
theorem Marks.of_eq {l l' : Layout} (statements : List Statement)
    (h : l'.endless = l.endless) : l.Marks statements l' :=
  ⟨fun hl => h.trans hl, fun hl' => Or.inl (h ▸ hl')⟩

/-- Statements behind statements. -/
theorem Marks.append {l l' l'' : Layout} {statements others : List Statement}
    (h : l.Marks statements l') (h' : l'.Marks others l'') :
    l.Marks (statements ++ others) l'' := by
  refine ⟨fun hl => h'.kept (h.kept hl), fun hl'' => ?_⟩
  rcases h'.cause hl'' with hl' | ⟨s, hs, hhas⟩
  · rcases h.cause hl' with hl | ⟨s, hs, hhas⟩
    · exact Or.inl hl
    · exact Or.inr ⟨s, List.mem_append_left _ hs, hhas⟩
  · exact Or.inr ⟨s, List.mem_append_right _ hs, hhas⟩

end Layout

/-- What a step on a draft means for the layout. -/
theorem Draft.Marks.layout {d d' : Draft} (h : d.Marks d') :
    d.layout.Marks [d.statement] d'.layout :=
  ⟨h.kept, fun hd' => (h.cause hd').imp_right fun hhas =>
    ⟨_, List.mem_singleton_self _, hhas⟩⟩

namespace Layout

/-- The pool of a section marks nothing: its constants passed their checks. -/
theorem endless_flushSection (l : Layout) (statement : Statement) (id : Int) :
    (l.flushSection statement id).1.endless = l.endless := by
  unfold flushSection
  split
  · rfl
  · simp only
    split <;> rfl

theorem endless_flushSections (l : Layout) (statement : Statement)
    (ids : List Int) :
    (l.flushSections statement ids).1.endless = l.endless := by
  induction ids generalizing l with
  | nil => rfl
  | cons id rest ih => exact (ih _).trans (l.endless_flushSection statement id)

/-- `END` marks nothing. -/
theorem endless_layOutEnd (d : Draft) :
    (layOutEnd d).1.endless = d.layout.endless := by
  have hlocate : d.locate.layout.endless = d.layout.endless := by
    unfold Draft.locate
    split <;> rfl
  exact (endless_flushSections _ _ _).trans hlocate

/-- **Every statement** marks just for an endless operand of its own. -/
theorem marks_layOutStatement (d : Draft) :
    d.layout.Marks [d.statement] (layOutStatement d).1 := by
  unfold layOutStatement
  simp only
  split
  · exact d.steps_layOutMark.marks.layout
  · split
    · exact (d.steps_layOutInstruction _).marks.layout
    · split
      · rename_i directive _
        let named : Draft :=
          { d with record := { d.record with directive := some directive } }
        split
        · exact .of_eq _ (endless_layOutEnd named)
        · split
          · exact (named.steps_locate.marks).layout
          · exact (named.marks_layOutDirective _).layout
      · split
        · exact .of_eq _ rfl
        · exact ((Draft.Marks.of_eq rfl rfl : d.Marks (d.report _ _)).trans
            (Draft.steps_layOutMark _).marks).layout

/-- **A statement sets the mark only for a constant of its own.** -/
theorem marks_step (l : Layout) (statement : Statement) :
    l.Marks [statement] (l.step statement).1 := by
  unfold step
  simp only
  split
  · exact .of_eq _ rfl
  · split
    · refine .of_eq _ ?_
      split <;> rfl
    · let d : Draft :=
        ⟨{ l with diagnostics := l.diagnostics ++ statement.faults },
        { statement, errored := statement.faults.any (·.severity.isError) }⟩
      have hchecked := d.steps_checkLabel.marks
      have hlaid := marks_layOutStatement d.checkLabel
      have hboth := hchecked.layout.append hlaid
      rw [hchecked.statement] at hboth
      refine ⟨hboth.kept, fun hl' => (hboth.cause hl').imp_right ?_⟩
      rintro ⟨s, hs, hhas⟩
      have hown : s ∈ [statement] ++ [statement] := hs
      exact ⟨s, by simpa using hown, hhas⟩

/-- **A conversion that never ends stays**, whatever statements follow, and one
of the statements has the constant. -/
theorem marks_run (l : Layout) (statements : List Statement) :
    l.Marks statements (l.run statements).1 := by
  induction statements generalizing l with
  | nil => exact .of_eq _ rfl
  | cons statement rest ih => exact (l.marks_step statement).append (ih _)

/-- An end statement that is supplied has no constant. -/
theorem endless_supplyEnd (l : Layout) (statements : List Statement) :
    (l.supplyEnd statements).1.endless = l.endless := by
  cases hended : l.ended with
  | true => rw [supplyEnd_ended hended]
  | false =>
      obtain ⟨cursor, hsupplied⟩ := supplyEnd_open hended statements
      have hmarks := (l.report ⟨cursor, .missingEnd⟩).marks_step
        (suppliedEnd (endLine statements))
      rw [hsupplied, Bool.eq_iff_iff]
      refine ⟨fun hl => (hmarks.cause hl).resolve_right ?_, hmarks.kept⟩
      -- an `END` that is supplied has no operands
      rintro ⟨s, hs, operand, hoperand, -⟩
      rw [List.mem_singleton.mp hs] at hoperand
      cases hoperand

/-- Equates mark nothing. -/
theorem endless_settle (d : Draft) (last : Bool) :
    (d.settle last).layout.endless = d.layout.endless := by
  unfold Draft.settle
  split
  · split <;> rfl
  · unfold Draft.define
    split <;> rfl

theorem endless_settleRound (last : Bool) (l : Layout) (records : List Record) :
    (settleRound last l records).1.endless = l.endless := by
  induction records generalizing l with
  | nil => rfl
  | cons r rest ih =>
      unfold settleRound
      simp only
      rw [ih]
      split
      · exact endless_settle _ last
      · rfl

theorem endless_settleAll (fuel : Nat) (l : Layout) (records : List Record) :
    (settleAll fuel l records).1.endless = l.endless := by
  induction fuel generalizing l records with
  | zero => rfl
  | succ fuel ih =>
      unfold settleAll
      simp only
      split
      · rfl
      · split
        · rw [endless_settleRound, endless_settleRound]
        · rw [ih, endless_settleRound]

end Layout

namespace Program

/-- **A layout without an end** has a statement with a constant that is
converted for ever. -/
theorem endless_ofStatements (options : Options) (statements : List Statement)
    (h : (ofStatements options statements).layout.endless = true) :
    ∃ s ∈ statements, s.HasEndless := by
  have hrun := (Layout.new options).marks_run statements
  have hsettled : (ofStatements options statements).layout.endless =
      ((Layout.new options).run statements).1.endless := by
    let l := ((Layout.new options).run statements).1
    let records :=
      ((Layout.new options).run statements).2 ++ (l.supplyEnd statements).2
    exact (Layout.endless_settleAll (records.length + 1)
      (l.supplyEnd statements).1 records).trans
      (l.endless_supplyEnd statements)
  rw [hsettled] at h
  exact (hrun.cause h).resolve_left Bool.false_ne_true

end Program

end System370
