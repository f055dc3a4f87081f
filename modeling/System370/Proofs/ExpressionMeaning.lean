import System370.Proofs.Evaluation
import System370.Proofs.ExpressionReading

/-!
# The meaning of expressions

A derivation has a value (`Phrase.value`) and a length attribute
(`Phrase.length`), by recursion on it.  Operators of one rank are applied from
left to right.  Terms of values are collected by their targets
(`Value.collected`); a quotient is cut off towards zero (`quotient`).

* `Phrase.runs`: the steps of a derivation leave its value and its length on the
  stack;
* `evaluate_eq_ok_iff`: an expression has a value if and only if it has a
  derivation with terms in range, defined symbols and absolute factors, and then
  it is the value of that derivation.
-/

namespace System370

/-! ### Sums of values -/

namespace Value

/-- How often a target is added in a list of terms. -/
def multiplicity (terms : List Term) (target : Target) : Int64 :=
  ((terms.filter (·.target = target)).map (·.sign)).sum

/-- Terms with every target once, in the order of their first appearance.
Targets that are not added in the end are left out. -/
def collected (terms : List Term) : List Term :=
  ((terms.map (·.target)).eraseDups.map fun target =>
    ⟨target, multiplicity terms target⟩).filter
    (·.sign ≠ 0)

theorem multiplicity_cons (t : Term) (rest : List Term) (target : Target) :
    multiplicity (t :: rest) target =
      if t.target = target then t.sign + multiplicity rest target else
        multiplicity rest target := by
  unfold multiplicity
  by_cases h : t.target = target
  · rw [List.filter_cons_of_pos (by simp [h]), List.map_cons,
      List.sum_cons, if_pos h]
  · rw [List.filter_cons_of_neg (by simp [h]), if_neg h]

/-- Terms of other targets do not count. -/
theorem multiplicity_filter {target other : Target} (h : other ≠ target)
    (terms : List Term) :
    multiplicity (terms.filter (·.target ≠ target)) other =
      multiplicity terms other := by
  unfold multiplicity
  rw [List.filter_filter]
  congr 2
  refine List.filter_congr fun t _ => ?_
  by_cases ht : t.target = other <;> simp [ht, h]

/-- The first term takes all terms of its target. -/
theorem foldl_merge_cons (u : Term) (terms others : List Term) :
    others.foldl merge (u :: terms) =
      ⟨u.target, u.sign + multiplicity others u.target⟩ ::
        (others.filter (·.target ≠ u.target)).foldl merge terms := by
  induction others generalizing u terms with
  | nil => simp [multiplicity]
  | cons t rest ih =>
      rw [List.foldl_cons, merge, multiplicity_cons]
      by_cases h : u.target = t.target
      · rw [if_pos h, if_pos h.symm, ih, List.filter_cons_of_neg (by simp [h]),
          Int64.add_assoc]
      · rw [if_neg h, if_neg (Ne.symm h), ih,
          List.filter_cons_of_pos (by simp [Ne.symm h]), List.foldl_cons]

/-- Terms are merged into one for each target, which counts them. -/
theorem foldl_merge (terms : List Term) :
    terms.foldl merge [] =
      (terms.map (·.target)).eraseDups.map fun target =>
        ⟨target, multiplicity terms target⟩ := by
  match terms with
  | [] => rfl
  | t :: rest =>
      have hmerge : merge [] t = [t] := rfl
      have hothers :
          (rest.map (·.target)).filter (fun target => !target == t.target) =
          (rest.filter (·.target ≠ t.target)).map (·.target) := by
        rw [List.filter_map]
        congr 1
        refine List.filter_congr fun u _ => ?_
        by_cases hu : u.target = t.target <;> simp [hu]
      rw [List.foldl_cons, hmerge, foldl_merge_cons,
        foldl_merge (rest.filter (·.target ≠ t.target)),
        List.map_cons, List.eraseDups_cons, hothers, List.map_cons,
        multiplicity_cons, if_pos rfl]
      congr 1
      refine List.map_congr_left fun target htarget => ?_
      obtain ⟨u, hu, rfl⟩ := List.mem_map.mp (List.mem_eraseDups.mp htarget)
      have hne : u.target ≠ t.target := by simpa using (List.mem_filter.mp hu).2
      rw [multiplicity_filter hne, multiplicity_cons, if_neg (Ne.symm hne)]
termination_by terms.length
decreasing_by
  have hle := List.length_filter_le
    (fun u : Term => decide (u.target ≠ t.target)) rest
  simp only [List.length_cons]
  omega

/-- **The terms of a sum are collected.** -/
theorem add_eq (v w : Value) :
    v.add w = ⟨v.number + w.number, collected (v.terms ++ w.terms)⟩ := by
  rw [add, foldl_merge]
  rfl

/-- A difference is collected from its terms. -/
theorem sub_eq (v w : Value) :
    v.sub w = ⟨v.number - w.number, collected (v.terms ++ w.negate.terms)⟩ := by
  rw [sub, add_eq, Int64.sub_eq_add_neg]
  rfl

end Value

namespace Expression

/-- The quotient of two numbers, cut off towards zero.  A quotient by zero is
zero. -/
def quotient (n m : Int64) : Int64 :=
  if m = 0 then 0 else Int64.ofInt (n.toInt.tdiv m.toInt)

/-- Division is that of the machine. -/
theorem div_eq_quotient (n m : Int64) : n / m = quotient n m := by
  unfold quotient
  split
  · rename_i hzero
    rw [hzero, Int64.div_zero]
  · apply Int64.toInt_inj.mp
    rw [Int64.toInt_div, Int64.toInt_ofInt]

/-! ### Meanings -/

/-- The definition of a symbol, written with small or capital letters. -/
def named? (table : SymbolTable) (name : Bytes) : Option Definition :=
  table.definition? (name.map upperAscii)

namespace Leaf

variable (table : SymbolTable) (place : Place)

/-- Whether the symbol that a term names has a definition. -/
def Defined : Leaf → Prop
  | .lengthOf _ name => (named? table name).isSome
  | .symbol name => (named? table name).isSome
  | _ => True

/-- The value of a term. -/
def value : Leaf → Value
  | .decimal digits =>
    Value.absolute (Int64.ofNat (Numeral.positional 10 (digits.map digitValue)))
  | .selfDefining kind body =>
    Value.absolute (Int64.ofNat
      (Numeral.spelled (upperAscii kind) (plain kind body)))
  | .lengthOf _ name =>
    Value.absolute (((named? table name).map (·.length)).getD 0)
  | .lengthHere _ => Value.absolute place.length
  | .here => place.value
  | .symbol name => ((named? table name).map (·.value)).getD (Value.absolute 0)

/-- The length attribute of a term: that of the place or of the symbol that it
names, and one for a number. -/
def length : Leaf → Int64
  | .here => place.length
  | .symbol name => ((named? table name).map (·.length)).getD 0
  | _ => 1

end Leaf

/-- What a phrase means: a value, or for a tail what it makes of the value in
front of it. -/
def Category.Meaning : Category → Type
  | .sumTail => Value → Value
  | .productTail => Value → Value
  | _ => Value

namespace Phrase

variable (table : SymbolTable) (place : Place)

/-- The value of a derivation. -/
def value : {c : Category} → Phrase c → c.Meaning
  | _, .sum first rest => rest.value first.value
  | _, .sumEnd => fun left => left
  | _, .plus next rest => fun left => rest.value
      ⟨left.number + next.value.number,
        Value.collected (left.terms ++ next.value.terms)⟩
  | _, .minus next rest => fun left => rest.value
      ⟨left.number - next.value.number,
        Value.collected (left.terms ++ next.value.negate.terms)⟩
  | _, .product first rest => rest.value first.value
  | _, .productEnd => fun left => left
  | _, .times next rest => fun left => rest.value
      (Value.absolute (left.number * next.value.number))
  | _, .divided next rest => fun left => rest.value
      (Value.absolute (quotient left.number next.value.number))
  | _, .positive of => of.value
  | _, .negative of => Value.negate of.value
  | _, .bare term => term.value
  | _, .group inner => inner.value
  | _, .leaf l _ => l.value table place

/-- The length attribute of the leftmost term.  A tail has no such term. -/
def length : {c : Category} → Phrase c → Int64
  | _, .sum first _ => first.length
  | _, .product first _ => first.length
  | _, .positive of => of.length
  | _, .negative of => of.length
  | _, .bare term => term.length
  | _, .group inner => inner.length
  | _, .leaf l _ => l.length table place
  | .sumTail, _ => 0
  | .productTail, _ => 0

/-- Whether every operand of a product or of a quotient is absolute. -/
def Absolute : {c : Category} → Phrase c → Prop
  | _, .sum first rest => first.Absolute ∧ rest.Absolute
  | _, .sumEnd => True
  | _, .plus next rest => next.Absolute ∧ rest.Absolute
  | _, .minus next rest => next.Absolute ∧ rest.Absolute
  | _, .product first rest =>
    first.Absolute ∧ rest.Absolute ∧
      (rest ≠ .productEnd → (first.value table place).isAbsolute = true)
  | _, .productEnd => True
  | _, .times next rest =>
    next.Absolute ∧ rest.Absolute ∧ (next.value table place).isAbsolute = true
  | _, .divided next rest =>
    next.Absolute ∧ rest.Absolute ∧ (next.value table place).isAbsolute = true
  | _, .positive of => of.Absolute
  | _, .negative of => of.Absolute
  | _, .bare term => term.Absolute
  | _, .group inner => inner.Absolute
  | _, .leaf _ _ => True

end Phrase

/-! ### Performing steps -/

variable {table : SymbolTable} {place : Place}

theorem run_single {stack : List Result} {step : Step} :
    (run table place stack [step]).result =
      (step.run table place stack).result := by
  rw [run]
  cases hstep : (step.run table place stack).result with
  | ok next => exact Traced.result_andThen_ok hstep _
  | error problem => exact Traced.result_andThen_error hstep _

/-- Steps one after the other. -/
theorem run_append_eq_ok {stack stack' : List Result} {steps more : List Step} :
    (run table place stack (steps ++ more)).result = .ok stack' ↔
      ∃ middle, (run table place stack steps).result = .ok middle ∧
        (run table place middle more).result = .ok stack' := by
  induction steps generalizing stack with
  | nil => simp [run]
  | cons step rest ih =>
      rw [List.cons_append, run, run]
      constructor
      · intro h
        obtain ⟨next, hstep, hrest⟩ := Traced.result_andThen_eq_ok h
        obtain ⟨middle, hmiddle, hmore⟩ := ih.mp hrest
        exact ⟨middle, (Traced.result_andThen_ok hstep _).trans hmiddle, hmore⟩
      · rintro ⟨middle, h, hmore⟩
        obtain ⟨next, hstep, hrest⟩ := Traced.result_andThen_eq_ok h
        exact (Traced.result_andThen_ok hstep _).trans
          (ih.mpr ⟨middle, hrest, hmore⟩)

/-- Whether steps put `r` in the place of the topmost values `taken` of any
stack, and do so if and only if `condition` holds. -/
def Pushes (table : SymbolTable) (place : Place) (steps : List Step)
    (condition : Prop) (taken : List Result) (r : Result) : Prop :=
  ∀ stack stack', (run table place (taken ++ stack) steps).result = .ok stack' ↔
    condition ∧ stack' = r :: stack

section Pushes

variable {steps more : List Step} {condition condition' : Prop}
  {taken below : List Result} {r r' : Result}

/-- The same push, said otherwise. -/
theorem Pushes.congr (h : Pushes table place steps condition taken r)
    (hcondition : condition ↔ condition') (hr : r = r') :
    Pushes table place steps condition' taken r' := by
  subst hr
  exact fun stack stack' => (h stack stack').trans (and_congr_left' hcondition)

/-- What the first steps put on the stack is what the next ones take off it
first. -/
theorem Pushes.append (h : Pushes table place steps condition taken r)
    (h' : Pushes table place more condition' (r :: below) r') :
    Pushes table place (steps ++ more) (condition ∧ condition')
      (taken ++ below) r' := by
  intro stack stack'
  rw [run_append_eq_ok, List.append_assoc]
  constructor
  · rintro ⟨middle, hmiddle, hmore⟩
    obtain ⟨hcondition, rfl⟩ := (h _ _).mp hmiddle
    obtain ⟨hcondition', rfl⟩ := (h' _ _).mp hmore
    exact ⟨⟨hcondition, hcondition'⟩, rfl⟩
  · rintro ⟨⟨hcondition, hcondition'⟩, rfl⟩
    exact ⟨_, (h _ _).mpr ⟨hcondition, rfl⟩, (h' _ _).mpr ⟨hcondition', rfl⟩⟩

theorem pushes_nil : Pushes table place [] True [r] r := by
  intro stack stack'
  rw [run, Traced.result_done, Except.ok.injEq, true_and, eq_comm]
  rfl

/-- A step that cannot fail. -/
theorem pushes_step {step : Step}
    (h : ∀ stack : List Result,
      (step.run table place (taken ++ stack)).result = .ok (r :: stack)) :
    Pushes table place [step] True taken r := by
  intro stack stack'
  rw [run_single, h stack, Except.ok.injEq, true_and, eq_comm]

end Pushes

/-- A step that looks a symbol up. -/
theorem pushes_lookup {name : Bytes} {step : Step} (make : Definition → Result)
    (hstep : ∀ stack, step.run table place stack =
      (lookup table name).andThen fun d => .done (make d :: stack)) {r : Result}
    (hr : ∀ d, table.definition? name = some d → r = make d) :
    Pushes table place [step] (table.definition? name).isSome [] r := by
  intro stack stack'
  have hstack : ([] : List Result) ++ stack = stack := rfl
  rw [hstack, run_single, hstep]
  cases hd : table.definition? name with
  | none =>
      have hfail : (lookup table name).result =
          .error (.undefinedSymbol name) := by
        simp [lookup, hd]
      rw [Traced.result_andThen_error hfail]
      simp
  | some d =>
      have hfound : (lookup table name).result = .ok d := by simp [lookup, hd]
      rw [Traced.result_andThen_ok hfound, Traced.result_done, Except.ok.injEq,
        hr d hd, eq_comm]
      simp

/-- The step of a term. -/
theorem pushes_leaf (l : Leaf) :
    Pushes table place [l.step] (l.Defined table) []
      ⟨l.value table place, l.length table place⟩ := by
  cases l with
  | decimal | selfDefining | lengthHere | here => exact pushes_step fun _ => rfl
  | lengthOf letter name =>
      refine pushes_lookup (fun d => Result.ofNumber d.length) (fun _ => rfl)
        fun d hd => ?_
      simp [Leaf.value, Leaf.length, Result.ofNumber, named?, hd]
  | symbol name =>
      refine pushes_lookup (fun d => ⟨d.value, d.length⟩) (fun _ => rfl)
        fun d hd => ?_
      simp [Leaf.value, Leaf.length, named?, hd]

/-- The sum of the two values on top of a stack. -/
theorem pushes_add (left right : Result) :
    Pushes table place [.add] True [right, left]
      { left with value := left.value.add right.value } :=
  pushes_step fun _ => rfl

theorem pushes_subtract (left right : Result) :
    Pushes table place [.subtract] True [right, left]
      { left with value := left.value.sub right.value } :=
  pushes_step fun _ => rfl

/-- The value on top of a stack with the opposite sign. -/
theorem pushes_negate (top : Result) :
    Pushes table place [.negate] True [top]
      { top with value := top.value.negate } :=
  pushes_step fun _ => rfl

/-- The product or the quotient of the two values on top of a stack. -/
theorem pushes_factor {step : Step} (hstep : step = .multiply ∨ step = .divide)
    (left right : Result) :
    Pushes table place [step]
      (left.value.isAbsolute = true ∧ right.value.isAbsolute = true)
      [right, left]
        { left with value := Value.absolute (if step = .multiply
        then left.value.number * right.value.number
        else quotient left.value.number right.value.number) } := by
  intro stack stack'
  have hrun : (run table place ([right, left] ++ stack) [step]).result =
      ((Traced.ofExcept (combine step left right)).andThen fun r =>
        .done (r :: stack)).result := by
    rcases hstep with rfl | rfl <;> exact run_single
  rw [hrun]
  by_cases h : left.value.isAbsolute = true ∧ right.value.isAbsolute = true
  · have hboth : (left.value.isAbsolute && right.value.isAbsolute) = true := by
      simp [h.1, h.2]
    have hcombine : (Traced.ofExcept (combine step left right)).result =
        .ok { left with
        value := Value.absolute (if step = .multiply then
          left.value.number * right.value.number
          else left.value.number / right.value.number) } := by
      rcases hstep with rfl | rfl <;> exact if_pos hboth
    rw [Traced.result_andThen_ok hcombine, Traced.result_done, Except.ok.injEq,
      div_eq_quotient, eq_comm]
    simp [h]
  · have hnot : ¬ (left.value.isAbsolute && right.value.isAbsolute) = true := by
      simpa using h
    have hcombine : (Traced.ofExcept (combine step left right)).result =
        .error .relocatableTerm := by
      rcases hstep with rfl | rfl <;> exact if_neg hnot
    rw [Traced.result_andThen_error hcombine]
    simp [h]

namespace Phrase

variable (table place)

/-- Whether all symbols of a phrase are defined, and all its factors are
absolute. -/
def Admissible {c : Category} (p : Phrase c) : Prop :=
  p.Leaves (Leaf.Defined table) ∧ p.Absolute table place

/-- Whether the steps of a phrase put its value and its length on a stack if it
is admissible, and fail otherwise.  The steps of a tail take the value in front
of it off the stack. -/
def Runs : {c : Category} → Phrase c → Prop
  | .sum, p =>
    Pushes table place p.steps (p.Admissible table place) []
      ⟨p.value table place, p.length table place⟩
  | .product, p =>
    Pushes table place p.steps (p.Admissible table place) []
      ⟨p.value table place, p.length table place⟩
  | .factor, p =>
    Pushes table place p.steps (p.Admissible table place) []
      ⟨p.value table place, p.length table place⟩
  | .term, p =>
    Pushes table place p.steps (p.Admissible table place) []
      ⟨p.value table place, p.length table place⟩
  | .sumTail, p => ∀ left,
    Pushes table place p.steps (p.Admissible table place) [left]
      { left with value := p.value table place left.value }
  | .productTail, p => ∀ left, Pushes table place p.steps
      (p.Admissible table place ∧
        (p ≠ .productEnd → left.value.isAbsolute = true)) [left]
      { left with value := p.value table place left.value }

variable {table place}

/-- A factor behind an operator.  What is left behind it is absolute. -/
theorem runs_factor {step : Step} (hstep : step = .multiply ∨ step = .divide)
    {next : Phrase .factor} {tail : Phrase .productTail}
    (hnext : next.Runs table place) (htail : tail.Runs table place)
    (left : Result) : Pushes table place (next.steps ++ ([step] ++ tail.steps))
      ((next.Admissible table place ∧ tail.Admissible table place) ∧
        (next.value table place).isAbsolute = true ∧
        left.value.isAbsolute = true) [left]
      { left with
        value := tail.value table place (Value.absolute
          (if step = .multiply
            then left.value.number * (next.value table place).number
            else quotient left.value.number
              (next.value table place).number)) } := by
  refine (Pushes.append hnext
    ((pushes_factor hstep left _).append (htail _))).congr ?_ rfl
  constructor
  · rintro ⟨hadmissible, ⟨hleft, hright⟩, hadmissible', -⟩
    exact ⟨⟨hadmissible, hadmissible'⟩, hright, hleft⟩
  · rintro ⟨⟨hadmissible, hadmissible'⟩, hright, hleft⟩
    exact ⟨hadmissible, ⟨hleft, hright⟩, hadmissible', fun _ => rfl⟩

/-- **The steps of a derivation compute its meaning.** -/
theorem runs (table : SymbolTable) (place : Place) {c : Category}
    (p : Phrase c) :
    p.Runs table place := by
  induction p with
  | sum first tail ihFirst ihTail =>
      exact (Pushes.append ihFirst (ihTail _)).congr and_and_and_comm rfl
  | sumEnd =>
      exact fun left => pushes_nil.congr ⟨fun _ => ⟨trivial, trivial⟩,
        fun _ => trivial⟩ rfl
  | plus next tail ihNext ihTail =>
      intro left
      refine (ihNext.append ((pushes_add left _).append (ihTail _))).congr ?_ ?_
      · rw [true_and]
        exact and_and_and_comm
      · rw [Value.add_eq]
        rfl
  | minus next tail ihNext ihTail =>
      intro left
      refine (ihNext.append ((pushes_subtract left _).append (ihTail _))).congr
        ?_ ?_
      · rw [true_and]
        exact and_and_and_comm
      · rw [Value.sub_eq]
        rfl
  | product first tail ihFirst ihTail =>
      refine (Pushes.append ihFirst (ihTail _)).congr ?_ rfl
      constructor
      · rintro ⟨⟨hleaves, habsolute⟩, ⟨hleaves', habsolute'⟩, hleft⟩
        exact ⟨⟨hleaves, hleaves'⟩, habsolute, habsolute', hleft⟩
      · rintro ⟨⟨hleaves, hleaves'⟩, habsolute, habsolute', hleft⟩
        exact ⟨⟨hleaves, habsolute⟩, ⟨hleaves', habsolute'⟩, hleft⟩
  | productEnd =>
      exact fun left => pushes_nil.congr
        ⟨fun _ => ⟨⟨trivial, trivial⟩, fun hne => absurd rfl hne⟩,
          fun _ => trivial⟩ rfl
  | times next tail ihNext ihTail =>
      intro left
      refine (runs_factor (Or.inl rfl) ihNext ihTail left).congr ?_ rfl
      constructor
      · rintro ⟨⟨⟨hleaves, habsolute⟩, hleaves', habsolute'⟩, hright, hleft⟩
        exact ⟨⟨⟨hleaves, hleaves'⟩, habsolute, habsolute', hright⟩,
          fun _ => hleft⟩
      · rintro ⟨⟨⟨hleaves, hleaves'⟩, habsolute, habsolute', hright⟩, hleft⟩
        exact ⟨⟨⟨hleaves, habsolute⟩, hleaves', habsolute'⟩, hright,
          hleft nofun⟩
  | divided next tail ihNext ihTail =>
      intro left
      refine (runs_factor (Or.inr rfl) ihNext ihTail left).congr ?_ rfl
      constructor
      · rintro ⟨⟨⟨hleaves, habsolute⟩, hleaves', habsolute'⟩, hright, hleft⟩
        exact ⟨⟨⟨hleaves, hleaves'⟩, habsolute, habsolute', hright⟩,
          fun _ => hleft⟩
      · rintro ⟨⟨⟨hleaves, hleaves'⟩, habsolute, habsolute', hright⟩, hleft⟩
        exact ⟨⟨⟨hleaves, habsolute⟩, hleaves', habsolute'⟩, hright,
          hleft nofun⟩
  | positive of ih => exact ih
  | negative of ih =>
      exact (Pushes.append ih (pushes_negate _)).congr
        (iff_of_eq (and_true _)) rfl
  | bare term ih => exact ih
  | group inner ih => exact ih
  | leaf l hl => exact (pushes_leaf l).congr (iff_of_eq (and_true _)).symm rfl

end Phrase

/-! ### Evaluating -/

/-- What has a value has a derivation, and is the value of it. -/
theorem exists_phrase_of_evaluate {text : Bytes} {v : Value}
    {n : Int64} (h : (evaluate table place text).result = .ok ⟨v, n⟩) :
    ∃ p : Phrase .sum,
    p.yield = text ∧ p.Leaves Leaf.Readable ∧ p.Leaves (Leaf.Defined table) ∧
      p.Absolute table place ∧ p.value table place = v ∧
      p.length table place = n := by
  obtain ⟨stack, hrun, hlast⟩ := Traced.result_andThen_eq_ok h
  cases hproblem : (parse text).problem with
  | some problem => simp [hproblem, Traced.fail] at hlast
  | none =>
      obtain ⟨p, hreadable, htext, hsteps⟩ := derives_parse hproblem
      rw [hsteps] at hrun
      obtain ⟨⟨hdefined, habsolute⟩, rfl⟩ :=
        (p.runs table place [] stack).mp hrun
      simp only [hproblem, Traced.result_done, List.headD_cons,
        Except.ok.injEq] at hlast
      obtain ⟨hvalue, hlength⟩ := Result.mk.inj hlast
      exact ⟨p, htext, hreadable, hdefined, habsolute, hvalue, hlength⟩

/-- What has a derivation has its value. -/
theorem evaluate_yield {p : Phrase .sum} (hreadable : p.Leaves Leaf.Readable)
    (hadmissible : p.Admissible table place) :
    (evaluate table place p.yield).result =
      .ok ⟨p.value table place, p.length table place⟩ := by
  have hparse := parse_yield p hreadable
  have hrun := (p.runs table place [] _).mpr ⟨hadmissible, rfl⟩
  rw [evaluate, hparse]
  exact Traced.result_andThen_ok hrun _

/-- **An expression has the value of its derivation**, and none if it has no
derivation with terms in range, defined symbols and absolute factors.  It has
one derivation at most. -/
theorem evaluate_eq_ok_iff (table : SymbolTable) (place : Place)
    (text : Bytes) :
    (∀ v n, (evaluate table place text).result = .ok ⟨v, n⟩ ↔
      ∃ p : Phrase .sum,
      p.yield = text ∧ p.Leaves Leaf.Readable ∧ p.Leaves (Leaf.Defined table) ∧
        p.Absolute table place ∧ p.value table place = v ∧
        p.length table place = n) ∧
    ∀ p q : Phrase .sum, p.yield = text → q.yield = text → p = q := by
  refine ⟨fun v n => ⟨exists_phrase_of_evaluate, ?_⟩,
    fun p q hp hq => Phrase.yield_injective (hp.trans hq.symm)⟩
  rintro ⟨p, rfl, hreadable, hdefined, habsolute, rfl, rfl⟩
  exact evaluate_yield hreadable ⟨hdefined, habsolute⟩

/-- The asterisk is a term or an operator, and apostrophes, ampersands and a
divisor of zero have meanings of their own. -/
example : (evaluate {} ⟨0, 8, 4⟩ (bytes "***-L'*/(1-1)+C'&&'")).result =
    .ok ⟨Value.absolute (8 * 8 - 0 + 0x50), 4⟩ := rfl

end Expression

end System370
