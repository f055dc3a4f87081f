import System370.Expression

/-!
# What expressions evaluate to

A value is a formal sum, and once every target has an address it is a number:
`Value.linked`.  Adding, subtracting and negating values adds, subtracts and
negates these numbers, whatever terms merge or cancel on the way, because all of
it is computed modulo 2^64.

An expression can also be computed with numbers from the start.
`Expression.numeric` does that: every symbol and the place of the statement are
numbers, and there are no terms.  `Expression.linked_evaluate` says that the two
agree, and `Expression.isFailure_evaluate` that an expression is an error if it
has no value.
-/

namespace System370

namespace Value

/-- The sum of terms, given the address of every target. -/
def sumAt (spot : Target → Int64) : List Term → Int64
  | [] => 0
  | t :: rest => t.sign * spot t.target + sumAt spot rest

/-- The number that a value is, given the address of every target. -/
def linked (spot : Target → Int64) (v : Value) : Int64 :=
  v.number + sumAt spot v.terms

variable (spot : Target → Int64)

/-- Terms one behind the other are added. -/
theorem sumAt_append (terms others : List Term) :
    sumAt spot (terms ++ others) = sumAt spot terms + sumAt spot others := by
  induction terms with
  | nil => simp [sumAt]
  | cons t rest ih =>
      simp only [List.cons_append, sumAt, ih]
      grind

/-- Merging a term adds it. -/
theorem sumAt_merge (terms : List Term) (t : Term) :
    sumAt spot (merge terms t) = sumAt spot terms + t.sign * spot t.target := by
  induction terms with
  | nil => simp [merge, sumAt]
  | cons u rest ih =>
      unfold merge
      split
      · rename_i heq
        simp only [sumAt, heq]
        grind
      · simp only [sumAt, ih]
        grind

/-- Merging terms one after the other adds them. -/
theorem sumAt_foldl_merge (terms others : List Term) :
    sumAt spot (others.foldl merge terms) =
      sumAt spot terms + sumAt spot others := by
  induction others generalizing terms with
  | nil => simp [sumAt]
  | cons t rest ih =>
      simp only [List.foldl_cons, ih, sumAt_merge, sumAt]
      grind

/-- Terms that count zero times can be left out. -/
theorem sumAt_filter (terms : List Term) :
    sumAt spot (terms.filter (·.sign ≠ 0)) = sumAt spot terms := by
  induction terms with
  | nil => rfl
  | cons t rest ih =>
      by_cases hzero : t.sign = 0
      · simp only [List.filter_cons, hzero, ne_eq, not_true, decide_false,
          sumAt, ← ih]
        simp
      · simp [hzero, sumAt, ← ih]

/-- **The sum of values is the sum of their numbers.** -/
theorem linked_add (v w : Value) :
    (v.add w).linked spot = v.linked spot + w.linked spot := by
  simp only [linked, add, sumAt_filter, sumAt_foldl_merge, sumAt_append, sumAt]
  grind

/-- The number of a value with the opposite sign. -/
theorem linked_negate (v : Value) : v.negate.linked spot = -v.linked spot := by
  have hterms : ∀ terms : List Term,
      sumAt spot (terms.map fun t => ⟨t.target, -t.sign⟩) =
        -sumAt spot terms := by
    intro terms
    induction terms with
    | nil => simp [sumAt]
    | cons t rest ih =>
        simp only [List.map_cons, sumAt, ih]
        grind
  simp only [linked, negate, hterms]
  grind

/-- The difference of values is the difference of their numbers. -/
theorem linked_sub (v w : Value) :
    (v.sub w).linked spot = v.linked spot - w.linked spot := by
  rw [sub, linked_add, linked_negate]
  grind

/-- A value without terms is its number. -/
theorem linked_of_isAbsolute {v : Value} (h : v.isAbsolute = true) :
    v.linked spot = v.number := by
  have hterms : v.terms = [] := List.isEmpty_iff.mp h
  simp [linked, hterms, sumAt]

/-- The sum of terms with other addresses. -/
theorem sumAt_add (more : Target → Int64) (terms : List Term) :
    sumAt (fun target => spot target + more target) terms =
      sumAt spot terms + sumAt more terms := by
  induction terms with
  | nil => simp [sumAt]
  | cons t rest ih =>
      simp only [sumAt, ih]
      grind

/-! ### Targets -/

variable (P : Target → Prop)

/-- All targets of a value have a property. -/
def Targets (v : Value) : Prop := ∀ t ∈ v.terms, P t.target

variable {P}

/-- Merging terms brings in no other targets. -/
theorem targets_merge {terms : List Term} {t : Term}
    (h : ∀ u ∈ terms, P u.target) (ht : P t.target) : ∀ u ∈ merge terms t,
    P u.target := by
  induction terms with
  | nil => simpa [merge] using ht
  | cons v rest ih =>
      intro u hu
      unfold merge at hu
      split at hu
      · rcases List.mem_cons.mp hu with rfl | hu
        · exact h v List.mem_cons_self
        · exact h u (List.mem_cons_of_mem _ hu)
      · rcases List.mem_cons.mp hu with rfl | hu
        · exact h u List.mem_cons_self
        · exact ih (fun w hw => h w (List.mem_cons_of_mem _ hw)) u hu

/-- The targets of a sum are targets of the summands. -/
theorem Targets.add {v w : Value} (hv : v.Targets P) (hw : w.Targets P) :
    (v.add w).Targets P := by
  have hfold : ∀ (others terms : List Term), (∀ u ∈ terms, P u.target) →
      (∀ u ∈ others, P u.target) → ∀ u ∈ others.foldl merge terms,
      P u.target := by
    intro others
    induction others with
    | nil => exact fun terms h _ => h
    | cons t rest ih =>
        intro terms h ho
        exact ih _ (targets_merge h (ho t List.mem_cons_self))
          fun u hu => ho u (List.mem_cons_of_mem _ hu)
  intro t ht
  refine hfold _ [] (by simp) (fun u hu => ?_) t (List.mem_filter.mp ht).1
  rcases List.mem_append.mp hu with hu | hu
  · exact hv u hu
  · exact hw u hu

/-- A value with the opposite sign has the same targets. -/
theorem Targets.negate {v : Value} (hv : v.Targets P) : v.negate.Targets P := by
  intro t ht
  obtain ⟨u, hu, rfl⟩ := List.mem_map.mp ht
  exact hv u hu

/-- A property that numbers have and that adding and negating values keep. -/
structure Closed (Q : Value → Prop) : Prop where
  absolute : ∀ n, Q (absolute n)
  add : ∀ {v w}, Q v → Q w → Q (v.add w)
  negate : ∀ {v}, Q v → Q v.negate

theorem closed_targets : Closed (Targets P) where
  absolute _ := nofun
  add := Targets.add
  negate := Targets.negate

end Value

/-! ### Evaluating -/

namespace Traced

variable {ε α β : Type} {t : Traced ε α} {f : α → Traced ε β}

/-- A sequence succeeds if both of its parts do. -/
theorem result_andThen_eq_ok {b : β} (h : (t.andThen f).result = .ok b) :
    ∃ a, t.result = .ok a ∧ (f a).result = .ok b := by
  unfold andThen at h
  split at h
  · exact ⟨_, ‹_›, h⟩
  · simp at h

/-- A sequence fails if one of its parts does. -/
theorem result_andThen_eq_error {e : ε} (h : (t.andThen f).result = .error e) :
    t.result = .error e ∨ ∃ a, t.result = .ok a ∧ (f a).result = .error e := by
  unfold andThen at h
  split at h
  · exact Or.inr ⟨_, ‹_›, h⟩
  · rename_i other hother
    obtain rfl := Except.error.inj h
    exact Or.inl hother

/-- Only the outcome of the first part counts for that of a sequence. -/
theorem result_andThen_congr {t' : Traced ε α} (h : t.result = t'.result)
    (f : α → Traced ε β) :
    (t.andThen f).result = (t'.andThen f).result := by
  unfold andThen
  rw [h]
  cases t'.result <;> rfl

/-- Only outcomes matter for what is made of them. -/
theorem result_mapError_congr {δ : Type} {t' : Traced ε α}
    (h : t.result = t'.result) (f : ε → δ) :
    (t.mapError f).result = (t'.mapError f).result := by
  unfold mapError
  rw [h]

/-- Another reason for failure changes no success. -/
theorem result_mapError_eq_ok {δ : Type} {f : ε → δ} {a : α} :
    (t.mapError f).result = .ok a ↔ t.result = .ok a := by
  unfold mapError
  cases t.result <;> simp

end Traced

namespace Expression

/-- What the parts of an expression are as numbers. -/
structure Reading where
  symbol : Bytes → Int64
  /-- The length attribute of a symbol. -/
  length : Bytes → Int64
  /-- The place of the statement. -/
  place : Int64
  /-- The length at that place. -/
  placeLength : Int64

/-- One step on a stack of numbers. -/
def Step.numeric (m : Reading) (stack : List Int64) : Step → List Int64
  | .number n => n :: stack
  | .place => m.place :: stack
  | .placeLength => m.placeLength :: stack
  | .symbol name => m.symbol name :: stack
  | .lengthOf name => m.length name :: stack
  | .negate =>
    match stack with
    | top :: rest => -top :: rest
    | [] => []
  | step =>
    match stack with
    | right :: left :: rest =>
      (match step with
        | .add => left + right
        | .subtract => left - right
        | .multiply => left * right
        | _ => left / right) :: rest
    | _ => stack

/-- The number of a text, computed with numbers alone. -/
def numeric (m : Reading) (text : Bytes) : Int64 :=
  ((parse text).steps.foldl (Step.numeric m) []).headD 0

/-- The numbers that a table gives to the parts of an expression. -/
def readingOf (table : SymbolTable) (place : Place) (spot : Target → Int64) :
    Reading where
  symbol :=
    fun name => ((table.definition? name).map (·.value.linked spot)).getD 0
  length := fun name => ((table.definition? name).map (·.length)).getD 0
  place := place.value.linked spot
  placeLength := place.length

variable {table : SymbolTable} {place : Place}

/-- A name that was looked up has a definition. -/
theorem result_lookup {name : Bytes} {d : Definition}
    (h : (lookup table name).result = .ok d) :
    table.definition? name = some d := by
  unfold lookup at h
  cases hd : table.definition? name with
  | none => simp [hd] at h
  | some e => simpa [hd] using h

/-- What two values are combined to, as a number. -/
theorem linked_combine {step : Step} {left right r : Result}
    (spot : Target → Int64) (h : combine step left right = .ok r) :
    r.value.linked spot = (match step with
      | .add => left.value.linked spot + right.value.linked spot
      | .subtract => left.value.linked spot - right.value.linked spot
      | .multiply => left.value.linked spot * right.value.linked spot
      | _ => left.value.linked spot / right.value.linked spot) := by
  unfold combine at h
  split at h
  · obtain rfl := Except.ok.inj h
    exact Value.linked_add spot _ _
  · obtain rfl := Except.ok.inj h
    exact Value.linked_sub spot _ _
  · rename_i hadd hsub
    split at h
    · rename_i habsolute
      obtain ⟨hl, hr⟩ := Bool.and_eq_true_iff.mp habsolute
      obtain rfl := Except.ok.inj h
      rw [Value.linked_of_isAbsolute spot hl,
        Value.linked_of_isAbsolute spot hr]
      have hnumber : ∀ n, (Value.absolute n).linked spot = n :=
        fun n => Value.linked_of_isAbsolute spot rfl
      cases step <;> simp [hnumber] at hadd hsub ⊢
    · simp at h

/-- Two values on top of a stack are combined, or there are not two. -/
theorem run_combine {step : Step} {stack stack' : List Result}
    (hstep : step = .add ∨ step = .subtract ∨ step = .multiply ∨ step = .divide)
    (h : (step.run table place stack).result = .ok stack') :
    (∃ right left rest r,
      stack = right :: left :: rest ∧ combine step left right = .ok r ∧
      stack' = r :: rest) ∨ (stack.length < 2 ∧ stack' = stack) := by
  match stack, h with
  | right :: left :: rest, h =>
      have hboth : ((Traced.ofExcept (combine step left right)).andThen fun r =>
          Traced.done (r :: rest)).result = .ok stack' := by
        rcases hstep with rfl | rfl | rfl | rfl <;> exact h
      obtain ⟨r, hr, hdone⟩ := Traced.result_andThen_eq_ok hboth
      exact Or.inl ⟨right, left, rest, r, rfl, hr, (Except.ok.inj hdone).symm⟩
  | [top], h =>
      have hsame : Except.ok (ε := Problem) [top] = .ok stack' := by
        rcases hstep with rfl | rfl | rfl | rfl <;> exact h
      exact Or.inr ⟨by simp, (Except.ok.inj hsame).symm⟩
  | [], h =>
      have hsame : Except.ok (ε := Problem) [] = .ok stack' := by
        rcases hstep with rfl | rfl | rfl | rfl <;> exact h
      exact Or.inr ⟨by simp, (Except.ok.inj hsame).symm⟩

/-- **One step agrees with its number.** -/
theorem linked_step {step : Step} {stack stack' : List Result}
    (spot : Target → Int64)
    (h : (step.run table place stack).result = .ok stack') :
    stack'.map (·.value.linked spot) =
      step.numeric (readingOf table place spot)
        (stack.map (·.value.linked spot)) := by
  have hnumber : ∀ n, (Result.ofNumber n).value.linked spot = n :=
    fun n => Value.linked_of_isAbsolute spot rfl
  have hbinary :
      (step = .add ∨ step = .subtract ∨ step = .multiply ∨ step = .divide) →
      stack'.map (·.value.linked spot) =
        step.numeric (readingOf table place spot)
          (stack.map (·.value.linked spot)) := by
    intro hstep
    rcases run_combine hstep h with
      ⟨right, left, rest, r, rfl, hr, rfl⟩ | ⟨hshort, rfl⟩
    · have hvalue := linked_combine spot hr
      rcases hstep with rfl | rfl | rfl | rfl <;>
        simp only [List.map_cons, Step.numeric.eq_def, hvalue]
    · match stack', hshort with
      | [_], _ => rcases hstep with rfl | rfl | rfl | rfl <;> rfl
      | [], _ => rcases hstep with rfl | rfl | rfl | rfl <;> rfl
  cases step with
  | number n =>
      obtain rfl := Except.ok.inj h
      simp [Step.numeric.eq_def, hnumber]
  | place =>
      obtain rfl := Except.ok.inj h
      simp [Step.numeric.eq_def, readingOf]
  | placeLength =>
      obtain rfl := Except.ok.inj h
      simp [Step.numeric.eq_def, hnumber, readingOf]
  | symbol name =>
      obtain ⟨d, hd, hdone⟩ := Traced.result_andThen_eq_ok h
      obtain rfl := Except.ok.inj hdone
      simp [Step.numeric.eq_def, readingOf, result_lookup hd]
  | lengthOf name =>
      obtain ⟨d, hd, hdone⟩ := Traced.result_andThen_eq_ok h
      obtain rfl := Except.ok.inj hdone
      simp [Step.numeric.eq_def, hnumber, readingOf, result_lookup hd]
  | negate =>
      cases stack with
      | nil =>
          obtain rfl := Except.ok.inj h
          rfl
      | cons top rest =>
          obtain rfl := Except.ok.inj h
          simp [Step.numeric.eq_def, Value.linked_negate]
  | add => exact hbinary (by simp)
  | subtract => exact hbinary (by simp)
  | multiply => exact hbinary (by simp)
  | divide => exact hbinary (by simp)

/-- All steps agree with their numbers. -/
theorem linked_run {steps : List Step} {stack stack' : List Result}
    (spot : Target → Int64)
    (h : (run table place stack steps).result = .ok stack') :
    stack'.map (·.value.linked spot) =
      steps.foldl (Step.numeric (readingOf table place spot))
        (stack.map (·.value.linked spot)) := by
  induction steps generalizing stack with
  | nil =>
      obtain rfl := Except.ok.inj h
      rfl
  | cons step rest ih =>
      obtain ⟨next, hstep, hrest⟩ := Traced.result_andThen_eq_ok h
      rw [ih hrest, linked_step spot hstep, List.foldl_cons]

/-- The stack that an evaluation ends with. -/
theorem run_of_evaluate {text : Bytes} {r : Result}
    (h : (evaluate table place text).result = .ok r) :
    ∃ stack, (run table place [] (parse text).steps).result = .ok stack ∧
      r = stack.headD (Result.ofNumber 0) := by
  obtain ⟨stack, hrun, hlast⟩ := Traced.result_andThen_eq_ok h
  refine ⟨stack, hrun, ?_⟩
  cases hp : (parse text).problem with
  | some problem => simp [hp, Traced.fail] at hlast
  | none => simpa [hp, eq_comm] using hlast

/-- **An expression is the number of its value.**  Evaluating it to a formal sum
and giving the targets their addresses, or giving all symbols their numbers and
computing with those, is the same. -/
theorem linked_evaluate {text : Bytes} {r : Result} (spot : Target → Int64)
    (h : (evaluate table place text).result = .ok r) :
    r.value.linked spot = numeric (readingOf table place spot) text := by
  obtain ⟨stack, hrun, rfl⟩ := run_of_evaluate h
  have hstack := linked_run spot hrun
  unfold numeric
  rw [← List.map_nil (f := fun r : Result => r.value.linked spot), ← hstack]
  cases stack with
  | nil => exact Value.linked_of_isAbsolute spot rfl
  | cons top rest => rfl

/-! ### What expressions keep -/

section Closed

variable {Q : Value → Prop}

/-- An operation keeps what sums and products keep. -/
theorem closed_combine (hclosed : Value.Closed Q) {step : Step}
    {left right r : Result} (hleft : Q left.value)
    (hright : Q right.value) (h : combine step left right = .ok r) :
    Q r.value := by
  unfold combine at h
  split at h
  · obtain rfl := Except.ok.inj h
    exact hclosed.add hleft hright
  · obtain rfl := Except.ok.inj h
    exact hclosed.add hleft (hclosed.negate hright)
  · split at h
    · obtain rfl := Except.ok.inj h
      exact hclosed.absolute _
    · simp at h

/-- One step keeps a closed property that symbols and the place have. -/
theorem closed_step (hclosed : Value.Closed Q) {step : Step}
    {stack stack' : List Result}
    (hsymbols : ∀ name d, table.definition? name = some d → Q d.value)
    (hplace : Q place.value) (hstack : ∀ r ∈ stack, Q r.value)
    (h : (step.run table place stack).result = .ok stack') :
    ∀ r ∈ stack', Q r.value := by
  have hcons : ∀ (r : Result) (rest : List Result), Q r.value →
      (∀ s ∈ rest, Q s.value) → ∀ s ∈ r :: rest, Q s.value := by
    intro r rest hr hrest s hs
    rcases List.mem_cons.mp hs with rfl | hs
    · exact hr
    · exact hrest s hs
  have hbinary :
      (step = .add ∨ step = .subtract ∨ step = .multiply ∨ step = .divide) →
      ∀ r ∈ stack', Q r.value := by
    intro hstep
    rcases run_combine hstep h with
      ⟨right, left, rest, r, rfl, hr, rfl⟩ | ⟨-, rfl⟩
    · have hright := hstack right (by simp)
      have hleft := hstack left (by simp)
      exact hcons r rest (closed_combine hclosed hleft hright hr) fun s hs =>
        hstack s (by simp [hs])
    · exact hstack
  cases step with
  | number n =>
      obtain rfl := Except.ok.inj h
      exact hcons _ _ (hclosed.absolute n) hstack
  | place =>
      obtain rfl := Except.ok.inj h
      exact hcons _ _ hplace hstack
  | placeLength =>
      obtain rfl := Except.ok.inj h
      exact hcons _ _ (hclosed.absolute _) hstack
  | symbol name =>
      obtain ⟨d, hd, hdone⟩ := Traced.result_andThen_eq_ok h
      obtain rfl := Except.ok.inj hdone
      exact hcons _ _ (hsymbols name d (result_lookup hd)) hstack
  | lengthOf name =>
      obtain ⟨d, hd, hdone⟩ := Traced.result_andThen_eq_ok h
      obtain rfl := Except.ok.inj hdone
      exact hcons _ _ (hclosed.absolute _) hstack
  | negate =>
      cases stack with
      | nil =>
          obtain rfl := Except.ok.inj h
          simp
      | cons top rest =>
          obtain rfl := Except.ok.inj h
          exact hcons _ _ (hclosed.negate (hstack top List.mem_cons_self))
            fun s hs => hstack s (List.mem_cons_of_mem _ hs)
  | add => exact hbinary (by simp)
  | subtract => exact hbinary (by simp)
  | multiply => exact hbinary (by simp)
  | divide => exact hbinary (by simp)

/-- **An expression has every closed property that its symbols and its place
have.** -/
theorem closed_evaluate (hclosed : Value.Closed Q) {text : Bytes} {r : Result}
    (hsymbols : ∀ name d, table.definition? name = some d → Q d.value)
    (hplace : Q place.value) (h : (evaluate table place text).result = .ok r) :
    Q r.value := by
  have hrun : ∀ (steps : List Step) (stack stack' : List Result),
      (∀ r ∈ stack, Q r.value) →
      (run table place stack steps).result = .ok stack' → ∀ r ∈ stack',
      Q r.value := by
    intro steps
    induction steps with
    | nil =>
        intro stack stack' hstack hdone
        obtain rfl := Except.ok.inj hdone
        exact hstack
    | cons step rest ih =>
        intro stack stack' hstack hsteps
        obtain ⟨next, hstep, hrest⟩ := Traced.result_andThen_eq_ok hsteps
        exact ih next stack'
          (closed_step hclosed hsymbols hplace hstack hstep) hrest
  obtain ⟨stack, hstack, rfl⟩ := run_of_evaluate h
  have hall := hrun _ [] stack (by simp) hstack
  cases stack with
  | nil => exact hclosed.absolute 0
  | cons top rest => exact hall top List.mem_cons_self

/-- An expression has no targets but those of its symbols and its place. -/
theorem targets_evaluate {P : Target → Prop} {text : Bytes} {r : Result}
    (hsymbols : ∀ name d, table.definition? name = some d → d.value.Targets P)
    (hplace : place.value.Targets P)
    (h : (evaluate table place text).result = .ok r) :
    r.value.Targets P :=
  closed_evaluate Value.closed_targets hsymbols hplace h

end Closed

/-! ### Expressions without a value -/

/-- Whether a problem is an error, and no constant is to blame for it. -/
def IsFailure (problem : Problem) : Prop :=
  problem.severity.isError = true ∧ ∀ cause, problem ≠ .invalidConstant cause

/-- A reading that ends early ends with an error, and no symbol is to blame for
it. -/
def Parsed.Serious (p : Parsed) : Prop :=
  ∀ problem, p.problem = some problem →
    IsFailure problem ∧ ∀ name, problem ≠ .undefinedSymbol name

/-- Success is no failure. -/
theorem Parsed.serious_ok (steps : List Step) (rest : Bytes) :
    (ok steps rest).Serious := by
  intro problem h
  simp [ok] at h

/-- A failure of the syntax is serious. -/
theorem Parsed.serious_fail (rest : Bytes)
    {problem : Problem} (h : IsFailure problem)
    (hsymbol : ∀ name, problem ≠ .undefinedSymbol name) :
    (fail rest problem).Serious := by
  intro other hother
  obtain rfl := Option.some.inj hother
  exact ⟨h, hsymbol⟩

/-- One part behind the other. -/
theorem Parsed.Serious.andThen {p : Parsed} {next : Bytes → Parsed}
    (hp : p.Serious) (hnext : ∀ rest, (next rest).Serious) :
    (p.andThen next).Serious := by
  unfold Parsed.andThen
  split
  · exact hp
  · exact hnext p.rest

/-- A step more. -/
theorem Parsed.Serious.push {p : Parsed} (hp : p.Serious) (step : Step) :
    (p.push step).Serious :=
  hp.andThen fun _ => serious_ok _ _

/-- A number in decimal digits may be too large. -/
theorem serious_parseDecimal (text : Bytes) : (parseDecimal text).Serious := by
  unfold parseDecimal
  simp only
  split
  · split
    · exact Parsed.serious_ok _ _
    · exact Parsed.serious_fail _ ⟨rfl, nofun⟩ nofun
  · exact Parsed.serious_fail _ ⟨rfl, nofun⟩ nofun

/-- A symbol, a length or a self-defining term. -/
theorem serious_parseNamed (c : UInt8) (rest : Bytes) :
    (parseNamed c rest).Serious := by
  have hterm : ∀ kind text, (parseTerm kind text).Serious := by
    intro kind text
    unfold parseTerm
    simp only
    split
    · exact Parsed.serious_fail _ ⟨rfl, nofun⟩ nofun
    · split
      · exact Parsed.serious_ok _ _
      · exact Parsed.serious_fail _ ⟨rfl, nofun⟩ nofun
  unfold parseNamed
  simp only
  split
  · exact hterm _ _
  · split
    · unfold parseLengthAttribute
      split <;> exact Parsed.serious_ok _ _
    · exact Parsed.serious_ok _ _

/-- Whether every part of the parser reports errors only if it has some number
of calls. -/
structure SeriousParts (fuel : Nat) : Prop where
  sum : ∀ whole text, (parseSum fuel whole text).Serious
  sumRest : ∀ whole text, (parseSumRest fuel whole text).Serious
  product : ∀ whole text, (parseProduct fuel whole text).Serious
  productRest : ∀ whole text, (parseProductRest fuel whole text).Serious
  factor : ∀ whole text, (parseFactor fuel whole text).Serious
  group : ∀ text, (parseGroup fuel text).Serious

namespace SeriousParts

variable {fuel : Nat} (h : SeriousParts fuel)
include h

/-- The rest of a sum. -/
theorem succ_sumRest (whole text : Bytes) :
    (parseSumRest (fuel + 1) whole text).Serious := by
  cases text with
  | nil => exact Parsed.serious_ok _ _
  | cons c rest =>
      unfold parseSumRest
      split
      · exact ((h.product whole rest).push _).andThen (h.sumRest whole)
      · split
        · exact ((h.product whole rest).push _).andThen (h.sumRest whole)
        · exact Parsed.serious_ok _ _

/-- The rest of a product. -/
theorem succ_productRest (whole text : Bytes) :
    (parseProductRest (fuel + 1) whole text).Serious := by
  cases text with
  | nil => exact Parsed.serious_ok _ _
  | cons c rest =>
      unfold parseProductRest
      split
      · exact ((h.factor whole rest).push _).andThen (h.productRest whole)
      · split
        · exact ((h.factor whole rest).push _).andThen (h.productRest whole)
        · exact Parsed.serious_ok _ _

/-- A factor, with its signs. -/
theorem succ_factor (whole text : Bytes) :
    (parseFactor (fuel + 1) whole text).Serious := by
  cases text with
  | nil => exact Parsed.serious_fail _ ⟨rfl, nofun⟩ nofun
  | cons c rest =>
      unfold parseFactor
      split
      · exact h.factor whole rest
      split
      · exact (h.factor whole rest).push _
      split
      · exact Parsed.serious_fail _ ⟨rfl, nofun⟩ nofun
      split
      · exact h.group _
      split
      · exact Parsed.serious_ok _ _
      split
      · exact serious_parseDecimal _
      split
      · exact serious_parseNamed _ _
      · exact Parsed.serious_fail _ ⟨rfl, nofun⟩ nofun

/-- A sum in parentheses. -/
theorem succ_group (text : Bytes) : (parseGroup (fuel + 1) text).Serious := by
  unfold parseGroup
  split
  · exact Parsed.serious_fail _ ⟨rfl, nofun⟩ nofun
  · refine (h.sum _ _).andThen fun rest => ?_
    split
    · exact Parsed.serious_ok _ _
    · exact Parsed.serious_fail _ ⟨rfl, nofun⟩ nofun

end SeriousParts

/-- Every part of the grammar reports errors only. -/
theorem seriousParts (fuel : Nat) : SeriousParts fuel := by
  induction fuel with
  | zero =>
      refine ⟨?_, ?_, ?_, ?_, ?_, ?_⟩
      · exact fun _ _ => Parsed.serious_fail _ ⟨rfl, nofun⟩ nofun
      · exact fun _ _ => Parsed.serious_ok _ _
      · exact fun _ _ => Parsed.serious_fail _ ⟨rfl, nofun⟩ nofun
      · exact fun _ _ => Parsed.serious_ok _ _
      · exact fun _ _ => Parsed.serious_fail _ ⟨rfl, nofun⟩ nofun
      · exact fun _ => Parsed.serious_fail _ ⟨rfl, nofun⟩ nofun
  | succ fuel h =>
      exact ⟨fun whole text => (h.product whole text).andThen (h.sumRest whole),
        h.succ_sumRest,
        fun whole text => (h.factor whole text).andThen (h.productRest whole),
        h.succ_productRest, h.succ_factor, h.succ_group⟩

/-- **Every failure** to read an expression is serious and misses no symbol. -/
theorem serious_parse (text : Bytes) : (parse text).Serious := by
  unfold parse
  split
  · exact Parsed.serious_fail _ ⟨rfl, nofun⟩ nofun
  · refine ((seriousParts _).sum _ _).andThen fun rest => ?_
    split
    · exact Parsed.serious_ok _ _
    · exact Parsed.serious_fail _ ⟨rfl, nofun⟩ nofun

/-- A name that is looked up fails if it is missed. -/
theorem isFailure_lookup {name : Bytes}
    {f : Definition → Traced Problem (List Result)} {problem : Problem}
    (hf : ∀ d, ∃ stack', (f d).result = .ok stack')
    (h : ((lookup table name).andThen f).result = .error problem) :
    IsFailure problem := by
  rcases Traced.result_andThen_eq_error h with hfirst | ⟨d, -, hrest⟩
  · unfold lookup at hfirst
    simp only at hfirst
    split at hfirst
    · simp at hfirst
    · obtain rfl := Except.error.inj hfirst
      exact ⟨rfl, nofun⟩
  · obtain ⟨stack', hok⟩ := hf d
    rw [hok] at hrest
    simp at hrest

/-- An operation fails if its operands do not fit. -/
theorem isFailure_combine {step : Step} {left right : Result}
    {problem : Problem} (h : combine step left right = .error problem) :
    IsFailure problem := by
  unfold combine at h
  split at h
  · simp at h
  · simp at h
  · split at h
    · simp at h
    · obtain rfl := Except.error.inj h
      exact ⟨rfl, nofun⟩

/-- A step fails on an undefined symbol or on a relocatable factor. -/
theorem isFailure_step {step : Step} {stack : List Result} {problem : Problem}
    (h : (step.run table place stack).result = .error problem) :
    IsFailure problem := by
  have hbinary :
      (step = .add ∨ step = .subtract ∨ step = .multiply ∨ step = .divide) →
      IsFailure problem := by
    intro hstep
    match stack, h with
    | right :: left :: rest, h =>
        have hboth :
            ((Traced.ofExcept (combine step left right)).andThen fun r =>
            Traced.done (r :: rest)).result = .error problem := by
          rcases hstep with rfl | rfl | rfl | rfl <;> exact h
        rcases Traced.result_andThen_eq_error hboth with hfirst | ⟨r, -, hrest⟩
        · exact isFailure_combine hfirst
        · simp at hrest
    | [top], h =>
        rcases hstep with rfl | rfl | rfl | rfl <;> simp [Step.run.eq_def] at h
    | [], h =>
        rcases hstep with rfl | rfl | rfl | rfl <;> simp [Step.run.eq_def] at h
  cases step with
  | number n => simp [Step.run.eq_def] at h
  | place => simp [Step.run.eq_def] at h
  | placeLength => simp [Step.run.eq_def] at h
  | symbol name => exact isFailure_lookup (fun d => ⟨_, rfl⟩) h
  | lengthOf name => exact isFailure_lookup (fun d => ⟨_, rfl⟩) h
  | negate => cases stack <;> simp [Step.run.eq_def] at h
  | add => exact hbinary (by simp)
  | subtract => exact hbinary (by simp)
  | multiply => exact hbinary (by simp)
  | divide => exact hbinary (by simp)

/-- **An expression without a value is an error.** -/
theorem isFailure_evaluate {text : Bytes} {problem : Problem}
    (h : (evaluate table place text).result = .error problem) :
    IsFailure problem := by
  have hrun : ∀ (steps : List Step) (stack : List Result),
      (run table place stack steps).result = .error problem →
        IsFailure problem := by
    intro steps
    induction steps with
    | nil =>
        intro stack hfail
        simp [run] at hfail
    | cons step rest ih =>
        intro stack hfail
        rcases Traced.result_andThen_eq_error hfail with
          hfirst | ⟨next, -, hrest⟩
        · exact isFailure_step hfirst
        · exact ih next hrest
  rcases Traced.result_andThen_eq_error h with hfirst | ⟨stack, -, hlast⟩
  · exact hrun _ _ hfirst
  · cases hp : (parse text).problem with
    | none => simp [hp] at hlast
    | some other =>
        rw [hp] at hlast
        obtain rfl := Except.error.inj hlast
        exact (serious_parse text other hp).1

/-- Whatever is wrong with an expression is an error. -/
theorem isError_evaluate {text : Bytes} {problem : Problem}
    (h : (evaluate table place text).result = .error problem) :
    problem.severity.isError = true := (isFailure_evaluate h).1

theorem isError_absolute {text : Bytes} {problem : Problem}
    (h : (absolute table place text).result = .error problem) :
    problem.severity.isError = true := by
  rcases Traced.result_andThen_eq_error h with hfirst | ⟨r, -, hlast⟩
  · exact isError_evaluate hfirst
  · split at hlast
    · simp at hlast
    · obtain rfl := Except.error.inj hlast
      rfl

/-! ### What an expression depends on -/

/-- Steps depend on the definitions of a table only. -/
theorem run_congr {table' : SymbolTable}
    (h : ∀ name, table'.definition? name = table.definition? name)
    (stack : List Result) (steps : List Step) :
    run table' place stack steps = run table place stack steps := by
  have hlookup : ∀ name, lookup table' name = lookup table name :=
    fun name => by
    simp only [lookup, h]
  induction steps generalizing stack with
  | nil => rfl
  | cons step rest ih =>
      have hstep : step.run table' place stack =
          step.run table place stack := by
        cases step <;> simp only [Step.run.eq_def, hlookup]
      simp only [run, hstep, ih]

/-- Expressions depend on the definitions of a table only. -/
theorem evaluate_congr {table' : SymbolTable}
    (h : ∀ name, table'.definition? name = table.definition? name)
    (text : Bytes) :
    evaluate table' place text = evaluate table place text := by
  simp only [evaluate, run_congr h]

/-- A step that has a result keeps it while names are only added. -/
theorem result_step_mono {table' : SymbolTable} {step : Step}
    {stack stack' : List Result}
    (h : ∀ name d, table.definition? name = some d →
      table'.definition? name = some d)
    (hstep : (step.run table place stack).result = .ok stack') :
    (step.run table' place stack).result = .ok stack' := by
  have hlookup :
      ∀ {name : Bytes} {f : Definition → Traced Problem (List Result)},
      ((lookup table name).andThen f).result = .ok stack' →
      ((lookup table' name).andThen f).result = .ok stack' := by
    intro name f hok
    obtain ⟨d, hd, hf⟩ := Traced.result_andThen_eq_ok hok
    have hfound : (lookup table' name).result = .ok d := by
      simp only [lookup, h name d (result_lookup hd)]
    rw [Traced.result_andThen_ok hfound]
    exact hf
  cases step with
  | symbol name => exact hlookup hstep
  | lengthOf name => exact hlookup hstep
  | number n => exact hstep
  | place => exact hstep
  | placeLength => exact hstep
  | negate => exact hstep
  | add => exact hstep
  | subtract => exact hstep
  | multiply => exact hstep
  | divide => exact hstep

/-- **A value stays the same while names are only added.** -/
theorem result_evaluate_mono {table' : SymbolTable} {text : Bytes} {r : Result}
    (h : ∀ name d, table.definition? name = some d →
      table'.definition? name = some d)
    (hok : (evaluate table place text).result = .ok r) :
    (evaluate table' place text).result = .ok r := by
  have hrun : ∀ (steps : List Step) (stack stack' : List Result),
      (run table place stack steps).result = .ok stack' →
      (run table' place stack steps).result = .ok stack' := by
    intro steps
    induction steps with
    | nil => exact fun stack stack' hdone => hdone
    | cons step rest ih =>
        intro stack stack' hsteps
        obtain ⟨next, hstep, hrest⟩ := Traced.result_andThen_eq_ok hsteps
        exact (Traced.result_andThen_ok (result_step_mono h hstep) _).trans
          (ih next stack' hrest)
  obtain ⟨stack, hstack, hlast⟩ := Traced.result_andThen_eq_ok hok
  exact (Traced.result_andThen_ok (hrun _ _ _ hstack) _).trans hlast

/-- A number stays the same while names are only added. -/
theorem result_absolute_mono {table' : SymbolTable} {text : Bytes} {n : Int64}
    (h : ∀ name d, table.definition? name = some d →
      table'.definition? name = some d)
    (hok : (absolute table place text).result = .ok n) :
    (absolute table' place text).result = .ok n := by
  obtain ⟨r, hr, hnumber⟩ := Traced.result_andThen_eq_ok hok
  exact (Traced.result_andThen_ok (result_evaluate_mono h hr) _).trans hnumber

end Expression

end System370
