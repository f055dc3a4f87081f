import System370.Proofs.ExpressionMeaning
import System370.Proofs.Sorting
import Mathlib.Data.List.Nodup

/-!
# Values as formal sums

A value is a number and a formal sum of targets.  The list of its terms is in
**normal form** if every target stands there once and is added some number of
times other than zero.  Then the list says no more than how often each target is
added, apart from an order (`Value.Normal.same_iff`), and adding values adds
these numbers of times (`Value.multiplicity_add`), whatever terms merge and
disappear on the way.

* `Value.normal_add`: a sum is in normal form, whatever its parts are;
* `Value.formal_sums`: the laws of an abelian group, up to the order of terms,
  and that no expression leaves normal form.
-/

namespace System370

namespace Value

/-! ### How often a target is added -/

theorem multiplicity_nil (target : Target) : multiplicity [] target = 0 := rfl

/-- A target that no term has is not added. -/
theorem multiplicity_eq_zero {terms : List Term} {target : Target}
    (h : ∀ t ∈ terms, t.target ≠ target) : multiplicity terms target = 0 := by
  induction terms with
  | nil => rfl
  | cons t rest ih =>
      obtain ⟨ht, hrest⟩ := List.forall_mem_cons.mp h
      rw [multiplicity_cons, if_neg ht, ih hrest]

/-- Terms behind terms count together. -/
theorem multiplicity_append (terms others : List Term) (target : Target) :
    multiplicity (terms ++ others) target =
      multiplicity terms target + multiplicity others target := by
  induction terms with
  | nil => rw [List.nil_append, multiplicity_nil, Int64.zero_add]
  | cons t rest ih =>
      rw [List.cons_append, multiplicity_cons, multiplicity_cons, ih]
      split
      · rw [Int64.add_assoc]
      · rfl

/-- The order of terms does not matter. -/
theorem multiplicity_perm {terms others : List Term} (h : terms.Perm others)
    (target : Target) :
    multiplicity terms target = multiplicity others target := by
  induction h with
  | nil => rfl
  | cons t _ ih => rw [multiplicity_cons, multiplicity_cons, ih]
  | swap t u rest =>
      simp only [multiplicity_cons]
      split <;> split <;> grind
  | trans _ _ ih ih' => exact ih.trans ih'

/-- Among terms of different targets, each one says how often its target is
added. -/
theorem multiplicity_of_mem {terms : List Term}
    (h : (terms.map (·.target)).Nodup) {t : Term} (ht : t ∈ terms) :
    multiplicity terms t.target = t.sign := by
  induction terms with
  | nil => simp at ht
  | cons u rest ih =>
      rw [List.map_cons, List.nodup_cons] at h
      obtain ⟨hfirst, hrest⟩ := h
      rcases List.mem_cons.mp ht with rfl | ht
      · rw [multiplicity_cons, if_pos rfl, multiplicity_eq_zero, Int64.add_zero]
        exact fun v hv heq => hfirst (List.mem_map.mpr ⟨v, hv, heq⟩)
      · rw [multiplicity_cons, if_neg, ih hrest ht]
        exact fun heq => hfirst (List.mem_map.mpr ⟨t, ht, heq.symm⟩)

/-! ### Normal form -/

/-- A value is in normal form if each of its terms has a target of its own and
is not added zero times. -/
structure Normal (v : Value) : Prop where
  apart : (v.terms.map (·.target)).Nodup
  counted : ∀ t ∈ v.terms, t.sign ≠ 0

instance (v : Value) : Decidable v.Normal :=
  decidable_of_iff ((v.terms.map (·.target)).Nodup ∧ ∀ t ∈ v.terms, t.sign ≠ 0)
    ⟨fun h => ⟨h.1, h.2⟩, fun h => ⟨h.apart, h.counted⟩⟩

/-- The same number and the same terms, in any order. -/
structure Same (v w : Value) : Prop where
  number : v.number = w.number
  terms : v.terms.Perm w.terms

variable {v w : Value}

/-- The terms of a normal value are the targets that are added, with how often
they are. -/
theorem Normal.mem_iff (h : v.Normal) (t : Term) :
    t ∈ v.terms ↔ t.sign ≠ 0 ∧ multiplicity v.terms t.target = t.sign := by
  constructor
  · exact fun ht => ⟨h.counted t ht, multiplicity_of_mem h.apart ht⟩
  · rintro ⟨hcounted, hsign⟩
    obtain ⟨u, hu, htarget⟩ : ∃ u ∈ v.terms, u.target = t.target := by
      by_contra hnone
      exact hcounted (hsign.symm.trans
        (multiplicity_eq_zero fun u hu heq => hnone ⟨u, hu, heq⟩))
    have hsame := multiplicity_of_mem h.apart hu
    rw [htarget, hsign] at hsame
    obtain ⟨target, sign⟩ := t
    obtain ⟨target', sign'⟩ := u
    obtain rfl : target' = target := htarget
    obtain rfl : sign = sign' := hsame
    exact hu

/-- **Normal values are told apart by their numbers and by how often they add
each target.** -/
theorem Normal.same_iff (hv : v.Normal) (hw : w.Normal) : v.Same w ↔
    v.number = w.number ∧ ∀ target,
    multiplicity v.terms target = multiplicity w.terms target := by
  constructor
  · exact fun h => ⟨h.number, multiplicity_perm h.terms⟩
  · rintro ⟨hnumber, hcounts⟩
    refine ⟨hnumber, (List.perm_ext_iff_of_nodup hv.apart.of_map
      hw.apart.of_map).mpr fun t => ?_⟩
    rw [hv.mem_iff, hw.mem_iff, hcounts]

/-- A number is in normal form. -/
theorem normal_absolute (n : Int64) : (absolute n).Normal :=
  ⟨List.nodup_nil, nofun⟩

/-- So is a place of a section. -/
theorem normal_relocatable (n : Int64) (id : Int) : (relocatable n id).Normal :=
  ⟨List.nodup_singleton _, fun t ht => by simp_all [relocatable]⟩

/-- Collected terms are in normal form. -/
theorem normal_collected (n : Int64) (terms : List Term) :
    Normal ⟨n, collected terms⟩ := by
  refine ⟨?_, fun t ht => by simpa using (List.mem_filter.mp ht).2⟩
  have hall : ((terms.map (·.target)).eraseDups.map fun target =>
      (⟨target, multiplicity terms target⟩ : Term)).map (·.target) =
      (terms.map (·.target)).eraseDups := by
    rw [List.map_map]
    exact List.map_id _
  have hnodup := nodup_eraseDups (terms.map (·.target))
  rw [← hall] at hnodup
  exact hnodup.sublist (List.filter_sublist.map _)

/-- Collecting terms adds every target as often as before. -/
theorem multiplicity_collected (terms : List Term) (target : Target) :
    multiplicity (collected terms) target = multiplicity terms target := by
  have hmem : ∀ t, t ∈ collected terms ↔
      (∃ u ∈ terms, u.target = t.target) ∧ t.sign ≠ 0 ∧
        multiplicity terms t.target = t.sign := by
    rintro ⟨target, sign⟩
    simp only [collected, List.mem_filter, List.mem_map, List.mem_eraseDups]
    grind
  by_cases hzero : multiplicity terms target = 0
  · rw [hzero]
    refine multiplicity_eq_zero fun t ht heq => ?_
    obtain ⟨-, hcounted, hsign⟩ := (hmem t).mp ht
    exact hcounted (by rw [← hsign, heq, hzero])
  · have hnamed : ∃ u ∈ terms, u.target = target := by
      by_contra hnone
      exact hzero (multiplicity_eq_zero fun u hu heq => hnone ⟨u, hu, heq⟩)
    exact multiplicity_of_mem (normal_collected 0 terms).apart
      ((hmem ⟨target, multiplicity terms target⟩).mpr ⟨hnamed, hzero, rfl⟩)

/-- **A sum is in normal form.** -/
theorem normal_add (v w : Value) : (v.add w).Normal := by
  rw [add_eq]
  exact normal_collected _ _

/-- So is the negative of a normal form. -/
theorem Normal.negate (h : v.Normal) : v.negate.Normal := by
  have htargets : v.negate.terms.map (·.target) = v.terms.map (·.target) := by
    rw [Value.negate, List.map_map]
    rfl
  refine ⟨htargets ▸ h.apart, fun t ht => ?_⟩
  obtain ⟨u, hu, rfl⟩ := List.mem_map.mp ht
  have hcounted := h.counted u hu
  simp only
  grind

/-! ### The group -/

@[simp] theorem number_add (v w : Value) :
    (v.add w).number = v.number + w.number := rfl

@[simp] theorem number_negate (v : Value) : v.negate.number = -v.number := rfl

/-- **Adding values adds how often each target is added.** -/
@[simp] theorem multiplicity_add (v w : Value) (target : Target) :
    multiplicity (v.add w).terms target =
      multiplicity v.terms target + multiplicity w.terms target := by
  rw [add_eq, multiplicity_collected, multiplicity_append]

/-- The negative counts every target backwards. -/
@[simp] theorem multiplicity_negate (v : Value) (target : Target) :
    multiplicity v.negate.terms target = -multiplicity v.terms target := by
  obtain ⟨number, terms⟩ := v
  simp only [negate]
  induction terms with
  | nil => rw [List.map_nil, multiplicity_nil, Int64.neg_zero]
  | cons t rest ih =>
      rw [List.map_cons, multiplicity_cons, multiplicity_cons, ih]
      split
      · rw [Int64.neg_add, Int64.sub_eq_add_neg]
      · rfl

/-- Sums do not depend on the order of two values. -/
theorem add_comm_same (v w : Value) : (v.add w).Same (w.add v) := by
  refine ((normal_add v w).same_iff (normal_add w v)).mpr ⟨Int64.add_comm _ _,
    fun target => ?_⟩
  rw [multiplicity_add, multiplicity_add, Int64.add_comm]

/-- Nor on how three of them are grouped. -/
theorem add_assoc_same (u v w : Value) :
    ((u.add v).add w).Same (u.add (v.add w)) := by
  refine ((normal_add _ w).same_iff (normal_add u _)).mpr
    ⟨Int64.add_assoc _ _ _, fun target => ?_⟩
  simp only [multiplicity_add, Int64.add_assoc]

/-- Zero adds nothing. -/
theorem Normal.add_zero (h : v.Normal) : (v.add (absolute 0)).Same v := by
  refine ((normal_add v _).same_iff h).mpr ⟨Int64.add_zero _, fun target => ?_⟩
  have hnone : multiplicity (absolute 0).terms target = 0 := rfl
  rw [multiplicity_add, hnone, Int64.add_zero]

/-- What adds no target at all has no terms in normal form. -/
theorem Normal.eq_absolute (h : v.Normal)
    (hcounts : ∀ target, multiplicity v.terms target = 0) :
    v = absolute v.number := by
  have hterms : v.terms = [] :=
    List.eq_nil_iff_forall_not_mem.mpr fun t ht => by
    obtain ⟨hcounted, hsign⟩ := (h.mem_iff t).mp ht
    exact hcounted (hsign.symm.trans (hcounts t.target))
  obtain ⟨number, terms⟩ := v
  obtain rfl : terms = [] := hterms
  rfl

/-- **Nothing is left of a value and its opposite.** -/
theorem add_negate (v : Value) : v.add v.negate = absolute 0 := by
  have hnone := (normal_add v v.negate).eq_absolute fun target => by
    rw [multiplicity_add, multiplicity_negate, Int64.add_right_neg]
  rwa [number_add, number_negate, Int64.add_right_neg] at hnone

/-- Sums of values that are the same are the same. -/
theorem Same.add {v' w' : Value} (hv : v.Same v') (hw : w.Same w') :
    (v.add w).Same (v'.add w') := by
  refine ((normal_add v w).same_iff (normal_add v' w')).mpr ⟨?_,
    fun target => ?_⟩
  · rw [number_add, number_add, hv.number, hw.number]
  · rw [multiplicity_add, multiplicity_add, multiplicity_perm hv.terms,
      multiplicity_perm hw.terms]

theorem Same.negate (h : v.Same w) : v.negate.Same w.negate :=
  ⟨congrArg (- ·) h.number, h.terms.map _⟩

/-! ### What values are told apart by -/

/-- Lists of terms in another order are both empty, both one and the same term,
or both longer. -/
theorem Same.cases (h : v.Same w) : (v.terms = [] ∧ w.terms = []) ∨
    (∃ t, v.terms = [t] ∧ w.terms = [t]) ∨
      (2 ≤ v.terms.length ∧ 2 ≤ w.terms.length) := by
  have hlength := h.terms.length_eq
  match hterms : v.terms with
  | [] =>
      exact Or.inl ⟨rfl,
        List.length_eq_zero_iff.mp (by rw [← hlength, hterms]; rfl)⟩
  | [t] =>
      have hsingle := h.terms
      rw [hterms] at hsingle
      exact Or.inr (Or.inl ⟨t, rfl, List.perm_singleton.mp hsingle.symm⟩)
  | t :: u :: rest =>
      rw [hterms] at hlength
      exact Or.inr (Or.inr ⟨by simp, by rw [← hlength]; simp⟩)

/-- Longer sums are complex and no places. -/
theorem classify_of_length (h : 2 ≤ v.terms.length) :
    v.classify = .complex ∧ v.sectionId = 0 ∧ v.isAbsolute = false := by
  match hterms : v.terms, h with
  | t :: u :: rest, _ => simp [classify, sectionId, isAbsolute, hterms]

/-- **The order of terms tells no values apart.** -/
theorem Same.classify (h : v.Same w) :
    v.classify = w.classify ∧ v.sectionId = w.sectionId ∧
      v.isAbsolute = w.isAbsolute := by
  obtain ⟨hv, hw⟩ | ⟨t, hv, hw⟩ | ⟨hv, hw⟩ := h.cases
  · simp [Value.classify, sectionId, isAbsolute, hv, hw]
  · simp [Value.classify, sectionId, isAbsolute, hv, hw]
  · obtain ⟨hclass, hid, habsolute⟩ := classify_of_length hv
    obtain ⟨hclass', hid', habsolute'⟩ := classify_of_length hw
    exact ⟨hclass.trans hclass'.symm, hid.trans hid'.symm,
      habsolute.trans habsolute'.symm⟩

/-- All operations keep normal forms. -/
theorem closed_normal : Closed Normal where
  absolute := normal_absolute
  add _ _ := normal_add _ _
  negate := Normal.negate

end Value

/-- The place of a statement is in normal form. -/
theorem Expression.Place.normal_value (p : Place) : p.value.Normal := by
  unfold Place.value
  split
  · exact Value.normal_absolute _
  · exact Value.normal_relocatable _ _

/-- **Values are an abelian group** up to the order of their terms.  Sums and
differences are in normal form, and so is the opposite of a value in normal
form.  Addition respects the order of terms up to that order, commutes and
associates, zero is neutral, and nothing is left of a value and its opposite.
Neither the class of a value nor its section depends on the order of its terms.
An expression over symbols in normal form is in normal form. -/
theorem Value.formal_sums :
    (∀ v w : Value,
      (v.add w).Normal ∧ (v.sub w).Normal ∧ (v.Normal → v.negate.Normal)) ∧
    (∀ v v' w w' : Value, v.Same v' → w.Same w' →
      (v.add w).Same (v'.add w') ∧ v.negate.Same v'.negate) ∧
    (∀ v w : Value, (v.add w).Same (w.add v)) ∧
    (∀ u v w : Value, ((u.add v).add w).Same (u.add (v.add w))) ∧
    (∀ v : Value, v.Normal → (v.add (absolute 0)).Same v) ∧
    (∀ v : Value, v.add v.negate = absolute 0 ∧ v.sub v = absolute 0) ∧
    (∀ v w : Value, v.Same w →
      v.classify = w.classify ∧ v.sectionId = w.sectionId ∧
      v.isAbsolute = w.isAbsolute) ∧
    ∀ (table : SymbolTable) (place : Expression.Place) (text : Bytes)
      (r : Expression.Result),
      (∀ name d, table.definition? name = some d → d.value.Normal) →
      (Expression.evaluate table place text).result = .ok r → r.value.Normal :=
  ⟨fun v w => ⟨normal_add v w, normal_add v _, Normal.negate⟩,
    fun _ _ _ _ hv hw => ⟨hv.add hw, hv.negate⟩, add_comm_same, add_assoc_same,
    fun _ hv => hv.add_zero, fun v => ⟨add_negate v, add_negate v⟩,
    fun _ _ h => h.classify, fun _ place _ _ hsymbols h =>
      Expression.closed_evaluate closed_normal hsymbols place.normal_value h⟩

/-- Two symbols in different sections: their sum depends on the order, but for
that it is the same one, and a section that comes and goes leaves no term. -/
theorem Value.formal_sums_sections : ∃ table : SymbolTable, ∃ x y r,
    table.symbols =
      [⟨bytes "X", some ⟨x, 1, 0, 1⟩, []⟩, ⟨bytes "Y", some ⟨y, 1, 0, 2⟩, []⟩] ∧
    (∀ name d, table.definition? name = some d → d.value.Normal) ∧
    (x.add y).terms ≠ (y.add x).terms ∧ (x.add y).Same (y.add x) ∧
    (x.add y).classify = (y.add x).classify ∧
    (Expression.evaluate table ⟨2, 0, 1⟩ (bytes "X-Y+*+X")).result = .ok r ∧
      r.value.Normal ∧
    r.value = ⟨0, [⟨.origin 1, 2⟩]⟩ := by
  let x := Value.relocatable 4 1
  let y := Value.relocatable 8 2
  let table : SymbolTable :=
    { symbols :=
      [⟨bytes "X", some ⟨x, 1, 0, 1⟩, []⟩, ⟨bytes "Y", some ⟨y, 1, 0, 2⟩, []⟩] }
  have hsymbols : ∀ name d, table.definition? name = some d →
      d.value.Normal := by
    intro name d hd
    obtain ⟨s, hs, hd⟩ := Option.bind_eq_some_iff.mp hd
    have hall : ∀ s ∈ table.symbols, ∀ d ∈ s.definition, d.value.Normal := by
      decide
    exact hall s (List.mem_of_find?_eq_some hs) d hd
  obtain ⟨-, -, hcomm, -, -, -, horder, hevaluate⟩ := Value.formal_sums
  have hresult :
      (Expression.evaluate table ⟨2, 0, 1⟩ (bytes "X-Y+*+X")).result =
      .ok ⟨⟨0, [⟨.origin 1, 2⟩]⟩, 1⟩ := by
    decide +kernel
  exact ⟨table, x, y, _, rfl, hsymbols, by decide, hcomm x y,
    (horder _ _ (hcomm x y)).1, hresult,
    hevaluate table _ _ _ hsymbols hresult, rfl⟩

end System370
