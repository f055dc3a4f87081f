import Mathlib.Data.List.Forall2
import System370.Constant.Parse
import System370.Proofs.Evaluation

/-!
# The shape of a constant

What a parsed constant is like, whatever its text: every nominal value has a
length, the lengths are in the range of the type, and the constant is not
greater than `maxSize`.  Its size is a multiple of its boundary, so constants of
one type leave no gaps between them.

Nothing but the expressions of a text (`expressions`) is evaluated, so two
readings of it are the same if and only if these have the same values
(`parse_eq_iff`).
-/

namespace System370

namespace Constant

/-- A descriptor as parsing gives it. -/
structure Descriptor.Sound (d : Descriptor) : Prop where
  paired : d.nominal ≠ [] → d.lengths.length = d.nominal.length
  ranged : ∀ n ∈ d.lengths, d.kind.minLength ≤ n ∧ n ≤ d.kind.maxLength
  bounded : d.size ≤ maxSize
  whole : d.alignment ∣ d.size

/-- The boundary of a constant is one, two, four or eight. -/
theorem Descriptor.alignment_dvd (d : Descriptor) : d.alignment ∣ 8 := by
  unfold alignment
  split
  · decide
  · cases d.kind <;> decide

/-- The boundary of a constant is at most eight. -/
theorem Descriptor.alignment_le (d : Descriptor) : d.alignment ≤ 8 :=
  Nat.le_of_dvd (by decide) d.alignment_dvd

/-- A boundary of every length is one of the constant. -/
theorem Descriptor.dvd_size {d : Descriptor} {b : Nat}
    (h : ∀ n ∈ d.lengths, b ∣ n) : b ∣ d.size := by
  obtain ⟨text, dup, kind, explicit, nominal, lengths⟩ := d
  refine Nat.dvd_mul_right_of_dvd ?_ dup
  unfold itemSize
  simp only at h ⊢
  induction lengths with
  | nil => simp
  | cons n rest ih =>
      rw [List.foldr_cons]
      exact Nat.dvd_add (h n List.mem_cons_self)
        (ih fun m hm => h m (List.mem_cons_of_mem n hm))

/-- The length without a modifier is in the range of the type. -/
theorem Kind.natural_mem (kind : Kind) :
    kind.minLength ≤ kind.natural ∧ kind.natural ≤ kind.maxLength := by
  cases kind <;> decide

/-- The length of a value is in the range of its type. -/
theorem measureValue_range {text value : Bytes} {kind : Kind}
    {n : Nat} (h : measureValue text kind value = .ok n) :
    kind.minLength ≤ n ∧ n ≤ kind.maxLength := by
  unfold measureValue at h
  split at h
  · simp at h
  · split at h
    · simp at h
    · obtain rfl := Except.ok.inj h
      omega

/-- A length that a value has by itself is a multiple of the boundary of its
type. -/
theorem measureValue_dvd {text value : Bytes} {kind : Kind} {n : Nat}
    (h : measureValue text kind value = .ok n) : kind.alignment ∣ n := by
  unfold measureValue at h
  split at h
  · simp at h
  · rename_i m hm
    split at h
    · simp at h
    · obtain rfl := Except.ok.inj h
      cases kind <;> simp_all [impliedLength, Kind.alignment, Kind.natural]

/-- A list is gone through until something fails. -/
theorem forall₂_mapM {ε α β : Type} {f : α → Except ε β} {items : List α}
    {values : List β} (h : items.mapM f = .ok values) :
    List.Forall₂ (fun a b => f a = .ok b) items values := by
  induction items generalizing values with
  | nil =>
      obtain rfl := Except.ok.inj h
      exact .nil
  | cons a rest ih =>
      rw [List.mapM_cons] at h
      cases hfirst : f a with
      | error e => simp [hfirst, bind, Except.bind] at h
      | ok b =>
          cases hrest : rest.mapM f with
          | error e => simp [hfirst, hrest, bind, Except.bind] at h
          | ok others =>
              simp only [hfirst, hrest, bind, Except.bind, pure, Except.pure,
                Except.ok.injEq] at h
              obtain rfl := h
              exact .cons hfirst (ih hrest)

/-- What holds of the length of every value holds of all lengths that are
measured. -/
theorem mapM_measureValue {text : Bytes} {kind : Kind} {P : Nat → Prop}
    (hvalue : ∀ value n, measureValue text kind value = .ok n → P n)
    {values : List Bytes} {lengths : List Nat}
    (h : values.mapM (measureValue text kind) = .ok lengths) :
    lengths.length = values.length ∧ ∀ n ∈ lengths, P n := by
  have hmeasured := forall₂_mapM h
  clear h
  induction hmeasured with
  | nil => simp
  | cons hfirst _ ih =>
      obtain ⟨hlength, hall⟩ := ih
      exact ⟨by simp [hlength],
        List.forall_mem_cons.mpr ⟨hvalue _ _ hfirst, hall⟩⟩

/-- Every value has a length in the range of its type, and without a length
modifier it is a multiple of the boundary. -/
theorem measure_spec {text : Bytes} {kind : Kind} {explicit : Option Nat}
    {nominal : List Bytes} {lengths : List Nat}
    (hexplicit : ∀ n, explicit = some n → kind.minLength ≤ n ∧
      n ≤ kind.maxLength)
    (h : measure text kind explicit nominal = .ok lengths) :
    (nominal ≠ [] → lengths.length = nominal.length) ∧
      (∀ n ∈ lengths, kind.minLength ≤ n ∧ n ≤ kind.maxLength) ∧
      (explicit = none → ∀ n ∈ lengths, kind.alignment ∣ n) := by
  unfold measure at h
  split at h
  · obtain rfl := Except.ok.inj h
    exact ⟨by simp, by simpa using hexplicit _ rfl, by simp⟩
  · obtain rfl := Except.ok.inj h
    exact ⟨by simp, by simpa using kind.natural_mem, by simp [Kind.alignment]⟩
  · obtain rfl := Except.ok.inj h
    refine ⟨by simp, fun m hm => ?_, by simp⟩
    obtain ⟨_, -, rfl⟩ := List.mem_map.mp hm
    exact hexplicit _ rfl
  · obtain ⟨hlength, hrange⟩ :=
      mapM_measureValue (fun _ _ => measureValue_range) h
    exact ⟨fun _ => hlength, hrange,
      fun _ => (mapM_measureValue (fun _ _ => measureValue_dvd) h).2⟩

/-- The length modifier is in the range of the type. -/
theorem parseLength_range {ε : Type} {eval : Bytes → Traced ε Int64}
    {text rest rest' : Bytes} {kind : Kind} {explicit : Option Nat}
    (h : (parseLength eval text kind rest).result = .ok (explicit, rest')) :
    ∀ n, explicit = some n → kind.minLength ≤ n ∧ n ≤ kind.maxLength := by
  unfold parseLength at h
  split at h
  · obtain ⟨rfl, rfl⟩ := Prod.mk.inj (Except.ok.inj h)
    simp
  · split at h
    · obtain ⟨⟨n, after⟩, -, hlength⟩ := Traced.result_andThen_eq_ok h
      simp only at hlength
      split at hlength
      · simp [Traced.fail] at hlength
      · obtain ⟨rfl, rfl⟩ := Prod.mk.inj (Except.ok.inj hlength)
        intro m hm
        obtain rfl := Option.some.inj hm
        omega
    · obtain ⟨rfl, rfl⟩ := Prod.mk.inj (Except.ok.inj h)
      simp

section Reads

variable {ε : Type} {eval : Bytes → Traced ε Int64} {text : Bytes}
  {d : Descriptor}

/-- What an operand says, whatever its size: a duplication factor that is not
negative, a type, a length modifier if there is one, and values, each with a
length. -/
inductive Reads (eval : Bytes → Traced ε Int64) (text : Bytes) :
    Descriptor → Prop where
  | intro {dup : Int64} {letter : UInt8} {rest after : Bytes}
      {kind : Kind} {explicit : Option Nat} {nominal : List Bytes}
        {lengths : List Nat} (hfactor : (parseDuplication eval text).result =
        .ok (dup, letter :: rest)) (hnonneg : ¬ dup < 0)
      (hkind : Kind.ofLetter? (upperAscii letter) = some kind)
      (hexplicit : (parseLength eval text kind rest).result =
        .ok (explicit, after))
      (hvalues : parseNominal text kind after = .ok nominal)
      (hmeasured : measure text kind explicit nominal = .ok lengths) :
      Reads eval text ⟨text, dup.toInt.toNat, kind, explicit, nominal, lengths⟩

/-- The size of an operand is looked at when all of it is read. -/
theorem Reads.result_parse (h : Reads eval text d) : (parse eval text).result =
    if maxSize < d.size then
      .error (.constant (.outOfRange text maxSize)) else .ok d := by
  cases h with
  | intro hfactor hnonneg hkind hexplicit hvalues hmeasured =>
      unfold parse
      rw [Traced.result_andThen_ok hfactor]
      simp only [if_neg hnonneg, hkind]
      rw [Traced.result_andThen_ok hexplicit]
      simp only [complete, hvalues, hmeasured, bind, Except.bind,
        Traced.ofExcept, Traced.mapError]
      generalize Descriptor.mk _ _ _ _ _ _ = d
      by_cases hlarge : maxSize < d.size
      · rw [if_pos hlarge, if_pos hlarge]
      · rw [if_neg hlarge, if_neg hlarge]

/-- A parsed operand says what was parsed. -/
theorem reads_of_parse (h : (parse eval text).result = .ok d) :
    Reads eval text d := by
  obtain ⟨⟨dup, rest⟩, hfactor, h⟩ := Traced.result_andThen_eq_ok h
  simp only at h
  split at h
  · simp [Traced.fail] at h
  · rename_i hnonneg
    split at h
    · simp [Traced.fail] at h
    · split at h
      · simp [Traced.fail] at h
      · rename_i hkind
        obtain ⟨⟨explicit, after⟩, hexplicit, h⟩ :=
          Traced.result_andThen_eq_ok h
        simp only [complete, bind, Except.bind, Traced.ofExcept,
          Traced.mapError] at h
        split at h
        · rename_i hok
          obtain rfl := Except.ok.inj h
          split at hok
          · simp at hok
          · rename_i hvalues
            split at hok
            · simp at hok
            · rename_i hmeasured
              split at hok
              · simp at hok
              · obtain rfl := Except.ok.inj hok
                exact .intro hfactor hnonneg hkind hexplicit hvalues hmeasured
        · simp at h

/-- **An operand is accepted if it is not too big.** -/
theorem parse_eq_ok_iff :
    (parse eval text).result = .ok d ↔ Reads eval text d ∧
      d.size ≤ maxSize := by
  constructor
  · intro h
    have hreads := reads_of_parse h
    refine ⟨hreads, Nat.le_of_not_lt fun hlarge => ?_⟩
    rw [hreads.result_parse, if_pos hlarge] at h
    simp at h
  · rintro ⟨hreads, hsize⟩
    rw [hreads.result_parse, if_neg (Nat.not_lt.mpr hsize)]

/-! ### The expressions of an operand -/

/-- The text in parentheses at the start of a text. -/
def group? (text : Bytes) : Option Bytes :=
  if text.head? = some Scan.openParen then
    (Scan.parenthesized? text).map (·.1) else none

/-- The text behind the duplication factor. -/
def behindFactor (text : Bytes) : Bytes :=
  if text.head? = some Scan.openParen then
    ((Scan.parenthesized? text).map (·.2)).getD []
  else text.dropWhile isDigit

/-- The expression of the length modifier at the start of a text. -/
def modifier? : Bytes → Option Bytes
  | [] => none
  | c :: rest => if upperAscii c = octet 'L' then group? rest else none

/-- The expressions of an operand: that of its duplication factor and that of
its length modifier. -/
def expressions (text : Bytes) : List Bytes :=
  (group? text).toList ++ (modifier? (behindFactor text).tail).toList

variable {eval' : Bytes → Traced ε Int64} {d' : Descriptor} {e : Bytes}

/-- The expressions of a constant are its duplication factor and its length. -/
theorem mem_expressions : e ∈ expressions text ↔
    group? text = some e ∨ modifier? (behindFactor text).tail = some e := by
  simp [expressions]

/-- What stands behind the duplication factor. -/
theorem behindFactor_eq {dup : Int64}
    {rest : Bytes} (h : (parseDuplication eval text).result = .ok (dup, rest)) :
    behindFactor text = rest := by
  unfold parseDuplication at h
  unfold behindFactor
  split at h
  · rename_i hopen
    rw [if_pos hopen]
    split at h
    · simp [Traced.fail] at h
    · rename_i inner after hgroup
      obtain ⟨n, -, hn⟩ := Traced.result_andThen_eq_ok h
      rw [hgroup]
      exact (Prod.mk.inj (Except.ok.inj hn)).2
  · rename_i hopen
    rw [if_neg hopen]
    simp only at h
    split at h
    · rename_i hnone
      obtain ⟨-, rfl⟩ := Prod.mk.inj (Except.ok.inj h)
      have hall := List.takeWhile_append_dropWhile (p := isDigit) (l := text)
      rwa [hnone] at hall
    · split at h
      · exact (Prod.mk.inj (Except.ok.inj h)).2
      · simp [Traced.fail] at h

theorem ofNat_toNat_toInt {n : Int64} (h : 0 ≤ n.toInt) :
    Int64.ofNat n.toInt.toNat = n := by
  rw [← Int64.ofInt_eq_ofNat, Int.toNat_of_nonneg h, Int64.ofInt_toInt]

/-- A length modifier in parentheses is the value of its expression. -/
theorem result_of_modifier {kind : Kind} {rest after : Bytes}
    {explicit : Option Nat}
    (h : (parseLength eval text kind rest).result = .ok (explicit, after))
    (he : modifier? rest = some e) :
    ∃ n, explicit = some n ∧ (eval e).result = .ok (Int64.ofNat n) := by
  unfold parseLength at h
  unfold modifier? group? at he
  split at h
  · simp at he
  · split at h
    · rename_i hletter
      simp only [if_pos hletter] at he
      split at he
      · rename_i hopen
        obtain ⟨⟨inner, behind⟩, hgroup, rfl⟩ := Option.map_eq_some_iff.mp he
        obtain ⟨⟨n, behind'⟩, hvalue, hlength⟩ := Traced.result_andThen_eq_ok h
        rw [parseLengthValue, if_pos hopen, hgroup] at hvalue
        obtain ⟨m, hm, heq⟩ := Traced.result_andThen_eq_ok hvalue
        obtain ⟨rfl, -⟩ := Prod.mk.inj (Except.ok.inj heq)
        simp only at hlength
        split at hlength
        · simp [Traced.fail] at hlength
        · rename_i hrange
          obtain ⟨rfl, -⟩ := Prod.mk.inj (Except.ok.inj hlength)
          refine ⟨_, rfl, ?_⟩
          rw [ofNat_toNat_toInt (by omega)]
          exact Traced.result_mapError_eq_ok.mp hm
      · simp at he
    · rename_i hletter
      simp [hletter] at he

/-- **A duplication factor in parentheses** is the value of its expression. -/
theorem Reads.factor (h : Reads eval text d) (he : group? text = some e) :
    (eval e).result = .ok (Int64.ofNat d.dup) := by
  unfold group? at he
  split at he
  · rename_i hopen
    obtain ⟨⟨inner, after⟩, hgroup, rfl⟩ := Option.map_eq_some_iff.mp he
    cases h with
    | intro hfactor hnonneg =>
        rw [parseDuplication, if_pos hopen, hgroup] at hfactor
        obtain ⟨n, hn, heq⟩ := Traced.result_andThen_eq_ok hfactor
        obtain ⟨rfl, -⟩ := Prod.mk.inj (Except.ok.inj heq)
        have hsign : 0 ≤ n.toInt := by
          rw [Int64.lt_iff_toInt_lt] at hnonneg
          simpa using hnonneg
        rw [ofNat_toNat_toInt hsign]
        exact Traced.result_mapError_eq_ok.mp hn
  · simp at he

/-- **A length modifier in parentheses** is the value of its expression. -/
theorem Reads.modifier (h : Reads eval text d)
    (he : modifier? (behindFactor text).tail = some e) :
    ∃ n, d.explicitLength = some n ∧ (eval e).result = .ok (Int64.ofNat n) := by
  cases h with
  | intro hfactor _ _ hexplicit =>
      rw [behindFactor_eq hfactor] at he
      exact result_of_modifier hexplicit he

/-- An operand that was read had values for its expressions. -/
theorem Reads.evaluates (h : Reads eval text d) (he : e ∈ expressions text) :
    ∃ n, (eval e).result = .ok n := by
  rcases mem_expressions.mp he with he | he
  · exact ⟨_, h.factor he⟩
  · obtain ⟨n, -, hn⟩ := h.modifier he
    exact ⟨_, hn⟩

/-- The duplication factor is a matter of the value of its expression. -/
theorem result_parseDuplication_congr
    (h : ∀ e, group? text = some e → (eval e).result = (eval' e).result) :
    (parseDuplication eval text).result =
      (parseDuplication eval' text).result := by
  unfold parseDuplication
  split
  · rename_i hopen
    cases hinner : Scan.parenthesized? text with
    | none => rfl
    | some split =>
        have hsame := h split.1 (by simp [group?, hopen, hinner])
        exact Traced.result_andThen_congr
          (Traced.result_mapError_congr hsame _) _
  · rfl

/-- So is the length modifier. -/
theorem result_parseLength_congr {kind : Kind} {rest : Bytes}
    (h : ∀ e, modifier? rest = some e → (eval e).result = (eval' e).result) :
    (parseLength eval text kind rest).result =
      (parseLength eval' text kind rest).result := by
  unfold parseLength
  split
  · rfl
  · rename_i c after
    split
    · rename_i hletter
      refine Traced.result_andThen_congr ?_ _
      unfold parseLengthValue
      split
      · rename_i hopen
        cases hinner : Scan.parenthesized? after with
        | none => rfl
        | some split =>
            have hsame :=
              h split.1 (by simp [modifier?, group?, hletter, hopen, hinner])
            exact Traced.result_andThen_congr
              (Traced.result_mapError_congr hsame _) _
      · rfl
    · rfl

/-- What an operand says depends on nothing but the values of its
expressions. -/
theorem Reads.congr (h : Reads eval text d)
    (hsame : ∀ e ∈ expressions text, (eval e).result = (eval' e).result) :
    Reads eval' text d := by
  cases h with
  | @intro dup letter rest after kind _ _ _ hfactor hnonneg hkind hexplicit
    hvalues hmeasured =>
      have hbehind : modifier? (behindFactor text).tail = modifier? rest := by
        rw [behindFactor_eq hfactor, List.tail_cons]
      have hfactor' : (parseDuplication eval' text).result =
          .ok (dup, letter :: rest) :=
        (result_parseDuplication_congr fun e he =>
          hsame e (mem_expressions.mpr (.inl he))).symm.trans hfactor
      have hexplicit' : (parseLength eval' text kind rest).result =
          .ok (_, after) :=
        (result_parseLength_congr fun e he =>
          hsame e (mem_expressions.mpr (.inr (hbehind.trans he)))).symm.trans
            hexplicit
      exact .intro hfactor' hnonneg hkind hexplicit' hvalues hmeasured

/-- **Two readings of one operand** are the same if and only if its expressions
have the same values. -/
theorem parse_eq_iff (h : (parse eval text).result = .ok d)
    (h' : (parse eval' text).result = .ok d') :
    d = d' ↔ ∀ e ∈ expressions text, (eval e).result = (eval' e).result := by
  have hreads := reads_of_parse h
  have hreads' := reads_of_parse h'
  constructor
  · rintro rfl e he
    rcases mem_expressions.mp he with he | he
    · rw [hreads.factor he, hreads'.factor he]
    · obtain ⟨n, hn, hvalue⟩ := hreads.modifier he
      obtain ⟨n', hn', hvalue'⟩ := hreads'.modifier he
      obtain rfl := Option.some.inj (hn.symm.trans hn')
      rw [hvalue, hvalue']
  · intro hsame
    have hboth :=
      parse_eq_ok_iff.mpr ⟨hreads.congr hsame, (parse_eq_ok_iff.mp h).2⟩
    exact Except.ok.inj (hboth.symm.trans h')

/-- An operand says the same if its expressions have at least the values that
they had. -/
theorem result_parse_mono (h : (parse eval text).result = .ok d)
    (hmore : ∀ e n, (eval e).result = .ok n → (eval' e).result = .ok n) :
    (parse eval' text).result = .ok d := by
  have hreads := reads_of_parse h
  refine parse_eq_ok_iff.mpr ⟨hreads.congr fun e he => ?_,
    (parse_eq_ok_iff.mp h).2⟩
  obtain ⟨n, hn⟩ := hreads.evaluates he
  rw [hn, hmore e n hn]

end Reads

/-- **A parsed constant is sound.** -/
theorem parse_sound {ε : Type} {eval : Bytes → Traced ε Int64} {text : Bytes}
    {d : Descriptor} (h : (parse eval text).result = .ok d) : d.Sound := by
  obtain ⟨hreads, hsize⟩ := parse_eq_ok_iff.mp h
  cases hreads with
  | @intro _ _ _ _ _ explicit _ _ _ _ _ hexplicit _ hmeasured =>
      obtain ⟨hpaired, hranged, hwhole⟩ :=
        measure_spec (parseLength_range hexplicit) hmeasured
      refine ⟨hpaired, hranged, hsize, Descriptor.dvd_size ?_⟩
      unfold Descriptor.alignment
      cases explicit with
      | some n => exact fun _ _ => Nat.one_dvd _
      | none => exact hwhole rfl

/-- Without a length modifier every value has the length that it has by
itself. -/
theorem parse_measured {ε : Type} {eval : Bytes → Traced ε Int64} {text : Bytes}
    {d : Descriptor} (h : (parse eval text).result = .ok d)
    (hexplicit : d.explicitLength = none) (hnominal : d.nominal ≠ []) :
    List.Forall₂ (fun value n => measureValue text d.kind value = .ok n)
      d.nominal d.lengths := by
  obtain ⟨-, -, -, -, -, hmeasured⟩ := reads_of_parse h
  simp only at hexplicit hnominal ⊢
  obtain ⟨value, others, rfl⟩ := List.exists_cons_of_ne_nil hnominal
  rw [hexplicit] at hmeasured
  exact forall₂_mapM hmeasured

end Constant

end System370
