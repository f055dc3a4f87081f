import System370.Proofs.NominalValues

/-!
# The size of a constant

The size of a constant is what the layout reserves for it.  It is also what
encoding gives, for every type of data: each value has as many octets as its
length says (`length_encodeValue`), so the values of one copy have `itemSize`
octets together, and there are as many copies as the duplication factor says
(`Descriptor.Sound.repeats_encode`).

The layout looks at one copy only.  That is enough: the values have octets just
if the whole constant has (`Descriptor.validate_eq_none_iff`).
-/

namespace System370

namespace Constant

/-! ### Lengths and sizes -/

section Reads

variable {ε : Type} {eval : Bytes → Traced ε Int64} {text : Bytes}
  {d : Descriptor}

/-- An operand without values has a length all the same. -/
theorem Reads.lengths_ne_nil (h : Reads eval text d) : d.lengths ≠ [] := by
  obtain ⟨-, -, -, -, -, hmeasured⟩ := h
  simp only
  unfold measure at hmeasured
  split at hmeasured
  · simp [← Except.ok.inj hmeasured]
  · simp [← Except.ok.inj hmeasured]
  · rename_i hsome
    rw [← Except.ok.inj hmeasured]
    exact fun hnil => hsome (List.map_eq_nil_iff.mp hnil)
  · rename_i hsome
    rintro rfl
    have hlength := (forall₂_mapM hmeasured).length_eq
    exact hsome (List.length_eq_zero_iff.mp hlength)

/-- The length attribute is the first length. -/
theorem Reads.head?_lengths (h : Reads eval text d) :
    d.lengths.head? = some d.lengthAttribute := by
  obtain ⟨first, rest, hlengths⟩ := List.exists_cons_of_ne_nil h.lengths_ne_nil
  simp [Descriptor.lengthAttribute, hlengths]

end Reads

namespace Descriptor

/-- The product of a word for one copy and a word for their number does not
wrap. -/
theorem toInt_size {d : Descriptor} (h : d.size ≤ maxSize) :
    (Int64.ofNat d.itemSize * Int64.ofNat d.dup).toInt = d.size := by
  have hsmall : ∀ {n : Nat},
      n ≤ maxSize → (Int64.ofNat n).toInt = n := fun hn =>
    Int64.toInt_ofNat_of_lt (Nat.lt_of_le_of_lt hn (by decide))
  rcases Nat.eq_zero_or_pos d.itemSize with hitem | hitem
  · simp [size, hitem]
  · rcases Nat.eq_zero_or_pos d.dup with hdup | hdup
    · simp [size, hdup]
    · have hitem' : d.itemSize ≤ maxSize :=
        Nat.le_trans (Nat.le_mul_of_pos_right _ hdup) h
      have hdup' : d.dup ≤ maxSize :=
        Nat.le_trans (Nat.le_mul_of_pos_left _ hitem) h
      rw [← Int64.ofNat_mul]
      exact hsmall h

end Descriptor

/-! ### The octets of data -/

/-- An integer fills its field. -/
theorem length_encodeInteger {length : Nat} {n : Int64} {octets : Bytes}
    (h : encodeInteger length n = .ok octets) : octets.length = length := by
  unfold encodeInteger at h
  split at h
  · simp at h
  · rw [← Except.ok.inj h, Field.length_put]

theorem length_encodePacked {length : Nat} {d : Decimal} {octets : Bytes}
    (h : encodePacked length d = .ok octets) : octets.length = length := by
  unfold encodePacked at h
  simp only at h
  generalize pairNibbles _ = written at h
  split at h
  · simp at h
  · rw [← Except.ok.inj h, length_rightAlign]

theorem length_encodeZoned {length : Nat} {d : Decimal} {octets : Bytes}
    (h : encodeZoned length d = .ok octets) : octets.length = length := by
  unfold encodeZoned at h
  split at h
  · simp at h
  · rw [← Except.ok.inj h, length_rightAlign]

theorem length_encodeFloat {length : Nat} {value octets : Bytes}
    (hlength : length ≤ 8) (h : encodeFloat length value = .ok octets) :
    octets.length = length := by
  unfold encodeFloat at h
  split at h
  · simp at h
  · split at h
    · rw [← Except.ok.inj h, List.length_take, Field.length_put]
      omega
    · simp at h
    · simp at h

/-- **A value has as many octets as its length says**, whatever its type. -/
theorem length_encodeValue {kind : Kind} {value octets : Bytes}
    {length : Nat} (hlength : length ≤ kind.maxLength)
    (h : encodeValue kind value length = .ok octets) :
    octets.length = length := by
  unfold encodeValue at h
  split at h
  case h_1 | h_2 | h_3 =>
    split at h
    · rw [← Except.ok.inj h]
      simp
    · simp at h
  case h_4 | h_5 =>
    split at h
    · exact length_encodeInteger h
    · simp at h
  case h_6 | h_7 =>
    cases hdecimal : readDecimal value with
    | error e => simp [hdecimal, Except.bind] at h
    | ok d =>
        rw [hdecimal] at h
        first
        | exact length_encodePacked h
        | exact length_encodeZoned h
  case h_8 | h_9 => exact length_encodeFloat hlength h
  all_goals simp at h

/-- The values of one copy have as many octets as their lengths together. -/
theorem length_encodeValues {text : Bytes} {kind : Kind}
    {items : List (Bytes × Nat)} {octets : Bytes}
    (hlengths : ∀ item ∈ items, item.2 ≤ kind.maxLength)
    (h : encodeValues text kind items = .ok octets) :
    octets.length = (items.map (·.2)).sum := by
  obtain ⟨parts, hparts, rfl⟩ := encodeValues_eq_ok.mp h
  clear h
  induction hparts with
  | nil => rfl
  | @cons item part rest parts hfirst hrest ih =>
      rw [List.flatten_cons, List.length_append, List.map_cons, List.sum_cons,
        ih fun other hother => hlengths other (List.mem_cons_of_mem _ hother),
        length_encodeValue (hlengths item List.mem_cons_self) hfirst]

namespace Descriptor

variable {d : Descriptor} {octets : Bytes}

/-- Whether octets are equal copies, as many as the duplication factor says, of
the size that the values have together. -/
def Repeats (d : Descriptor) (octets : Bytes) : Prop :=
  ∃ copy : Bytes, copy.length = d.itemSize ∧
    octets = (List.replicate d.dup copy).flatten

/-- Copies have the size of the constant. -/
theorem Repeats.length (h : d.Repeats octets) : octets.length = d.size := by
  obtain ⟨copy, hcopy, rfl⟩ := h
  rw [List.length_flatten, List.map_replicate, List.sum_replicate_nat, hcopy,
    size, Nat.mul_comm]

/-- The lengths of the values are all the lengths there are. -/
theorem Sound.map_snd_zip (h : d.Sound) (hnominal : d.nominal ≠ []) :
    (d.nominal.zip d.lengths).map (·.2) = d.lengths :=
  List.map_snd_zip (Nat.le_of_eq (h.paired hnominal))

/-- **Encoding gives the size that is reserved**, as equal copies. -/
theorem Sound.repeats_encode (h : d.Sound) (hencode : d.encode = .ok octets) :
    d.Repeats octets := by
  rw [encode_eq_ok_iff, encoding] at hencode
  split at hencode
  · rw [← Except.ok.inj hencode]
    refine ⟨List.replicate d.itemSize 0, List.length_replicate, ?_⟩
    rw [List.flatten_replicate_replicate, size, Nat.mul_comm]
  · rename_i hvalues
    unfold encodeOnce at hencode
    split at hencode
    · simp [Except.map] at hencode
    · rename_i hdata
      have hnominal : d.nominal ≠ [] :=
        fun hnil => hvalues ⟨hnil, Bool.eq_false_iff.mpr hdata⟩
      cases hitem : encodeValues d.text d.kind (d.nominal.zip d.lengths) with
      | error e => simp [hitem, Except.map] at hencode
      | ok item =>
          rw [hitem] at hencode
          refine ⟨item, ?_, (Except.ok.inj hencode).symm⟩
          rw [itemSize, ← h.map_snd_zip hnominal]
          exact length_encodeValues
            (fun value hvalue => (h.ranged _ (List.of_mem_zip hvalue).2).2)
              hitem

/-- **Checking one copy is enough**: data has octets just if one copy of its
values has.  A check that never comes to an end belongs to an encoding that does
not either. -/
theorem validation_eq_ok_iff (hdata : d.kind.isAddress = false) :
    d.validation = .ok () ↔ ∃ octets, d.encoding = .ok octets := by
  by_cases hnominal : d.nominal = []
  · simp [validation, encoding, encodeOnce, hdata, hnominal,
      encodeValues, Except.map]
  · unfold validation encoding
    rw [if_neg fun hnone => hnominal hnone.1]
    cases d.encodeOnce <;> simp [Except.map]

/-- A check and an encoding fail for the same reason, unless there is no value
to check. -/
theorem encoding_eq_error_iff {failure : Failure}
    (hdata : d.kind.isAddress = false) :
    d.encoding = .error failure ↔ d.validation = .error failure := by
  by_cases hnominal : d.nominal = []
  · simp [validation, encoding, encodeOnce, hdata, hnominal,
      encodeValues, Except.map]
  · unfold validation encoding
    rw [if_neg fun hnone => hnominal hnone.1]
    cases d.encodeOnce <;> simp [Except.map]

end Descriptor

end Constant

end System370
