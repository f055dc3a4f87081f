import System370.Layout.Basic

/-!
# Labels

Names of sections, external names and names for other assemblies are labels: at
most eight octets, each a capital, a digit or one of `$`, `#`, `@` and `_`.  A
statement may write them in small letters, and with any letters whose capitals
are among these; what the table has of them are the capitals.

* `isLabel_toUpper`: the capitals of a name are a label if they are a symbol;
* `isLabel_of_badLabelChar?`: so are the capitals of a label that was checked;
* `IsLabel.toUpper_eq`: a label is its own capitals.
-/

namespace System370

/-- Whether an octet is a small letter. -/
def isSmall (c : UInt8) : Bool := 0x61 ≤ c && c ≤ 0x7A

/-- What is left of a name in the table. -/
structure IsLabel (name : Bytes) : Prop where
  length : name.length ≤ Draft.maxLabel
  octets : ∀ c ∈ name, isSymbolChar c = true ∧ isSmall c = false

theorem isLabel_nil : IsLabel [] := ⟨by decide, by simp⟩

/-! ### Capitals -/

/-- What holds of all 256 octets. -/
theorem forall_octet {P : UInt8 → Prop} (h : ∀ n < 256, P (UInt8.ofNat n))
    (c : UInt8) :
    P c := by
  have := h c.toNat c.toNat_lt
  rwa [UInt8.ofNat_toNat] at this

/-- An octet of seven bits is a character on its own. -/
theorem Utf8.decode_ascii {text : Bytes} (h : ∀ c ∈ text, c < 0x80) :
    Utf8.decode text = text.map fun c => ⟨c.toNat, [c]⟩ := by
  unfold decode
  induction text with
  | nil => rfl
  | cons c rest ih =>
      have hfirst : first c rest = ⟨c.toNat, [c]⟩ :=
        if_pos (h c List.mem_cons_self)
      rw [decodeFrom, hfirst, List.map_cons]
      exact congrArg _ (ih fun d hd => h d (List.mem_cons_of_mem _ hd))

/-- The capitals of a text of seven bits, octet by octet. -/
theorem toUpper_ascii {text : Bytes} (h : ∀ c ∈ text, c < 0x80) :
    toUpper text = text.map fun c => if isSmall c then c - 0x20 else c := by
  have hoctet : ∀ c : UInt8, c < 0x80 → Utf8.encode (LetterCase.upper c.toNat) =
      [if isSmall c then c - 0x20 else c] := by
    apply forall_octet
    decide +kernel
  unfold toUpper
  rw [Utf8.decode_ascii h, List.flatMap_map]
  induction text with
  | nil => rfl
  | cons c rest ih =>
      rw [List.flatMap_cons, List.map_cons, hoctet c (h c List.mem_cons_self),
        ih fun d hd => h d (List.mem_cons_of_mem _ hd)]
      rfl

/-- No capital of another script becomes a small Latin letter. -/
theorem LetterCase.not_small_of_mem : ∀ r ∈ capitals,
    r.high < 0x80 ∨ 0x7A < r.low + r.shift ∨ r.high + r.shift < 0x61 := by
  decide +kernel

/-- No capital is a small letter. -/
theorem LetterCase.not_small_upper (code : Nat) :
    ¬ (0x61 ≤ upper code ∧ upper code ≤ 0x7A) := by
  unfold upper
  split
  · split <;> omega
  · unfold counterpart
    split
    · rename_i r hr
      have hholds := List.find?_some hr
      simp only [Run.holds, Bool.and_eq_true, decide_eq_true_eq] at hholds
      have hrun := not_small_of_mem r (List.mem_of_find?_eq_some hr)
      omega
    · omega

/-- The small letters in a spelling are characters on their own. -/
theorem Utf8.eq_of_small_mem_encode {code : Nat} {c : UInt8}
    (hc : c ∈ encode code) (hsmall : isSmall c = true) : code = c.toNat := by
  simp only [isSmall, Bool.and_eq_true, decide_eq_true_eq,
    UInt8.le_iff_toNat_le] at hsmall
  have hoctet : ∀ n : Nat, n.toUInt8.toNat = n % 256 :=
    fun n => UInt8.toNat_ofNat'
  have hsurrogate : ∀ d ∈ ([0xEF, 0xBF, 0xBD] : Bytes), 0x80 ≤ d.toNat := by
    simp
  unfold encode at hc
  split at hc
  · rw [List.mem_singleton.mp hc, hoctet]
    omega
  · -- every octet of a longer spelling has its first bit set
    have hhigh : 0x80 ≤ c.toNat := by
      split at hc
      · simp only [List.mem_cons, List.not_mem_nil, or_false] at hc
        rcases hc with rfl | rfl <;> rw [hoctet] <;> omega
      · split at hc
        · exact hsurrogate c hc
        · split at hc
          · simp only [List.mem_cons, List.not_mem_nil, or_false] at hc
            rcases hc with rfl | rfl | rfl <;> rw [hoctet] <;> omega
          · simp only [List.mem_cons, List.not_mem_nil, or_false] at hc
            rcases hc with rfl | rfl | rfl | rfl <;> rw [hoctet] <;> omega
    have hlow : c.toNat ≤ 0x7A := hsmall.2
    omega

/-- **There are no small letters among capitals.** -/
theorem isSmall_of_mem_toUpper {text : Bytes} {c : UInt8}
    (hc : c ∈ toUpper text) :
    isSmall c = false := by
  obtain ⟨character, -, hc⟩ := List.mem_flatMap.mp hc
  cases hsmall : isSmall c with
  | false => rfl
  | true =>
      have hcode := Utf8.eq_of_small_mem_encode hc hsmall
      refine absurd ?_ (LetterCase.not_small_upper character.code)
      rw [hcode]
      simpa [isSmall, UInt8.le_iff_toNat_le] using hsmall

/-! ### Labels of statements -/

/-- A label without a bad character is a symbol. -/
theorem isSymbolChar_of_badLabelChar? {label : Bytes}
    (h : Draft.badLabelChar? label = none) :
    ∀ c ∈ label, isSymbolChar c = true := by
  cases label with
  | nil => simp
  | cons first rest =>
      unfold Draft.badLabelChar? at h
      simp only at h
      split at h
      · rename_i hstart
        intro c hc
        rcases List.mem_cons.mp hc with rfl | hc
        · simp [isSymbolChar, hstart]
        · simp at h
          exact h c hc
      · simp at h

/-- **The capitals of a name are a label** if they are a symbol. -/
theorem isLabel_toUpper {name : Bytes}
    (h : Draft.isSymbol (toUpper name) = true) :
    IsLabel (toUpper name) := by
  simp only [Draft.isSymbol, Bool.and_eq_true, decide_eq_true_eq,
    Option.isNone_iff_eq_none] at h
  exact ⟨h.1.2, fun c hc => ⟨isSymbolChar_of_badLabelChar? h.2 c hc,
    isSmall_of_mem_toUpper hc⟩⟩

theorem lt_of_isSymbolChar {c : UInt8} (h : isSymbolChar c = true) :
    c < 0x80 := by
  revert c
  apply forall_octet
  decide +kernel

/-- **The capitals of a label that was checked** are a label. -/
theorem isLabel_of_badLabelChar? {label : Bytes}
    (h : Draft.badLabelChar? label = none)
    (hlength : label.length ≤ Draft.maxLabel) : IsLabel (toUpper label) := by
  have hchars := isSymbolChar_of_badLabelChar? h
  have hcapital : ∀ c : UInt8, isSymbolChar c = true →
      isSymbolChar (if isSmall c then c - 0x20 else c) = true := by
    apply forall_octet
    decide +kernel
  have hupper := toUpper_ascii fun c hc => lt_of_isSymbolChar (hchars c hc)
  refine ⟨by rw [hupper, List.length_map]; exact hlength,
    fun c hc => ⟨?_, isSmall_of_mem_toUpper hc⟩⟩
  rw [hupper] at hc
  obtain ⟨d, hd, rfl⟩ := List.mem_map.mp hc
  exact hcapital d (hchars d hd)

/-- A label that was checked is empty if its capitals are. -/
theorem eq_nil_of_toUpper_eq_nil {label : Bytes}
    (h : Draft.badLabelChar? label = none) (hnil : toUpper label = []) :
    label = [] := by
  rw [toUpper_ascii fun c hc =>
    lt_of_isSymbolChar (isSymbolChar_of_badLabelChar? h c hc)] at hnil
  exact List.map_eq_nil_iff.mp hnil

/-- **A label is its own capitals.** -/
theorem IsLabel.toUpper_eq {name : Bytes} (h : IsLabel name) :
    toUpper name = name := by
  rw [toUpper_ascii fun c hc => lt_of_isSymbolChar (h.octets c hc).1]
  refine Eq.trans (List.map_congr_left (g := id) fun c hc => ?_)
    (List.map_id name)
  rw [(h.octets c hc).2]
  rfl

end System370
