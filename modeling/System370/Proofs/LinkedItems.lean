import Mathlib.Tactic.NormNum
import Mathlib.Tactic.Ring
import System370.Proofs.CardFields
import System370.Proofs.LinkedTable
import System370.Proofs.PatchLayout

/-!
# Linked address constants

Whatever addresses a linker chooses, an item of an address constant holds the
value of its expression at those addresses afterwards: `Assembly.linked_items`.

The field of an item begins with the value at the addresses that the assembler
chose.  Its relocations add the displacement of each term as often as the term
counts, and a field of at most four octets does not see what is lost at 64 bits.
No other item and no other record has octets in the field.
-/

namespace System370

/-! ### Computing modulo the length of a field -/

/-- A field of at most four octets is a part of a fullword. -/
theorem modulus_dvd {length : Nat} (h : length ≤ 4) :
    (256 : Int) ^ length ∣ 2 ^ 32 := by
  have hpow : (2 : Int) ^ 32 = 256 ^ 4 := by norm_num
  rw [hpow]
  exact pow_dvd_pow 256 h

section Congruence

variable {modulus : Int}

/-- Sums of words agree with sums of integers up to the modulus. -/
theorem toInt_add_modEq (h : modulus ∣ 2 ^ 64) (a b : Int64) :
    (a + b).toInt ≡ a.toInt + b.toInt [ZMOD modulus] := by
  apply Int.ModEq.of_dvd h
  rw [Int64.toInt_add]
  exact Int.bmod_emod

/-- So do products. -/
theorem toInt_mul_modEq (h : modulus ∣ 2 ^ 64) (a b : Int64) :
    (a * b).toInt ≡ a.toInt * b.toInt [ZMOD modulus] := by
  apply Int.ModEq.of_dvd h
  rw [Int64.toInt_mul]
  exact Int.bmod_emod

end Congruence

namespace Deck.Relocation

variable {displacement : Int → Int}

/-- Relocations behind relocations. -/
theorem total_append (relocations others : List Relocation) (n : Int) :
    total displacement (relocations ++ others) n =
      total displacement others (total displacement relocations n) := by
  unfold total
  rw [List.foldl_append]

/-- One relocation, several times. -/
theorem total_replicate {r : Relocation}
    {step : Int} (h : ∀ n, r.action.change (displacement r.target) n = n + step)
    (count : Nat) (n : Int) :
    total displacement (List.replicate count r) n = n + count * step := by
  induction count generalizing n with
  | zero => simp [total]
  | succ count ih =>
      have hfirst : total displacement (List.replicate (count + 1) r) n =
          total displacement (List.replicate count r) (n + step) := by
        simp [total, List.replicate_succ, h]
      rw [hfirst, ih]
      push_cast
      ring

/-- **The relocations of a term** add its target as often as it counts. -/
theorem total_termRelocations {t : SymbolTable} {place : Expression.Place}
    {length : Nat} {modulus : Int} (hmodulus : modulus ∣ 2 ^ 32)
    (term : Term) (hsection : 0 ≤ term.target.sectionId) (n : Int) :
    total displacement (Generate.termRelocations t place length term) n ≡
      n + term.sign.toInt * displacement (t.linkId term.target)
        [ZMOD modulus] := by
  unfold Generate.termRelocations
  rw [if_neg (Int.not_lt.mpr hsection)]
  have hlow := term.sign.le_toInt
  have hhigh := term.sign.toInt_lt
  by_cases hneg : term.sign < 0
  · have hsign : term.sign.toInt < 0 := by
      rw [Int64.lt_iff_toInt_lt, Int64.toInt_zero] at hneg
      exact hneg
    simp only [hneg, if_true]
    rw [total_replicate fun n => Int.sub_eq_add_neg]
    by_cases hleast : term.sign.toInt = -2 ^ 63
    · -- the opposite of the least number is itself, and a field does not see it
      have hcount : (-term.sign).toInt.toNat = 0 := by
        rw [Int64.toInt_neg, hleast]
        decide
      have hzero :
          modulus ∣ term.sign.toInt * displacement (t.linkId term.target) := by
        rw [hleast]
        refine Dvd.dvd.mul_right ?_ _
        refine dvd_trans hmodulus ?_
        norm_num
      rw [hcount]
      simp only [Nat.cast_zero, zero_mul, add_zero]
      apply Int.modEq_iff_dvd.mpr
      rwa [add_sub_cancel_left]
    · have hcount : ((-term.sign).toInt.toNat : Int) = -term.sign.toInt := by
        have hopposite : (-term.sign).toInt = -term.sign.toInt := by
          rw [Int64.toInt_neg]
          exact Int.bmod_eq_of_le (by omega) (by omega)
        rw [hopposite]
        omega
      rw [hcount, neg_mul_neg]
  · have hsign : 0 ≤ term.sign.toInt := by
      rw [Int64.lt_iff_toInt_lt, Int64.toInt_zero] at hneg
      omega
    simp only [hneg, if_false]
    rw [total_replicate fun n => rfl, Int.toNat_of_nonneg hsign]

end Deck.Relocation

/-! ### What the relocations of an item make of it -/

section Totals

variable {t : SymbolTable} {options : Options} {modes : List (Bytes × Modes)}
  {m : Deck.Module} {link : Linkage}

/-- The relocations of all terms add the displacements of their targets. -/
theorem Deck.Relocation.total_terms (h : t.WellFormed)
    (hm : m.symbols = Deck.symbolsOf options modes t.normalize)
    (place : Expression.Place) (length : Nat) {modulus : Int}
    (hmodulus : modulus ∣ 2 ^ 32) {terms : List Term}
    (hknown : ∀ term ∈ terms, t.Knows term.target) (n : Int) :
    total (m.displacement link)
        (terms.flatMap (Generate.termRelocations t.normalize place length)) n ≡
      n + (Value.sumAt (link.move t.normalize) terms).toInt [ZMOD modulus] := by
  have hword : modulus ∣ 2 ^ 64 := by
    refine dvd_trans hmodulus ?_
    norm_num
  induction terms generalizing n with
  | nil => simp [total, Value.sumAt]
  | cons term rest ih =>
      have hterm := hknown term List.mem_cons_self
      have hrest :=
        fun n => ih (fun u hu => hknown u (List.mem_cons_of_mem _ hu)) n
      -- one term, as a product of words
      have hfirst : total (m.displacement link)
          (Generate.termRelocations t.normalize place length term) n ≡
          n + (term.sign * link.move t.normalize term.target).toInt
            [ZMOD modulus] := by
        by_cases hsection : 0 ≤ term.target.sectionId
        · have hmove := (@Deck.displacement_linkId _ _ _ _ link h hm _ hterm
            hsection).of_dvd hword
          have hproduct := (toInt_mul_modEq hword term.sign
            (link.move t.normalize term.target)).symm
          exact (total_termRelocations hmodulus term hsection n).trans
            (((hmove.mul_left term.sign.toInt).trans hproduct).add_left n)
        · have hmove : link.move t.normalize term.target = 0 := by
            cases htarget : term.target with
            | origin id =>
                have hneg : ¬ 0 < id := by
                  rw [htarget, Target.sectionId] at hsection
                  omega
                simp [Linkage.move, hneg]
            | external name id => simp [htarget, Target.sectionId] at hsection
          simp [Generate.termRelocations, Int.not_le.mp hsection, total, hmove]
      rw [List.flatMap_cons, total_append, Value.sumAt]
      have hsum :=
        toInt_add_modEq hword (term.sign * link.move t.normalize term.target)
          (Value.sumAt (link.move t.normalize) rest)
      calc
        _ ≡ total (m.displacement link)
              (Generate.termRelocations t.normalize place length term) n +
            (Value.sumAt (link.move t.normalize) rest).toInt [ZMOD modulus] :=
          hrest _
        _ ≡ n + (term.sign * link.move t.normalize term.target).toInt +
            (Value.sumAt (link.move t.normalize) rest).toInt [ZMOD modulus] :=
          hfirst.add_right _
        _ ≡ _ [ZMOD modulus] := by
            rw [Int.add_assoc]
            exact hsum.symm.add_left n

/-- The targets of an expression after placing are those that the table knew
before. -/
theorem SymbolTable.WellFormed.targets_evaluate_normalize (h : t.WellFormed)
    {place : Expression.Place}
    (hplace : place.sectionId ≠ 0 → ∃ s, t.section? place.sectionId = some s)
    {text : Bytes} {result : Expression.Result}
    (hresult : (Expression.evaluate t.normalize place text).result =
      .ok result) :
    result.value.Targets t.Knows := by
  refine Expression.targets_evaluate ?_ ?_ hresult
  · intro name d hd
    rw [SymbolTable.definition?_normalize h.numbered.unplaced] at hd
    obtain ⟨d₀, hd₀, rfl⟩ := Option.map_eq_some_iff.mp hd
    exact h.linked.targets name d₀ hd₀
  · intro term hterm
    by_cases hzero : place.sectionId = 0
    · simp [Expression.Place.value, hzero, Value.absolute] at hterm
    · simp only [Expression.Place.value, hzero, if_false, Value.relocatable,
        List.mem_singleton] at hterm
      rw [hterm]
      exact hplace hzero

namespace Patch.Made

variable {p : Patch}

/-- **An expression gets its value at the new addresses.** -/
theorem total_value (hp : p.Made t.normalize) (h : t.WellFormed)
    (hm : m.symbols = Deck.symbolsOf options modes t.normalize)
    (hplace : ∃ s, t.section? p.item.place.sectionId = some s)
    (hpos : 0 < p.item.place.sectionId) (hlength : p.item.length ≤ 4)
    (hkind : p.item.kind = .address ∨ p.item.kind = .halfAddress) :
    Deck.Relocation.total (m.displacement link) p.relocations
      (Field.get p.data) ≡
      (Expression.numeric (Expression.readingOf t
        { p.item.place with
          loc := p.item.place.loc - t.normalize.offset p.item.place.sectionId }
        link.spot)
        p.item.nominal).toInt [ZMOD 256 ^ p.item.length] := by
  have hmodulus := modulus_dvd hlength
  cases hp with
  | @value x result _ _ hresult =>
      have hknown := h.targets_evaluate_normalize (fun _ => hplace) hresult
      have htotal := @Deck.Relocation.total_terms _ _ _ _ link h hm x.place
        x.length _ hmodulus _
        hknown (Field.get (Field.put x.length result.value.number.toInt))
      have hfield :
          (Field.get (Field.put x.length result.value.number.toInt) : Int) ≡
          result.value.number.toInt [ZMOD 256 ^ x.length] := by
        rw [Field.get_put]
        exact Int.mod_modEq _ _
      have hlinked := Expression.linked_evaluate (link.move t.normalize) hresult
      rw [h.numbered.readingOf_normalize] at hlinked
      rw [← hlinked]
      refine (htotal.trans (hfield.add_right _)).trans
        (toInt_add_modEq ?_ _ _).symm
      refine dvd_trans hmodulus ?_
      norm_num
  | inner _ hexternal => simp [hexternal] at hkind
  | outer _ hexternal => simp [hexternal] at hkind
  | base hbase => simp [hbase] at hkind
  | aside hsection => exact absurd hpos (Int.not_lt.mpr hsection)

/-- **A name gets its address.** -/
theorem total_external (hp : p.Made t.normalize) (h : t.WellFormed)
    (hm : m.symbols = Deck.symbolsOf options modes t.normalize)
    (hpos : 0 < p.item.place.sectionId)
    (hkind : p.item.kind = .externalAddress) :
    Deck.Relocation.total (m.displacement link) p.relocations
      (Field.get p.data) ≡
      (m.address link (toUpper p.item.nominal)).toInt
        [ZMOD 256 ^ p.item.length] := by
  cases hp with
  | @value x _ _ hvalue =>
      have hexternal : x.kind = .externalAddress := hkind
      simp [hexternal] at hvalue
  | @inner x e _ _ he hlocal =>
      rw [← Deck.displacement_inner h hm he hlocal]
      have hfield : (Field.get
          (Field.put x.length (t.normalize.offset e.sectionId).toInt) : Int) ≡
          (t.normalize.offset e.sectionId).toInt [ZMOD 256 ^ x.length] := by
        rw [Field.get_put]
        exact Int.mod_modEq _ _
      exact hfield.add_right _
  | @outer x e _ _ he hlocal =>
      obtain ⟨hdisplacement, haddress⟩ :=
        Deck.displacement_outer h hm he (Or.inr hlocal)
      rw [haddress, ← hdisplacement]
      exact Int.ModEq.rfl
  | base hbase => simp [hbase] at hkind
  | aside hsection => exact absurd hpos (Int.not_lt.mpr hsection)

end Patch.Made

end Totals

/-! ### Writes that do not overlap -/

namespace Run

/-- Whether two runs have no address in common. -/
def Disjoint (r s : Run) : Prop := ∀ address,
  ¬ (r.Covers address ∧ s.Covers address)

variable {r s : Run}

/-- One of two runs without a common address is behind the other. -/
theorem Disjoint.apart (h : r.Disjoint s) (hr : r.data ≠ [])
    (hs : s.data ≠ []) :
    r.start.toInt + r.data.length ≤ s.start.toInt ∨
      s.start.toInt + s.data.length ≤ r.start.toInt := by
  have hrlength := List.length_pos_iff.mpr hr
  have hslength := List.length_pos_iff.mpr hs
  by_cases hle : r.start.toInt ≤ s.start.toInt
  · have hnot := h s.start.toInt
    unfold Covers at hnot
    omega
  · have hnot := h r.start.toInt
    unfold Covers at hnot
    omega

/-- Runs that end where others begin are apart. -/
theorem disjoint_of_le (h : r.start.toInt + r.data.length ≤ s.start.toInt ∨
    s.start.toInt + s.data.length ≤ r.start.toInt) : r.Disjoint s := by
  intro address hboth
  unfold Covers at hboth
  omega

/-- What a run wrote is still there, if no other run has its addresses. -/
theorem image_of_disjoint {runs : List Run} (h : runs.Pairwise Disjoint)
    (hr : r ∈ runs) {address : Int} (hcovers : r.Covers address) :
    image runs address = r.octet? address := by
  induction runs with
  | nil => simp at hr
  | cons first rest ih =>
      obtain ⟨hfirst, hrest⟩ := List.pairwise_cons.mp h
      rw [image_cons]
      rcases List.mem_cons.mp hr with rfl | hr
      · have hnone : image rest address = none := by
          cases himage : image rest address with
          | none => rfl
          | some octet =>
              obtain ⟨other, hother, hcovers'⟩ :=
                (image_isSome_iff rest address).mp (by simp [himage])
              exact absurd ⟨hcovers, hcovers'⟩ (hfirst other hother address)
        rw [hnone, Option.none_or]
      · obtain ⟨octet, hoctet⟩ :=
          Option.isSome_iff_exists.mp ((octet?_isSome_iff r address).mpr
            hcovers)
        rw [ih hrest hr, hoctet, Option.some_or]

end Run

/-- Patches in writes that do not overlap do not overlap. -/
theorem Patch.Located.apart {r r' : Record} {run run' : Run} {p q : Patch}
    (hwrite : r.write? = some run) (hwrite' : r'.write? = some run')
    (h : run.Disjoint run') (hp : p.Located run.start.toInt run.data)
    (hq : q.Located run'.start.toInt run'.data) :
    p.Apart q := by
  obtain ⟨data, -, -, hdata, rfl⟩ := Record.write?_eq_some_iff.mp hwrite
  obtain ⟨data', -, -, hdata', rfl⟩ := Record.write?_eq_some_iff.mp hwrite'
  obtain ⟨hplow, hphigh, -⟩ := hp
  obtain ⟨hqlow, hqhigh, -⟩ := hq
  rcases h.apart hdata hdata' with hle | hle
  · left
    omega
  · right
    omega

/-! ### The patches of a module -/

/-- What the layout made sure of for a record. -/
structure Record.Shaped (t : SymbolTable) (pool : LiteralPool)
    (r : Record) : Prop where
  anchored : r.sectionId ≠ 0 → ∃ s, t.section? r.sectionId = some s
  chained : r.isConstants = true → Chain 0 (r.constants pool) r.length
  sound : ∀ c ∈ r.constants pool, c.1.Sound

/-- The records with their code are where the layout placed them. -/
theorem Program.shaped_generated {p : Program}
    (hwf : p.layout.WellFormed) (hplaced : ∀ r ∈ p.records, r.Placed p.layout) :
    ∀ r ∈ p.normalize.generated.1,
    r.Shaped p.layout.symbols p.normalize.layout.literals := by
  have hready : ∀ r ∈ p.normalize.records, Generation.Ready r :=
    fun r hr => (settled_records hwf hplaced r hr).ready
  intro r' hr'
  obtain ⟨r, hr, hgenerated⟩ :=
    (Generation.run_spec (Generation.new p.normalize) hready).1 r' hr'
  obtain ⟨r₀, hr₀, rfl⟩ := List.mem_map.mp hr
  have hplace := hplaced r₀ hr₀
  have hbody : r'.body = (moveRecord p.normalize.layout.symbols r₀).body := by
    rw [hgenerated.place]
    rfl
  have hloc : r'.loc = (moveRecord p.normalize.layout.symbols r₀).loc := by
    rw [hgenerated.place]
    rfl
  have hlength : r'.length = r₀.length := by
    rw [hgenerated.place]
    rfl
  have hsection : r'.sectionId = r₀.sectionId := by
    rw [hgenerated.place]
    rfl
  have hconstants : r'.constants p.normalize.layout.literals =
      r₀.constants p.layout.literals := by
    rw [← normalize_constants hplace]
    unfold Record.constants
    rw [hbody, hloc]
  have hkind : r'.isConstants = true → r₀.isConstants = true := by
    unfold Record.isConstants
    rw [hbody]
    unfold moveRecord
    cases r₀.body <;> simp
  refine ⟨?_, ?_, ?_⟩
  · rw [hsection]
    exact hplace.anchored
  · intro his
    rw [hconstants, hlength]
    exact hplace.chained (hkind his)
  · rw [hconstants]
    exact hplace.sound

/-- **The patches of a record lie in what it writes**, each in a field of its
own. -/
theorem Record.Coded.fields {t u : SymbolTable} {pool : LiteralPool}
    {r : Record} {patches : List Patch} (h : r.Coded t pool patches)
    (hmade : ∀ p ∈ patches, p.Made t) (hpos : 0 < r.sectionId)
    (hshaped : r.Shaped u pool)
    (hinside : ∀ run, r.write? = some run →
      0 ≤ run.start.toInt ∧ run.start.toInt + run.data.length < 2 ^ 63) :
    patches.Pairwise Patch.Apart ∧
      ∀ p ∈ patches, ∃ run, r.write? = some run ∧
      p.Located run.start.toInt run.data := by
  by_cases hnone : patches = []
  · rw [hnone]
    exact ⟨List.Pairwise.nil, by simp⟩
  · obtain ⟨p, hp⟩ := List.exists_mem_of_ne_nil _ hnone
    obtain ⟨data, hobject, hlength, hwrite⟩ :=
      h.exists_write? hpos hshaped.chained hshaped.sound hp
    obtain ⟨hlow, hhigh⟩ := hinside _ hwrite
    simp only at hlow hhigh
    obtain ⟨hapart, hlocated⟩ :=
      h.located hmade hpos hlow (by omega) hshaped.chained hshaped.sound
    refine ⟨hapart, ?_⟩
    intro q hq
    obtain ⟨data', hobject', hplace⟩ := hlocated q hq
    rw [hobject] at hobject'
    obtain rfl := Option.some.inj hobject'
    exact ⟨_, hwrite, hplace⟩

/-- All relocations of a module, by the items that they are for. -/
structure Deck.Module.Patched (t : SymbolTable) (m : Deck.Module)
    (patches : List Patch) : Prop where
  relocations : m.relocations = patches.flatMap (·.relocations)
  made : ∀ p ∈ patches, p.Made t.normalize
  apart : patches.Pairwise Patch.Apart
  short : ∀ p ∈ patches, p.item.length ≤ 4
  anchored : ∀ p ∈ patches,
    0 < p.item.place.sectionId ∧ ∃ s, t.section? p.item.place.sectionId = some s
  held : ∀ p ∈ patches,
    Image.field? (Deck.Text.image m.text) p.item.place.loc.toInt p.item.length =
      some p.data

/-- A patch in what a record writes has its octets there. -/
theorem Patch.Located.field?_octet? {run : Run} {p : Patch}
    (h : p.Located run.start.toInt run.data)
    (hlength : p.data.length = p.item.length) :
    Image.field? run.octet? p.item.place.loc.toInt p.item.length =
      some p.data := by
  obtain ⟨hlow, hhigh, hdata⟩ := h
  rw [← hlength]
  apply Image.field?_eq_some
  intro i hi
  have hindex : (p.item.place.loc.toInt + i - run.start.toInt).toNat =
      (p.item.place.loc.toInt - run.start.toInt).toNat + i := by omega
  rw [Run.octet?, if_pos (by omega), hindex]
  exact hdata i (by omega)

/-- A patch in what a record writes is in the text, if nothing else has its
addresses. -/
theorem Patch.Located.held {runs : List Run} {texts : List Deck.Text}
    {run : Run} {p : Patch} (h : p.Located run.start.toInt run.data)
    (hlength : p.data.length = p.item.length)
    (hruns : runs.Pairwise Run.Disjoint) (hrun : run ∈ runs)
    (himage : ∀ address,
      Deck.Text.image texts address = Run.image runs address) :
    Image.field? (Deck.Text.image texts) p.item.place.loc.toInt p.item.length =
      some p.data := by
  have hlow := h.low
  have hhigh := h.high
  rw [← h.field?_octet? hlength]
  refine Image.field?_congr fun address hfirst hlast => ?_
  have hcovers : run.Covers address := by
    unfold Run.Covers
    omega
  rw [himage, Run.image_of_disjoint hruns hrun hcovers]

/-- Records outside of control sections have no relocations. -/
theorem Record.Coded.relocations_eq {t u : SymbolTable}
    {pool : LiteralPool} {coded : List (Record × List Patch)}
    (h : ∀ c ∈ coded, (∀ p ∈ c.2, p.Made t) ∧ c.1.Coded t pool c.2)
    (hshaped : ∀ c ∈ coded, c.1.Shaped u pool) :
    coded.flatMap (fun c => c.2.flatMap (·.relocations)) =
      ((coded.filter (0 < ·.1.sectionId)).flatMap (·.2)).flatMap
        (·.relocations) := by
  induction coded with
  | nil => rfl
  | cons c rest ih =>
      obtain ⟨hmade, hcoded⟩ := h c List.mem_cons_self
      have hrest := ih (fun c hc => h c (List.mem_cons_of_mem _ hc))
        (fun c hc => hshaped c (List.mem_cons_of_mem _ hc))
      rw [List.flatMap_cons, hrest]
      by_cases hpos : 0 < c.1.sectionId
      · rw [List.filter_cons_of_pos (by simpa using hpos), List.flatMap_cons,
          List.flatMap_append]
      · rw [List.filter_cons_of_neg (by simpa using hpos)]
        have hnone : c.2.flatMap (·.relocations) = [] := by
          rw [List.flatMap_eq_nil_iff]
          intro p hp
          apply (hmade p hp).relocations_eq_nil
          rw [(hcoded.of_mem (hshaped c List.mem_cons_self).sound hp).1]
          exact Int.not_lt.mp hpos
        rw [hnone, List.nil_append]

/-- Whether the field of an item holds a number, modulo its length. -/
def AddressItem.Holds (image : Image) (n : Int64) (x : AddressItem) : Prop :=
  ∃ field, image.field? x.place.loc.toInt x.length = some field ∧
    (Field.get field : Int) = n.toInt % 256 ^ x.length

/-- What the symbols of a program, and a place in it, are at the addresses of a
linker.  The program is one whose sections all begin at zero; the place is one
after they were placed. -/
def Linkage.reading (link : Linkage) (p : Program) (place : Expression.Place) :
    Expression.Reading :=
  Expression.readingOf p.layout.symbols
    { place with loc :=
      place.loc - p.normalize.layout.symbols.offset place.sectionId } link.spot

/-- An item ends up with what its relocations make of it. -/
theorem Deck.Module.Patched.holds {t : SymbolTable} {m : Deck.Module}
    {patches : List Patch} (h : m.Patched t patches)
    {link : Linkage} {p : Patch} (hp : p ∈ patches) {n : Int64}
    (htotal : Deck.Relocation.total (m.displacement link) p.relocations
      (Field.get p.data) ≡ n.toInt [ZMOD 256 ^ p.item.length]) :
    p.item.Holds (m.linked link) n := by
  obtain ⟨field, hfield, hsame⟩ :=
    Image.field?_patches h.made h.apart hp (h.held p hp)
  have hlength := Image.length_of_field? hfield
  have hsmall : (Field.get field : Int) < 256 ^ p.item.length := by
    rw [← hlength]
    exact_mod_cast Field.get_lt field
  refine ⟨field, ?_, ?_⟩
  · unfold Deck.Module.linked
    rw [h.relocations]
    exact hfield
  · rw [← htotal, ← hsame]
    exact (Int.emod_eq_of_lt (Int.natCast_nonneg _) hsmall).symm

namespace Assembly

variable {options : Options} {source today : Bytes} {a : Assembly}
  {m : Deck.Module} {statements : List Statement}

/-- **The code of a module**: each record with the patches of its items.  The
patches of a record in a control section lie in what it writes, each in a field
of its own. -/
theorem Made.coded
    (h : a.Made options (Program.ofStatements options statements))
    (hcontained : (Program.ofStatements options statements).Contained)
    (hm : a.module? = some m) :
    ∃ coded : List (Record × List Patch), coded.map (·.1) = a.records ∧
      m.relocations =
        ((coded.filter (0 < ·.1.sectionId)).flatMap (·.2)).flatMap
          (·.relocations) ∧
      ∀ c ∈ coded,
        (∀ p ∈ c.2,
          p.Made (Program.ofStatements options statements).layout.symbols) ∧
        c.1.Coded (Program.ofStatements options statements).layout.symbols
          (Program.ofStatements options statements).layout.literals c.2 ∧
        c.1.Shaped (Program.unplaced options statements).layout.symbols
          (Program.ofStatements options statements).layout.literals ∧
        (0 < c.1.sectionId → c.2.Pairwise Patch.Apart ∧
          ∀ p ∈ c.2, ∃ run, c.1.write? = some run ∧
          p.Located run.start.toInt run.data) := by
  obtain ⟨hwf, hplaced⟩ := Program.unplaced_spec options statements
  have hsettled := Program.settled_ofStatements options statements
  obtain ⟨coded, hrecords, hrelocations, hcoded⟩ :=
    Generation.coded_run
      (g := Generation.new (Program.ofStatements options statements)) hsettled
      ⟨rfl, fun _ => rfl⟩ hcontained.unbroken
  have hcoded := hcoded.resolve_left (by
    rintro ⟨d, hd, herror⟩
    have hclean := h.clean m hm d hd
    rw [herror] at hclean
    exact Bool.noConfusion hclean)
  have hsame : coded.map (·.1) = a.records := hrecords.trans h.records.symm
  have hshaped : ∀ c ∈ coded,
      c.1.Shaped (Program.unplaced options statements).layout.symbols
      (Program.ofStatements options statements).layout.literals := by
    intro c hc
    exact Program.shaped_generated hwf hplaced c.1
      (hrecords ▸ List.mem_map.mpr ⟨c, hc, rfl⟩)
  refine ⟨coded, hsame, ?_, ?_⟩
  · rw [h.relocations m hm, ← Record.Coded.relocations_eq hcoded hshaped]
    exact hrelocations
  · intro c hc
    obtain ⟨hmade, hrecord⟩ := hcoded c hc
    refine ⟨hmade, hrecord, hshaped c hc, fun hpos => ?_⟩
    refine hrecord.fields hmade hpos (hshaped c hc) fun run hwrite => ?_
    have hmem : run ∈ a.records.filterMap Record.write? :=
      List.mem_filterMap.mpr ⟨c.1,
        hsame ▸ List.mem_map.mpr ⟨c, hc, rfl⟩, hwrite⟩
    obtain ⟨hlow, hhigh⟩ := hcontained.inside run (h.runs ▸ hmem)
    have hsize :=
      (Program.ofStatements options statements).layout.symbols.size.toInt_lt
    exact ⟨hlow, by omega⟩

/-- **The relocations of a module are those of its items**, which have fields of
their own. -/
theorem Made.patched
    (h : a.Made options (Program.ofStatements options statements))
    (hcontained : (Program.ofStatements options statements).Contained)
    (hm : a.module? = some m)
    (hdisjoint : (a.records.filterMap Record.write?).Pairwise Run.Disjoint) :
    ∃ patches,
    m.Patched (Program.unplaced options statements).layout.symbols patches ∧
      ∀ r ∈ a.records, ∀ x ∈ r.items a.literals, ∃ p ∈ patches, p.item = x := by
  obtain ⟨coded, hsame, hrelocations, hcoded⟩ := h.coded hcontained hm
  have hmem : ∀ c ∈ coded, ∀ run, c.1.write? = some run →
      run ∈ a.records.filterMap Record.write? := by
    intro c hc run hwrite
    exact List.mem_filterMap.mpr ⟨c.1,
      hsame ▸ List.mem_map.mpr ⟨c, hc, rfl⟩, hwrite⟩
  have hfields : ∀ c ∈ coded.filter (0 < ·.1.sectionId),
      c ∈ coded ∧ 0 < c.1.sectionId ∧
      c.2.Pairwise Patch.Apart ∧
        ∀ p ∈ c.2, ∃ run, c.1.write? = some run ∧
        p.Located run.start.toInt run.data := by
    intro c hc
    obtain ⟨hc, hpos⟩ := List.mem_filter.mp hc
    have hpos : 0 < c.1.sectionId := by simpa using hpos
    exact ⟨hc, hpos, (hcoded c hc).2.2.2 hpos⟩
  refine ⟨(coded.filter (0 < ·.1.sectionId)).flatMap (·.2),
    ⟨hrelocations, ?_, ?_, ?_, ?_, ?_⟩, ?_⟩
  · intro p hp
    obtain ⟨c, hc, hpc⟩ := List.mem_flatMap.mp hp
    exact (hcoded c (hfields c hc).1).1 p hpc
  · -- within a record by its layout, between records because their writes are
    -- disjoint
    rw [List.pairwise_flatMap]
    refine ⟨fun c hc => (hfields c hc).2.2.1, ?_⟩
    rw [← hsame, List.filterMap_map, List.pairwise_filterMap] at hdisjoint
    refine (hdisjoint.filter _).imp_of_mem ?_
    intro c c' hc hc' hwrites p hp q hq
    obtain ⟨run, hwrite, hplocated⟩ := (hfields c hc).2.2.2 p hp
    obtain ⟨run', hwrite', hqlocated⟩ := (hfields c' hc').2.2.2 q hq
    exact Patch.Located.apart hwrite hwrite' (hwrites _ hwrite _ hwrite')
      hplocated hqlocated
  · intro p hp
    obtain ⟨c, hc, hpc⟩ := List.mem_flatMap.mp hp
    obtain ⟨-, hrecord, hshaped, -⟩ := hcoded c (hfields c hc).1
    exact (hrecord.of_mem hshaped.sound hpc).2.2
  · intro p hp
    obtain ⟨c, hc, hpc⟩ := List.mem_flatMap.mp hp
    obtain ⟨hc, hpos, -⟩ := hfields c hc
    obtain ⟨-, hrecord, hshaped, -⟩ := hcoded c hc
    rw [(hrecord.of_mem hshaped.sound hpc).1]
    exact ⟨hpos, hshaped.anchored (by omega)⟩
  · intro p hp
    obtain ⟨c, hc, hpc⟩ := List.mem_flatMap.mp hp
    obtain ⟨hc, hpos, -, hlocated⟩ := hfields c hc
    obtain ⟨run, hwrite, hplace⟩ := hlocated p hpc
    obtain ⟨hmade, hrecord, hshaped, -⟩ := hcoded c hc
    have hsection := (hrecord.of_mem hshaped.sound hpc).1
    have hlength := (hmade p hpc).length (hsection ▸ hpos)
    refine hplace.held hlength hdisjoint (hmem c hc run hwrite) ?_
    intro address
    rw [(h.text m hm).image, h.runs]
  · intro r hr x hx
    obtain ⟨c, hc, rfl⟩ := List.mem_map.mp (hsame ▸ hr)
    rw [h.literals] at hx
    obtain ⟨p, hp, hitem⟩ := (hcoded c hc).2.1.exists_patch hx
    have hpos : 0 < c.1.sectionId := (Record.mem_items_iff.mp hx).2.1
    refine ⟨p, List.mem_flatMap.mpr ⟨c, ?_, hp⟩, hitem⟩
    exact List.mem_filter.mpr ⟨hc, by simpa using hpos⟩

/-- **Linking a module puts the right addresses into its address constants**,
whatever addresses are chosen, if no two records write to one address.  An
expression gets its value at the new addresses, and a name the address of the
section that has it, or its own address outside of the module. -/
theorem linked_items (hrun : assemble options source today = .ok a)
    (hm : a.module? = some m)
    (hread : Statement.readAll source = .ok statements)
    (hdisjoint : (a.records.filterMap Record.write?).Pairwise Run.Disjoint)
    (link : Linkage) :
    ∀ r ∈ a.records, ∀ x ∈ r.items a.literals,
      (x.kind = .address ∨ x.kind = .halfAddress → x.Holds (m.linked link)
        (Expression.numeric
          (link.reading (Program.unplaced options statements) x.place)
          x.nominal)) ∧
      (x.kind = .externalAddress →
        x.Holds (m.linked link) (m.address link (toUpper x.nominal))) := by
  obtain ⟨hwf, -⟩ := Program.unplaced_spec options statements
  obtain ⟨hcontained, hmade⟩ := of_assemble hrun hread
  obtain ⟨patches, hpatched, hitems⟩ := hmade.patched hcontained hm hdisjoint
  have hsymbols := hmade.symbols_eq hm
  intro r hr x hx
  obtain ⟨p, hp, rfl⟩ := hitems r hr x hx
  obtain ⟨hpos, hplace⟩ := hpatched.anchored p hp
  have hpatch := hpatched.made p hp
  constructor
  · intro hkind
    exact hpatched.holds hp
      (hpatch.total_value hwf.symbols hsymbols hplace hpos
        (hpatched.short p hp) hkind)
  · intro hkind
    exact hpatched.holds hp
      (hpatch.total_external hwf.symbols hsymbols hpos hkind)

/-- Two sections and a name from outside, linked at other addresses. -/
theorem linked_items_moved :
    ∃ source statements a m, ∃ link : Linkage,
      Statement.readAll source = .ok statements ∧
      assemble {} source = .ok a ∧ a.module? = some m ∧
      (a.records.filterMap Record.write?).Pairwise Run.Disjoint ∧
      ((a.records.flatMap (·.items a.literals)).map fun x =>
        (x.kind, x.place.loc, x.length, Expression.numeric
          (link.reading (Program.unplaced {} statements) x.place) x.nominal)) =
        [(.address, 0, 4, 0x20005), (.halfAddress, 4, 2, 4),
          (.externalAddress, 8, 4, 0x345678), (.address, 12, 3, 0x345677)] ∧
      ∀ r ∈ a.records, ∀ x ∈ r.items a.literals,
        (x.kind = .address ∨ x.kind = .halfAddress → x.Holds (m.linked link)
          (Expression.numeric
            (link.reading (Program.unplaced {} statements) x.place)
            x.nominal)) ∧
        (x.kind = .externalAddress →
          x.Holds (m.linked link) (m.address link (toUpper x.nominal))) := by
  let link : Linkage :=
    ⟨fun id => Int64.ofInt (id * 0x10000), fun _ => 0x345678⟩
  have hassembled := exists_assemble_of_any {} (bytes
    "A CSECT\n EXTRN E\n DC A(B+5),Y(*-A),V(E),AL3(E-1)\nB CSECT\n DS F\n END\n")
    (fun statements a => a.module?.any fun _ => decide (
      (a.records.filterMap Record.write?).Pairwise (fun r s : Run =>
        r.start.toInt + r.data.length ≤ s.start.toInt ∨
          s.start.toInt + s.data.length ≤ r.start.toInt) ∧
      ((a.records.flatMap (·.items a.literals)).map fun x : AddressItem =>
        (x.kind, x.place.loc, x.length, Expression.numeric
          (link.reading (Program.unplaced {} statements) x.place) x.nominal)) =
        [(.address, 0, 4, 0x20005), (.halfAddress, 4, 2, 4),
          (.externalAddress, 8, 4, 0x345678),
          (.address, 12, 3, 0x345677)])) (by decide +kernel)
  obtain ⟨statements, a, hread, hrun, hcheck⟩ := hassembled
  obtain ⟨m, hm, hcheck⟩ := (Option.any_eq_true _ _).mp hcheck
  obtain ⟨hwrites, hitems⟩ := of_decide_eq_true hcheck
  have hdisjoint := hwrites.imp fun hle => Run.disjoint_of_le hle
  exact ⟨_, statements, a, m, link, hread, hrun, hm, hdisjoint, hitems,
    linked_items hrun hm hread hdisjoint link⟩

end Assembly

end System370
