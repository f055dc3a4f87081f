import System370.Proofs.Linking

/-!
# Where the items of a record stand

The constants of a record stand one behind the other in its code, and so do the
items of a constant.  Every item therefore has a field of its own, and the code
of the record holds the octets of the item there (`Record.Coded.located`).
-/

namespace System370

/-! ### Items in a row -/

/-- The octets that items in a row take. -/
def AddressItem.extent : List (Bytes × Nat) → Nat
  | [] => 0
  | value :: rest => value.2 + extent rest

theorem AddressItem.extent_append (values others : List (Bytes × Nat)) :
    extent (values ++ others) = extent values + extent others := by
  induction values with
  | nil => exact (Nat.zero_add _).symm
  | cons value rest ih =>
      rw [List.cons_append, extent, extent, ih, Nat.add_assoc]

/-- The items of one copy of a constant. -/
theorem AddressItem.extent_zip {nominal : List Bytes} {lengths : List Nat}
    (h : nominal.length = lengths.length) :
    extent (nominal.zip lengths) = lengths.foldr (· + ·) 0 := by
  induction nominal generalizing lengths with
  | nil =>
      rw [List.length_nil, eq_comm, List.length_eq_zero_iff] at h
      subst h
      rfl
  | cons value rest ih =>
      cases lengths with
      | nil => cases h
      | cons length others =>
          rw [List.zip_cons_cons, extent, ih (Nat.succ.inj h), List.foldr_cons]

/-- A patch at its place in some octets, which begin at a location. -/
structure Patch.Located (start : Int) (octets : Bytes) (p : Patch) : Prop where
  low : start ≤ p.item.place.loc.toInt
  high : p.item.place.loc.toInt + p.item.length ≤ start + octets.length
  data : ∀ i : Nat, i < p.item.length →
    octets[(p.item.place.loc.toInt - start).toNat + i]? = p.data[i]?

/-- **Items in a row** stand one behind the other. -/
theorem AddressItem.located_row {kind : Constant.Kind} {sectionId : Int}
    {values : List (Bytes × Nat)} {loc : Int64} {patches : List Patch}
    (hitems : patches.map (·.item) = row kind sectionId loc values)
    (hlength : ∀ p ∈ patches, p.data.length = p.item.length)
    (hlow : 0 ≤ loc.toInt) (hhigh : loc.toInt + extent values < 2 ^ 63) :
    (patches.flatMap (·.data)).length = extent values ∧
      patches.Pairwise Patch.Apart ∧
      ∀ p ∈ patches, p.Located loc.toInt (patches.flatMap (·.data)) := by
  induction values generalizing loc patches with
  | nil =>
      obtain rfl := List.map_eq_nil_iff.mp hitems
      exact ⟨rfl, List.Pairwise.nil, by simp⟩
  | cons value rest ih =>
      obtain ⟨nominal, length⟩ := value
      cases patches with
      | nil => simp [row] at hitems
      | cons p others =>
          obtain ⟨hitem, hothers⟩ := List.cons_eq_cons.mp hitems
          have hitem : p.item = ⟨kind, ⟨sectionId, loc, 1⟩, nominal, length⟩ :=
            hitem
          have hdata : p.data.length = length := by
            rw [hlength p List.mem_cons_self, hitem]
          have hextent : extent ((nominal, length) :: rest) =
              length + extent rest := rfl
          rw [hextent] at hhigh
          have hword : (Int64.ofNat length).toInt = length :=
            Int64.toInt_ofNat_of_lt (by omega)
          have hnext : (loc + Int64.ofNat length).toInt =
              loc.toInt + length := by
            rw [toInt_add_of_range (by omega) (by omega), hword]
          obtain ⟨hsize, hpairwise, hlocated⟩ := ih hothers
            (fun q hq => hlength q (List.mem_cons_of_mem _ hq))
              (by omega) (by omega)
          rw [hnext] at hlocated
          have hplace : p.item.place.loc = loc := by rw [hitem]
          have hown : p.item.length = length := by rw [hitem]
          have hall : ((p :: others).flatMap (·.data)).length =
              length + extent rest := by
            rw [List.flatMap_cons, List.length_append, hdata, hsize]
          refine ⟨by rw [hall, hextent], ?_, ?_⟩
          · refine List.pairwise_cons.mpr ⟨fun q hq => ?_, hpairwise⟩
            left
            rw [hplace, hown]
            exact (hlocated q hq).low
          · intro q hq
            rcases List.mem_cons.mp hq with rfl | hq
            · refine ⟨?_, ?_, fun i hi => ?_⟩
              · exact Int.le_of_eq (congrArg Int64.toInt hplace).symm
              · rw [hplace, hown, hall]
                omega
              · rw [hplace, Int.sub_self, Int.toNat_zero, Nat.zero_add,
                  List.flatMap_cons, List.getElem?_append_left (by omega)]
            · obtain ⟨hqlow, hqhigh, hqdata⟩ := hlocated q hq
              refine ⟨by omega, ?_, fun i hi => ?_⟩
              · rw [hall]
                rw [hsize] at hqhigh
                omega
              · have hindex : (q.item.place.loc.toInt - loc.toInt).toNat + i =
                    length + ((q.item.place.loc.toInt -
                      (loc.toInt + length)).toNat + i) := by
                  omega
                rw [hindex, List.flatMap_cons, ← hdata,
                  List.getElem?_append_right (by omega),
                  Nat.add_sub_cancel_left, hdata]
                exact hqdata i hi

/-- The items of a constant take at most its octets. -/
theorem Constant.Descriptor.extent_le (d : Constant.Descriptor)
    (hsound : d.Sound) :
    AddressItem.extent
      (List.replicate d.dup (d.nominal.zip d.lengths)).flatten ≤ d.size := by
  have hcopies : ∀ n : Nat, AddressItem.extent
      (List.replicate n (d.nominal.zip d.lengths)).flatten =
        AddressItem.extent (d.nominal.zip d.lengths) * n := by
    intro n
    induction n with
    | zero => rfl
    | succ n ih =>
        rw [List.replicate_succ, List.flatten_cons, AddressItem.extent_append,
          Nat.mul_succ, Nat.add_comm, ← ih]
  rw [hcopies, size]
  refine Nat.mul_le_mul_right d.dup ?_
  by_cases hnominal : d.nominal = []
  · simp [AddressItem.extent, hnominal]
  · exact Nat.le_of_eq (AddressItem.extent_zip (hsound.paired hnominal).symm)

/-- The items in a row are of one type and in one section. -/
theorem AddressItem.of_row {kind : Constant.Kind} {sectionId : Int}
    {loc : Int64} {values : List (Bytes × Nat)}
    {x : AddressItem} (hx : x ∈ row kind sectionId loc values) :
    x.kind = kind ∧ x.place.sectionId = sectionId ∧ x.length ≤ extent values ∧
      ∃ v ∈ values, x.length = v.2 := by
  induction values generalizing loc with
  | nil => simp [row] at hx
  | cons value rest ih =>
      have hextent : extent (value :: rest) = value.2 + extent rest := rfl
      rcases List.mem_cons.mp hx with rfl | hx
      · exact ⟨rfl, rfl, by rw [hextent]; exact Nat.le_add_right _ _, value,
          List.mem_cons_self, rfl⟩
      · obtain ⟨hkind, hsection, hle, v, hv, hlength⟩ := ih hx
        exact ⟨hkind, hsection, by omega, v, List.mem_cons_of_mem _ hv, hlength⟩

/-- An item of a constant has one to four octets. -/
theorem Constant.Descriptor.of_items {d : Constant.Descriptor}
    (hsound : d.Sound) {sectionId : Int}
    {loc : Int64} {x : AddressItem} (hx : x ∈ d.items sectionId loc) :
    x.place.sectionId = sectionId ∧ 0 < x.length ∧ x.length ≤ 4 ∧
      x.length ≤ d.size := by
  unfold items at hx
  split at hx
  · rename_i haddress
    obtain ⟨-, hsection, hle, v, hv, hlength⟩ := AddressItem.of_row hx
    obtain ⟨copy, hcopy, hmem⟩ := List.mem_flatten.mp hv
    rw [(List.mem_replicate.mp hcopy).2] at hmem
    obtain ⟨hmin, hmax⟩ := hsound.ranged v.2 (List.of_mem_zip hmem).2
    have hkinds : 0 < d.kind.minLength ∧ d.kind.maxLength ≤ 4 := by
      cases hkind : d.kind <;>
        simp_all [Kind.isAddress, Kind.minLength, Kind.maxLength]
    exact ⟨hsection, by omega, by omega, Nat.le_trans hle (d.extent_le hsound)⟩
  · simp at hx

/-- The items of a constant stand one behind the other in its octets. -/
theorem Constant.Descriptor.Sound.located_items {t : SymbolTable}
    {d : Constant.Descriptor} (hsound : d.Sound)
    {sectionId : Int} {loc : Int64} {patches : List Patch}
    {data : Bytes} (hitems : patches.map (·.item) = d.items sectionId loc)
    (hdata : d.kind.isAddress = true → patches.flatMap (·.data) = data)
    (hmade : ∀ p ∈ patches, p.Made t) (hpos : 0 < sectionId)
    (hlow : 0 ≤ loc.toInt) (hhigh : loc.toInt + d.size < 2 ^ 63) :
    patches.Pairwise Patch.Apart ∧
      ∀ p ∈ patches, p.Located loc.toInt data ∧ data.length ≤ d.size := by
  have hsize := d.extent_le hsound
  unfold Constant.Descriptor.items at hitems
  split at hitems
  · rename_i haddress
    have hlength : ∀ p ∈ patches, p.data.length = p.item.length := by
      intro p hp
      refine (hmade p hp).length ?_
      rw [(AddressItem.of_row (hitems ▸ List.mem_map.mpr ⟨p, hp, rfl⟩)).2.1]
      exact hpos
    obtain ⟨htotal, hrow, hplaces⟩ :=
      AddressItem.located_row hitems hlength hlow (by omega)
    rw [hdata haddress] at htotal hplaces
    exact ⟨hrow, fun p hp => ⟨hplaces p hp, by omega⟩⟩
  · obtain rfl := List.map_eq_nil_iff.mp hitems
    exact ⟨List.Pairwise.nil, by simp⟩

/-! ### Constants in the code of a record -/

/-- A patch of octets that are laid over others is in these as well. -/
theorem Patch.Located.overlay {p : Patch} {start offset : Int}
    {data octets result : Bytes} (h : p.Located (start + offset) data)
    (hoffset : 0 ≤ offset) (hfits : offset + data.length ≤ octets.length)
    (hlength : result.length = octets.length)
    (hkept : ∀ i : Nat, (i : Int) < offset + data.length →
      result[i]? = (Arena.overlay offset.toNat data octets)[i]?) :
        p.Located start result := by
  obtain ⟨hlow, hhigh, hdata⟩ := h
  refine ⟨by omega, by omega, fun i hi => ?_⟩
  have hindex : (p.item.place.loc.toInt - start).toNat + i =
      offset.toNat +
        ((p.item.place.loc.toInt - (start + offset)).toNat + i) := by
    omega
  rw [hindex, hkept _ (by omega), Arena.getElem?_overlay _ _ _ _ (by omega),
    if_pos (by omega), Nat.add_sub_cancel_left]
  exact hdata i hi

/-- Constants that begin behind an octet leave it alone. -/
theorem getElem?_foldl_overlay {parts : List (Int64 × Bytes)} {octets : Bytes}
    {i : Nat} (h : ∀ part ∈ parts, i < part.1.toInt.toNat) :
    (parts.foldl (fun octets part =>
      Arena.overlay part.1.toInt.toNat part.2 octets) octets)[i]? =
      octets[i]? := by
  induction parts generalizing octets with
  | nil => rfl
  | cons part rest ih =>
      rw [List.foldl_cons,
        ih fun other ho => h other (List.mem_cons_of_mem _ ho)]
      have hbefore := h part List.mem_cons_self
      by_cases hlt : i < octets.length
      · rw [Arena.getElem?_overlay _ _ _ _ hlt, if_neg (by omega)]
      · rw [List.getElem?_eq_none_iff.mpr (by rw [Arena.length_overlay]; omega),
          List.getElem?_eq_none_iff.mpr (by omega)]

/-- Parts are laid over octets, which stay as many. -/
theorem length_foldl_overlay (parts : List (Int64 × Bytes)) (octets : Bytes) :
    (parts.foldl
      (fun octets part => Arena.overlay part.1.toInt.toNat part.2 octets)
      octets).length = octets.length := by
  induction parts generalizing octets with
  | nil => rfl
  | cons part rest ih => exact (ih _).trans (Arena.length_overlay _ _ _)

namespace PartsMade

variable {t : SymbolTable} {sectionId : Int}
  {base : Int64} {constants : List (Constant.Descriptor × Int64)}
  {parts : List (Int64 × Bytes)} {patches : List Patch}

/-- The parts stand where the constants do. -/
theorem map_fst (h : PartsMade t sectionId base constants parts patches) :
    parts.map (·.1) = constants.map (·.2) := by
  induction h with
  | nil => rfl
  | cons hitems hdata hrest ih => rw [List.map_cons, List.map_cons, ih]

/-- The patches are those of the items, in their order. -/
theorem map_item (h : PartsMade t sectionId base constants parts patches) :
    patches.map (·.item) =
      constants.flatMap (Generate.itemsAt sectionId base) := by
  induction h with
  | nil => rfl
  | cons hitems hdata hrest ih =>
      rw [List.map_append, hitems, ih, List.flatMap_cons]

/-- **The items of constants have fields of their own in the code of a
record.** -/
theorem located (h : PartsMade t sectionId base constants parts patches)
    (hmade : ∀ p ∈ patches, p.Made t) (hpos : 0 < sectionId)
    (hbase : 0 ≤ base.toInt) {octets : Bytes}
    (hoctets : base.toInt + octets.length < 2 ^ 63)
    (hsound : ∀ c ∈ constants, c.1.Sound)
    (hbounds : ∀ c ∈ constants, 0 ≤ c.2.toInt ∧
      c.2.toInt + (c.1.size : Int) ≤ octets.length)
    (hpairwise : constants.Pairwise fun c c' =>
      c.2.toInt + (c.1.size : Int) ≤ c'.2.toInt) :
    patches.Pairwise Patch.Apart ∧
      (∀ p ∈ patches, p.Located base.toInt
        (parts.foldl (fun octets part =>
          Arena.overlay part.1.toInt.toNat part.2 octets) octets)) ∧
      ∀ p ∈ patches, ∃ c ∈ constants,
      base.toInt + c.2.toInt ≤ p.item.place.loc.toInt := by
  induction h generalizing octets with
  | nil => exact ⟨List.Pairwise.nil, by simp, by simp⟩
  | @cons d offset data first others rest parts hitems hdata hrest ih =>
      obtain ⟨hbefore, hrestPairwise⟩ := List.pairwise_cons.mp hpairwise
      obtain ⟨hlow, hhigh⟩ := hbounds _ List.mem_cons_self
      simp only at hbefore hlow hhigh
      have hnext : base.toInt +
          (Arena.overlay offset.toInt.toNat data octets).length < 2 ^ 63 := by
        rw [Arena.length_overlay]
        exact hoctets
      obtain ⟨hapart, hlocated, hbehind⟩ := ih
        (fun p hp => hmade p (List.mem_append_right _ hp)) hnext
        (fun c hc => hsound c (List.mem_cons_of_mem _ hc))
        (fun c hc => by
          rw [Arena.length_overlay]
          exact hbounds c (List.mem_cons_of_mem _ hc))
        hrestPairwise
      have hplace : (base + offset).toInt = base.toInt + offset.toInt :=
        toInt_add_of_range (by omega) (by omega)
      -- the octets of this constant are behind no later one
      have hkept : ∀ i : Nat, (i : Int) < offset.toInt + d.size →
          (parts.foldl
            (fun octets part => Arena.overlay part.1.toInt.toNat part.2 octets)
            (Arena.overlay offset.toInt.toNat data octets))[i]? =
            (Arena.overlay offset.toInt.toNat data octets)[i]? := by
        intro i hi
        apply getElem?_foldl_overlay
        intro part hpart
        obtain ⟨c, hc, hsame⟩ :=
          List.mem_map.mp (hrest.map_fst ▸ List.mem_map.mpr ⟨part, hpart, rfl⟩)
        have hle := hbefore c hc
        rw [← hsame]
        omega
      have hconstant : d.Sound := hsound _ List.mem_cons_self
      obtain ⟨hfirstApart, hfirst⟩ := hconstant.located_items hitems hdata
        (fun p hp => hmade p (List.mem_append_left _ hp)) hpos
          (by omega) (by omega)
      rw [hplace] at hfirst
      refine ⟨?_, ?_, ?_⟩
      · refine List.pairwise_append.mpr ⟨hfirstApart, hapart,
          fun p hp q hq => ?_⟩
        obtain ⟨hplocated, hsize⟩ := hfirst p hp
        obtain ⟨c, hc, hle⟩ := hbehind q hq
        have hafter := hbefore c hc
        have hend := hplocated.high
        left
        omega
      · intro p hp
        rw [List.foldl_cons]
        rcases List.mem_append.mp hp with hp | hp
        · obtain ⟨hplocated, hsize⟩ := hfirst p hp
          refine hplocated.overlay hlow (by omega) ?_ fun i hi =>
            hkept i (by omega)
          rw [length_foldl_overlay, Arena.length_overlay]
        · exact hlocated p hp
      · intro p hp
        rcases List.mem_append.mp hp with hp | hp
        · exact ⟨(d, offset), List.mem_cons_self, (hfirst p hp).1.low⟩
        · obtain ⟨c, hc, hle⟩ := hbehind p hp
          exact ⟨c, List.mem_cons_of_mem _ hc, hle⟩

end PartsMade

/-- The octets that constants make up. -/
theorem Generate.eq_of_assembleParts {length : Int64}
    {parts : List (Int64 × Bytes)}
    {data : Bytes} (h : assembleParts length parts = .ok data) :
    data = parts.foldl
      (fun octets part => Arena.overlay part.1.toInt.toNat part.2 octets)
      (List.replicate length.toInt.toNat 0) := by
  unfold assembleParts at h
  split at h
  · simp at h
  · exact (Except.ok.inj h).symm

/-- The constants of a record with code fit into it. -/
theorem Generate.bounds_of_assembleParts {pool : LiteralPool}
    {r : Record} {parts : List (Int64 × Bytes)}
    {data : Bytes} (hoffsets : parts.map (·.1) = (r.constants pool).map (·.2))
    (hdata : assembleParts r.length parts = .ok data)
    (hchain : r.isConstants = true → Chain 0 (r.constants pool) r.length)
    (hsound : ∀ c ∈ r.constants pool, c.1.Sound) :
    (data.length : Int) = r.length.toInt ∧
      (∀ c ∈ r.constants pool,
        0 ≤ c.2.toInt ∧ c.2.toInt + (c.1.size : Int) ≤ r.length.toInt) ∧
      (r.constants pool).Pairwise fun c c' => c.2.toInt + (c.1.size : Int) ≤
        c'.2.toInt := by
  obtain ⟨hlength, hinside⟩ := (assembleParts_ok_iff hoffsets).mp ⟨data, hdata⟩
  refine ⟨length_assembleParts hdata, ?_⟩
  by_cases hconstants : r.isConstants = true
  · obtain ⟨-, hbounds, hpairwise⟩ :=
      (hchain hconstants).bounds (by simp) hlength
        (fun c hc => (hinside c hc).1) (fun c hc => (hsound c hc).bounded)
    exact ⟨fun c hc => ⟨(hinside c hc).1, (hbounds c hc).2⟩, hpairwise⟩
  · rw [Record.constants_eq_nil (Bool.eq_false_iff.mpr hconstants)]
    exact ⟨by simp, List.Pairwise.nil⟩

namespace Record.Coded

variable {t : SymbolTable} {pool : LiteralPool} {r : Record}
  {patches : List Patch}

/-- The patches of a record are in its section, and have one to four octets. -/
theorem of_mem (h : r.Coded t pool patches)
    (hsound : ∀ c ∈ r.constants pool, c.1.Sound) {p : Patch}
    (hp : p ∈ patches) :
    p.item.place.sectionId = r.sectionId ∧ 0 < p.item.length ∧
      p.item.length ≤ 4 := by
  cases h with
  | other hnone => simp at hp
  | constants hobject hparts hdata =>
      have hmem : p.item ∈
          (r.constants pool).flatMap (Generate.itemsAt r.sectionId r.loc) :=
        hparts.map_item ▸ List.mem_map.mpr ⟨p, hp, rfl⟩
      obtain ⟨c, hc, hitem⟩ := List.mem_flatMap.mp hmem
      obtain ⟨hsection, hlow, hhigh, -⟩ :=
        Constant.Descriptor.of_items (hsound c hc) hitem
      exact ⟨hsection, hlow, hhigh⟩

/-- A record with patches has code. -/
theorem exists_write? (h : r.Coded t pool patches) (hpos : 0 < r.sectionId)
    (hchain : r.isConstants = true → Chain 0 (r.constants pool) r.length)
    (hsound : ∀ c ∈ r.constants pool, c.1.Sound) {p : Patch}
    (hp : p ∈ patches) :
    ∃ data, r.object = some data ∧ (data.length : Int) = r.length.toInt ∧
      r.write? = some ⟨r.sectionId, r.loc, data⟩ := by
  cases h with
  | other hnone => simp at hp
  | @constants parts data _ hobject hparts hdata =>
      obtain ⟨hlength, hbounds, -⟩ :=
        Generate.bounds_of_assembleParts hparts.map_fst hdata hchain hsound
      have hmem : p.item ∈
          (r.constants pool).flatMap (Generate.itemsAt r.sectionId r.loc) :=
        hparts.map_item ▸ List.mem_map.mpr ⟨p, hp, rfl⟩
      obtain ⟨c, hc, hitem⟩ := List.mem_flatMap.mp hmem
      obtain ⟨-, hsome, -, hsize⟩ :=
        Constant.Descriptor.of_items (hsound c hc) hitem
      obtain ⟨hlow, hhigh⟩ := hbounds c hc
      have hdata : data ≠ [] := by
        intro hnil
        rw [hnil] at hlength
        simp only [List.length_nil] at hlength
        omega
      refine ⟨data, hobject, hlength, ?_⟩
      simp [Record.write?, hobject, hpos, hdata]

/-- **The items of a record have fields of their own, and its code holds their
octets.** -/
theorem located (h : r.Coded t pool patches)
    (hmade : ∀ p ∈ patches, p.Made t) (hpos : 0 < r.sectionId)
    (hloc : 0 ≤ r.loc.toInt) (hend : r.loc.toInt + r.length.toInt < 2 ^ 63)
    (hchain : r.isConstants = true → Chain 0 (r.constants pool) r.length)
    (hsound : ∀ c ∈ r.constants pool, c.1.Sound) :
    patches.Pairwise Patch.Apart ∧
      ∀ p ∈ patches, ∃ data, r.object = some data ∧
      p.Located r.loc.toInt data := by
  cases h with
  | other hnone => exact ⟨List.Pairwise.nil, by simp⟩
  | @constants parts data _ hobject hparts hdata =>
      obtain ⟨hlength, hbounds, hpairwise⟩ :=
        Generate.bounds_of_assembleParts hparts.map_fst hdata hchain hsound
      have hzeros :
          ((List.replicate r.length.toInt.toNat (0 : UInt8)).length : Int) =
          r.length.toInt := by
        rw [List.length_replicate]
        omega
      obtain ⟨hapart, hlocated, -⟩ :=
        @PartsMade.located t _ _ _ _ _ hparts hmade hpos hloc
          (List.replicate r.length.toInt.toNat 0)
          (by rw [hzeros]; exact hend) hsound
          (fun c hc => by rw [hzeros]; exact hbounds c hc) hpairwise
      rw [← Generate.eq_of_assembleParts hdata] at hlocated
      exact ⟨hapart, fun p hp => ⟨data, hobject, hlocated p hp⟩⟩

/-- The items of a record have patches. -/
theorem exists_patch (h : r.Coded t pool patches) {x : AddressItem}
    (hx : x ∈ r.items pool) :
    ∃ p ∈ patches, p.item = x := by
  cases h with
  | other hnone => simp [hnone] at hx
  | constants hobject hparts hdata =>
      obtain ⟨-, -, c, hc, hitem⟩ := Record.mem_items_iff.mp hx
      exact List.mem_map.mp
        (hparts.map_item ▸ List.mem_flatMap.mpr ⟨c, hc, hitem⟩)

end Record.Coded

end System370
