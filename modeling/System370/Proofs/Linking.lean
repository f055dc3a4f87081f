import System370.Proofs.ModuleText

/-!
# Linking

A linker gives every control section an address of its own choice and knows the
addresses of external names (`Linkage`).  It goes through the relocations of a
module and changes the field of each of them (`Deck.Module.linked`).

Relocations of different fields do not disturb each other.  So a field ends up
with what its own relocations make of it, if no other field overlaps it:
`Image.field?_patches`.
-/

namespace System370

/-- Octets by address. -/
abbrev Image := Int → Option UInt8

namespace Image

/-- The octets of a field, if all of them are there. -/
def field? (image : Image) : Int → Nat → Option Bytes
  | _, 0 => some []
  | start, length + 1 =>
    (image start).bind fun b => (field? image (start + 1) length).map (b :: ·)

/-- An image with other octets from an address on. -/
def store (image : Image) (start : Int) (data : Bytes) : Image := fun address =>
  if start ≤ address ∧ address < start + data.length then
    data[(address - start).toNat]?
  else image address

/-- A field holds some data if the image has its octets. -/
theorem field?_eq_some {image : Image} {start : Int} {data : Bytes}
    (h : ∀ i : Nat, i < data.length → image (start + i) = data[i]?) :
    image.field? start data.length = some data := by
  induction data generalizing start with
  | nil => rfl
  | cons b rest ih =>
      have hfirst := h 0 (by simp)
      have hrest : image.field? (start + 1) rest.length = some rest := by
        apply ih
        intro i hi
        have hnext := h (i + 1) (by simpa using hi)
        have haddress : start + ((i + 1 : Nat) : Int) = start + 1 + i := by
          omega
        rw [haddress] at hnext
        simpa using hnext
      simp only [Int.natCast_zero, Int.add_zero,
        List.getElem?_cons_zero] at hfirst
      simp [field?, hfirst, hrest]

/-- A field depends on its own octets only. -/
theorem field?_congr {image other : Image} {start : Int} {length : Nat}
    (h : ∀ address, start ≤ address → address < start + length →
      other address = image address) :
    other.field? start length = image.field? start length := by
  induction length generalizing start with
  | zero => rfl
  | succ length ih =>
      have hrest : other.field? (start + 1) length =
          image.field? (start + 1) length := by
        apply ih
        intro address hlow hhigh
        exact h address (by omega) (by omega)
      simp only [field?, h start (Int.le_refl _) (by omega), hrest]

theorem length_of_field? {image : Image} {start : Int} {length : Nat}
    {field : Bytes} (h : image.field? start length = some field) :
    field.length = length := by
  induction length generalizing start field with
  | zero =>
      obtain rfl := Option.some.inj h
      rfl
  | succ length ih =>
      obtain ⟨b, -, hrest⟩ := Option.bind_eq_some_iff.mp h
      obtain ⟨rest, hfield, rfl⟩ := Option.map_eq_some_iff.mp hrest
      rw [List.length_cons, ih hfield]

/-- What is stored is found. -/
theorem field?_store_self (image : Image) (start : Int) (data : Bytes) :
    (image.store start data).field? start data.length = some data := by
  apply field?_eq_some
  intro i hi
  have hindex : (start + (i : Int) - start).toNat = i := by omega
  rw [store, if_pos (by omega), hindex]

/-- What is stored elsewhere changes nothing here. -/
theorem field?_store_apart (image : Image) {start other : Int} {data : Bytes}
    {length : Nat} (h : other + length ≤ start ∨ start + data.length ≤ other) :
    (image.store start data).field? other length =
      image.field? other length := by
  apply field?_congr
  intro address hlow hhigh
  rw [store, if_neg (by omega)]

end Image

/-- Where a linker finds things. -/
structure Linkage where
  /-- The address of a control section, by its number. -/
  base : Int → Int64
  /-- The address of an external name. -/
  external : Bytes → Int64

namespace Deck

/-- What an action makes of the number in a field. -/
def Action.change (displacement n : Int) : Action → Int
  | add => n + displacement
  | subtract => n - displacement
  | store => displacement

/-- Changes the field of a relocation, modulo its length. -/
def Relocation.apply (r : Relocation) (displacement : Int)
    (image : Image) : Image :=
  match image.field? r.address.toInt r.length.toNat with
  | none => image
  | some field =>
    image.store r.address.toInt
      (Field.put r.length.toNat
        (r.action.change displacement (Field.get field)))

/-- The address of an external name, or how far a control section moves. -/
def Module.displacement (m : Module) (link : Linkage) (id : Int) : Int :=
  match m.symbol? id with
  | none => 0
  | some s =>
    if s.type.isExternal then (link.external s.name).toInt
    else (link.base s.id).toInt - s.address.toInt

/-- The text of a module after all relocations. -/
def Module.linked (m : Module) (link : Linkage) : Image :=
  m.relocations.foldl (fun image r =>
    r.apply (m.displacement link r.target) image)
    (Text.image m.text)

/-- What relocations make of the number in a field, one after the other. -/
def Relocation.total (displacement : Int → Int) (relocations : List Relocation)
    (n : Int) : Int :=
  relocations.foldl (fun n r => r.action.change (displacement r.target) n) n

/-- Actions compute modulo the length of a field. -/
theorem Action.change_congr (action : Action) (displacement : Int)
    {n k modulus : Int} (h : n % modulus = k % modulus) :
    action.change displacement n % modulus =
      action.change displacement k % modulus := by
  cases action with
  | add => exact (Int.emod_add_cancel_right displacement).mpr h
  | subtract => exact (Int.emod_sub_cancel_right displacement).mpr h
  | store => rfl

namespace Relocation

variable {r : Relocation} {image : Image} {start : Int} {length : Nat}

/-- A relocation leaves other fields alone. -/
theorem field?_apply_apart (displacement : Int)
    (h : start + length ≤ r.address.toInt ∨
      r.address.toInt + r.length.toNat ≤ start) :
    (r.apply displacement image).field? start length =
      image.field? start length := by
  unfold apply
  split
  · rfl
  · apply Image.field?_store_apart
    rw [Field.length_put]
    exact h

/-- A relocation changes its own field. -/
theorem field?_apply_self {field : Bytes} (displacement : Int)
    (h : image.field? r.address.toInt r.length.toNat = some field) :
    (r.apply displacement image).field? r.address.toInt r.length.toNat =
      some (Field.put r.length.toNat
        (r.action.change displacement (Field.get field))) := by
  unfold apply
  rw [h]
  have hself := image.field?_store_self r.address.toInt
    (Field.put r.length.toNat (r.action.change displacement (Field.get field)))
  rw [Field.length_put] at hself
  exact hself

variable {relocations : List Relocation} {displacement : Int → Int}

/-- So do relocations elsewhere. -/
theorem field?_foldl_apart
    (h : ∀ r ∈ relocations, start + length ≤ r.address.toInt ∨
      r.address.toInt + r.length.toNat ≤ start) :
    Image.field?
      (relocations.foldl
      (fun image r => r.apply (displacement r.target) image) image)
      start length = image.field? start length := by
  induction relocations generalizing image with
  | nil => rfl
  | cons r rest ih =>
      rw [List.foldl_cons, ih fun s hs => h s (List.mem_cons_of_mem _ hs)]
      exact field?_apply_apart _ (h r List.mem_cons_self)

/-- **Relocations of one field** compute one after the other. -/
theorem field?_foldl_self {field : Bytes} {n : Int}
    (hself : ∀ r ∈ relocations, r.address.toInt = start ∧
      r.length.toNat = length) (hfield : image.field? start length = some field)
    (hn : (Field.get field : Int) % 256 ^ length = n % 256 ^ length) :
    ∃ after, Image.field?
        (relocations.foldl
          (fun image r => r.apply (displacement r.target) image) image)
        start length = some after ∧
      (Field.get after : Int) % 256 ^ length = total displacement relocations
        n % 256 ^ length := by
  induction relocations generalizing image field n with
  | nil => exact ⟨field, hfield, hn⟩
  | cons r rest ih =>
      obtain ⟨haddress, hlength⟩ := hself r List.mem_cons_self
      have hfirst := @field?_apply_self r image field (displacement r.target)
        (by rw [haddress, hlength]; exact hfield)
      rw [haddress, hlength] at hfirst
      have hchange := r.action.change_congr (displacement r.target) hn
      refine ih (fun s hs => hself s (List.mem_cons_of_mem _ hs)) hfirst ?_
      rw [Field.get_put, Int.emod_emod, hchange]

end Relocation

end Deck

/-! ### Patches -/

/-- Whether the fields of two patches do not overlap. -/
def Patch.Apart (p q : Patch) : Prop :=
  p.item.place.loc.toInt + p.item.length ≤ q.item.place.loc.toInt ∨
    q.item.place.loc.toInt + q.item.length ≤ p.item.place.loc.toInt

theorem Patch.Apart.symm {p q : Patch} (h : p.Apart q) : q.Apart p :=
  h.elim Or.inr Or.inl

namespace Image

variable {t : SymbolTable} {displacement : Int → Int} {image : Image}

/-- So do the relocations of another item. -/
theorem field?_patch_apart {p q : Patch} (hq : q.Made t) (h : q.Apart p) :
    Image.field?
      (q.relocations.foldl
      (fun image r => r.apply (displacement r.target) image) image)
      p.item.place.loc.toInt p.item.length =
      image.field? p.item.place.loc.toInt p.item.length := by
  apply Deck.Relocation.field?_foldl_apart
  intro r hr
  obtain ⟨haddress, hlength⟩ := hq.field r hr
  rw [haddress, hlength, Int.toNat_natCast]
  exact h.symm

/-- **A field ends up with what its own relocations make of it**, if no other
field overlaps it. -/
theorem field?_patches {patches : List Patch} (hmade : ∀ p ∈ patches, p.Made t)
    (hapart : patches.Pairwise Patch.Apart) {p : Patch} (hp : p ∈ patches)
    {field : Bytes}
    (hfield : image.field? p.item.place.loc.toInt p.item.length = some field) :
    ∃ after, Image.field?
      ((patches.flatMap (·.relocations)).foldl
        (fun image r => r.apply (displacement r.target) image) image)
        p.item.place.loc.toInt p.item.length = some after ∧
      (Field.get after : Int) % 256 ^ p.item.length =
        Deck.Relocation.total displacement p.relocations (Field.get field) %
          256 ^ p.item.length := by
  induction patches generalizing image with
  | nil => simp at hp
  | cons q rest ih =>
      obtain ⟨hfirst, hrest⟩ := List.pairwise_cons.mp hapart
      have hothers : ∀ p ∈ rest, p.Made t :=
        fun p hp => hmade p (List.mem_cons_of_mem _ hp)
      rw [List.flatMap_cons, List.foldl_append]
      rcases List.mem_cons.mp hp with rfl | hp
      · -- the relocations behind are all for other fields
        have hself : ∀ r ∈ p.relocations,
            r.address.toInt = p.item.place.loc.toInt ∧
              r.length.toNat = p.item.length := by
          intro r hr
          obtain ⟨haddress, hlength⟩ := (hmade p List.mem_cons_self).field r hr
          rw [haddress, hlength]
          exact ⟨rfl, rfl⟩
        obtain ⟨after, hafter, htotal⟩ :=
          @Deck.Relocation.field?_foldl_self image _ _ p.relocations
            displacement field _
            hself hfield rfl
        refine ⟨after, ?_, htotal⟩
        rw [Deck.Relocation.field?_foldl_apart, hafter]
        intro r hr
        obtain ⟨other, hother, hmem⟩ := List.mem_flatMap.mp hr
        obtain ⟨haddress, hlength⟩ := (hothers other hother).field r hmem
        rw [haddress, hlength, Int.toNat_natCast]
        exact hfirst other hother
      · apply ih hothers hrest hp
        rw [field?_patch_apart (hmade q List.mem_cons_self) (hfirst p hp)]
        exact hfield

end Image

end System370
