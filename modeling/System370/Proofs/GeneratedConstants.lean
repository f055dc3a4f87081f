import System370.Proofs.ConstantSizes
import System370.Proofs.OperandValues
import System370.Proofs.PatchLayout
import System370.Proofs.StorageOperands

/-!
# Constants in the code of their records

The layout reserves room for the constants of a statement or of a pool, and the
generation fills it later on.  Both go by the size of a constant, and neither
compares the two: a constant with more or fewer octets would spoil its
neighbours without a report.

* `Generate.made_constantOctets`: a constant that the layout accepted is made
  into as many octets as are reserved for it, and no data is refused any more;
* `Generate.holds_of_assembleParts`: constants one behind the other stay as they
  are in the code of their record, with zeros between them;
* `Workspace.reserved_generated`: so it is for every record of an assembly.
-/

namespace System370

open Constant

namespace Generate

/-! ### Address constants -/

/-- An `A` or `Y` item is as long as its descriptor says, whatever its value. -/
theorem length_addressItem (place : Expression.Place) (cursor : Cursor)
    (v : Value) (length : Nat) (r : Record) (g : Generation) :
    (exec (addressItem place cursor v length) r g).1.length = length := by
  unfold addressItem
  simp only
  split
  · exact List.length_replicate
  · split <;> exact Field.length_put _ _

/-- So is a `V` item. -/
theorem length_externalItem (place : Expression.Place) (line : Int)
    (name : Bytes) (length : Nat) (r : Record) (g : Generation) :
    (exec (externalItem place line name length) r g).1.length = length := by
  unfold externalItem
  rw [exec_bind, exec_bind, exec_generation]
  simp only
  split
  · exact List.length_replicate
  · split
    · exact List.length_replicate
    · rw [exec_bind, exec_pure]
      split
      · exact Field.length_put _ _
      · exact List.length_replicate

/-- A base register and a displacement take two octets. -/
theorem length_baseItem (cursor : Cursor) (v : Value) (r : Record)
    (g : Generation) :
    (exec (baseItem cursor v 2) r g).1.length = 2 := by
  unfold baseItem
  rw [exec_bind]
  split
  · exact Field.length_put _ _
  · exact List.length_replicate

/-- **An item has as many octets as its length says**, also if it is wrong. -/
theorem length_item {kind : Kind} {length : Nat}
    (hbase : kind = .baseDisplacement → length = 2) (place : Expression.Place)
    (line : Int)
    (cursor : Cursor) (nominal : Bytes) (r : Record) (g : Generation) :
    (exec (item kind place line cursor nominal length) r g).1.length =
      length := by
  unfold item
  split
  · exact length_externalItem _ _ _ _ _ _
  · rw [exec_bind]
    split
    · exact List.length_replicate
    · split
      · rename_i hkind
        rw [hbase hkind]
        exact length_baseItem _ _ _ _
      · exact length_addressItem _ _ _ _ _ _

/-- The items of an address constant are together as long as their lengths. -/
theorem length_items {kind : Kind} (sectionId line : Int)
    (cursor : Cursor) {values : List (Bytes × Nat)}
    (hbase : ∀ v ∈ values, kind = .baseDisplacement → v.2 = 2) (loc : Int64)
    (r : Record) (g : Generation) :
    (exec (items kind sectionId line cursor loc values) r g).1.length =
      (values.map (·.2)).sum := by
  induction values generalizing loc r g with
  | nil => rfl
  | cons value rest ih =>
      unfold items
      rw [exec_bind, exec_bind, exec_pure, List.length_append,
        length_item (hbase value List.mem_cons_self),
        ih fun v hv => hbase v (List.mem_cons_of_mem _ hv), List.map_cons,
        List.sum_cons]

/-- **An address constant has the size that is reserved**, wherever and in
whatever state it is generated. -/
theorem length_constantOctets {d : Descriptor} (hsound : d.Sound)
    (haddress : d.kind.isAddress = true) (hnominal : d.nominal ≠ [])
    (loc : Int64) (line : Int) (cursor : Cursor) (r : Record) (g : Generation) :
    (exec (constantOctets d loc line cursor) r g).1.length = d.size := by
  have hcopy : ((d.nominal.zip d.lengths).map (·.2)).sum = d.itemSize :=
    congrArg List.sum (hsound.map_snd_zip hnominal)
  unfold constantOctets
  rw [if_pos haddress, exec_bind, exec_record, length_items]
  · rw [List.map_flatten, List.map_replicate, List.sum_flatten,
      List.map_replicate,
      List.sum_replicate_nat, hcopy, Descriptor.size, Nat.mul_comm]
  · intro v hv hkind
    obtain ⟨copy, hmem, hvalue⟩ := List.mem_flatten.mp hv
    rw [List.eq_of_mem_replicate hmem] at hvalue
    have hrange := hsound.ranged v.2 (List.of_mem_zip hvalue).2
    rw [hkind] at hrange
    exact Nat.le_antisymm hrange.2 hrange.1

/-- **Data that has octets is given them**, and nothing is reported or
changed. -/
theorem exec_constantOctets {d : Descriptor} (hdata : d.kind.isAddress = false)
    {octets : Bytes} (hencode : d.encode = .ok octets)
    (loc : Int64) (line : Int) (cursor : Cursor) (r : Record) (g : Generation) :
    exec (constantOctets d loc line cursor) r g = (octets, r, g) := by
  unfold constantOctets
  rw [if_neg (by simp [hdata])]
  simp only [hencode]
  rfl

end Generate

/-! ### What becomes of a constant -/

/-- What a constant is made into: as many octets as are reserved for it, and for
data those that it stands for, without a report. -/
structure Constant.Descriptor.Made (d : Descriptor)
    (octets : Bytes) : Prop where
  length : octets.length = d.size
  encoded : d.kind.isAddress = false → d.encode = .ok octets ∧
    ∀ loc line cursor r g,
      Generate.exec (Generate.constantOctets d loc line cursor) r
        g = (octets, r, g)

/-- The literals of a pool are among its constants. -/
theorem Record.mem_constants_pool {pool : LiteralPool} {r : Record}
    {ids : List Nat} (hbody : r.body = .pool ids)
    (hpooled : ∀ id ∈ ids, ∃ literal, pool.literals[id]? = some literal ∧
      literal.place.isSome ∧ literal.descriptor.isSome) :
    ∀ literal ∈ ids.filterMap fun id => pool.literals[id]?,
      literal.constant r.loc ∈ r.constants pool ∧
        literal.descriptor = some (literal.constant r.loc).1 := by
  intro literal hliteral
  obtain ⟨d, hd⟩ := LiteralPool.described hpooled literal hliteral
  rw [Record.constants_pool hbody hpooled]
  exact ⟨List.mem_map.mpr ⟨literal, hliteral,
    rfl⟩, by simp [Literal.constant, hd]⟩

/-- Data that the layout accepted has octets. -/
theorem Constant.Descriptor.Accepted.encode {t : SymbolTable}
    {d : Descriptor} (h : d.Accepted t) (hdata : d.kind.isAddress = false) :
    ∃ octets, d.encode = .ok octets := by
  obtain ⟨octets, hencoding⟩ :=
    (Descriptor.validation_eq_ok_iff hdata).mp (h.valid hdata)
  exact ⟨octets, Descriptor.encode_eq_ok_iff.mpr hencoding⟩

namespace Generate

/-- **A constant that the layout accepted** is made into octets of its size. -/
theorem made_constantOctets {t : SymbolTable} {d : Descriptor}
    (hsound : d.Sound) (haccepted : d.Accepted t)
    (loc : Int64) (line : Int) (cursor : Cursor) (r : Record) (g : Generation) :
    d.Made (exec (constantOctets d loc line cursor) r g).1 := by
  cases haddress : d.kind.isAddress with
  | true =>
      exact ⟨length_constantOctets hsound haddress haccepted.nominal loc line
        cursor r g, fun hdata => by simp [haddress] at hdata⟩
  | false =>
      obtain ⟨octets, hencode⟩ := haccepted.encode haddress
      rw [exec_constantOctets haddress hencode]
      exact ⟨(hsound.repeats_encode hencode).length,
        fun _ => ⟨hencode, exec_constantOctets haddress hencode⟩⟩

/-- Whether a part is what a constant is made into, at its offset. -/
def IsPart (c : Descriptor × Int64) (part : Int64 × Bytes) : Prop :=
  part.1 = c.2 ∧ c.1.Made part.2

/-- What holds of every step, in whatever state, holds of all the results of a
sequence. -/
theorem forall₂_mapM {ξ β : Type} {f : ξ → Generate β} {P : ξ → β → Prop}
    {xs : List ξ} (hf : ∀ x ∈ xs, ∀ r g, P x (exec (f x) r g).1)
    (r : Record) (g : Generation) :
    List.Forall₂ P xs (exec (xs.mapM f) r g).1 := by
  induction xs generalizing r g with
  | nil => exact .nil
  | cons x rest ih =>
      rw [List.mapM_cons, exec_bind, exec_bind, exec_pure]
      exact .cons (hf x List.mem_cons_self r g)
        (ih (fun y hy => hf y (List.mem_cons_of_mem _ hy)) _ _)

/-- The parts of a storage statement are the octets of its constants, at their
places. -/
theorem isPart_storageParts {t : SymbolTable}
    {parts : List (Descriptor × Int64)} (hsound : ∀ c ∈ parts, c.1.Sound)
    (haccepted : ∀ c ∈ parts, c.1.Accepted t) (r : Record) (g : Generation) :
    List.Forall₂ IsPart parts (exec (storageParts parts) r g).1 := by
  have hmap : parts.zipIdx.map (·.1) = parts := List.zipIdx_map_fst 0 parts
  have hall : List.Forall₂ (fun x part => IsPart x.1 part) parts.zipIdx
      (exec (storageParts parts) r g).1 := by
    unfold storageParts
    rw [exec_bind, exec_record]
    refine forall₂_mapM (fun x hx r' g' => ?_) r g
    have hmem : x.1 ∈ parts := hmap ▸ List.mem_map.mpr ⟨x, hx, rfl⟩
    exact ⟨rfl,
      made_constantOctets (hsound _ hmem) (haccepted _ hmem) _ _ _ _ _⟩
  have hparts := List.forall₂_map_left_iff.mpr hall
  rwa [hmap] at hparts

theorem isPart_poolParts {t : SymbolTable} {r : Record} {g : Generation}
    {ids : List Nat} (hbody : r.body = .pool ids)
    (hpooled : ∀ id ∈ ids, ∃ literal, g.literals.literals[id]? = some literal ∧
      literal.place.isSome ∧ literal.descriptor.isSome)
    (hsound : ∀ c ∈ r.constants g.literals, c.1.Sound)
    (haccepted : ∀ c ∈ r.constants g.literals, c.1.Accepted t) :
    List.Forall₂ IsPart (r.constants g.literals)
      (exec (poolParts ids) r g).1 := by
  have hconstants := Record.mem_constants_pool hbody hpooled
  rw [Record.constants_pool hbody hpooled, List.forall₂_map_left_iff]
  unfold poolParts
  rw [exec_bind, exec_record, exec_bind, exec_generation]
  refine forall₂_mapM (fun literal hliteral r' g' => ?_) r g
  obtain ⟨hmem, hd⟩ := hconstants literal hliteral
  simp only [hd]
  exact ⟨rfl, made_constantOctets (hsound _ hmem) (haccepted _ hmem) _ _ _ _ _⟩

end Generate

/-! ### Constants at their offsets -/

/-- Parts that are apart from each other stay as they are, and so does what is
outside of all of them. -/
theorem getElem?_foldl_overlay_apart {parts : List (Int64 × Bytes)}
    {octets : Bytes}
    (hinside : ∀ part ∈ parts,
      part.1.toInt.toNat + part.2.length ≤ octets.length)
    (hapart : parts.Pairwise fun p q =>
      p.1.toInt.toNat + p.2.length ≤ q.1.toInt.toNat) :
    let data := parts.foldl
      (fun octets part => Arena.overlay part.1.toInt.toNat part.2 octets) octets
    (∀ part ∈ parts, ∀ k < part.2.length,
      data[part.1.toInt.toNat + k]? = part.2[k]?) ∧
      ∀ i, (∀ part ∈ parts,
        i < part.1.toInt.toNat ∨ part.1.toInt.toNat + part.2.length ≤ i) →
        data[i]? = octets[i]? := by
  induction parts generalizing octets with
  | nil => exact ⟨by simp, fun _ _ => rfl⟩
  | cons first rest ih =>
      obtain ⟨hbefore, hrest⟩ := List.pairwise_cons.mp hapart
      have hfirst := hinside first List.mem_cons_self
      obtain ⟨hkept, houtside⟩ :=
        @ih (Arena.overlay first.1.toInt.toNat first.2 octets)
          (fun part hpart => by
            rw [Arena.length_overlay]
            exact hinside part (List.mem_cons_of_mem _ hpart)) hrest
      refine ⟨fun part hpart k hk => ?_, fun i hi => ?_⟩
      · rw [List.foldl_cons]
        rcases List.mem_cons.mp hpart with rfl | hpart
        · -- later parts begin behind the first
          rw [getElem?_foldl_overlay fun other hother => by
              have := hbefore other hother
              omega,
            Arena.getElem?_overlay _ _ _ _ (by omega), if_pos (by omega),
              Nat.add_sub_cancel_left]
        · exact hkept part hpart k hk
      · rw [List.foldl_cons,
          houtside i fun part hpart => hi part (List.mem_cons_of_mem _ hpart)]
        have hout := hi first List.mem_cons_self
        by_cases hlt : i < octets.length
        · rw [Arena.getElem?_overlay _ _ _ _ hlt, if_neg (by omega)]
        · rw [List.getElem?_eq_none_iff.mpr
            (by rw [Arena.length_overlay]; omega),
            List.getElem?_eq_none_iff.mpr (by omega)]

/-- Octets that hold what constants were made into: each inside and at its
offset, one behind the other, and zeros where there is none. -/
structure Holds (constants : List (Descriptor × Int64))
    (parts : List (Int64 × Bytes)) (data : Bytes) : Prop where
  made : List.Forall₂ Generate.IsPart constants parts
  inside : ∀ c ∈ constants,
    0 ≤ c.2.toInt ∧ c.2.toInt + (c.1.size : Int) ≤ data.length
  apart : constants.Pairwise fun c c' => c.2.toInt +
    (c.1.size : Int) ≤ c'.2.toInt
  filled : ∀ part ∈ parts, ∀ k < part.2.length,
    data[part.1.toInt.toNat + k]? = part.2[k]?
  zeros : ∀ i < data.length,
    (∀ c ∈ constants, (i : Int) < c.2.toInt ∨
      c.2.toInt + (c.1.size : Int) ≤ i) → data[i]? = some 0

namespace Generate

/-- The parts cover what the constants reserve. -/
theorem spans_of_isPart {constants : List (Descriptor × Int64)}
    {parts : List (Int64 × Bytes)} (h : List.Forall₂ IsPart constants parts) :
    parts.map (fun part => (part.1, part.2.length)) =
      constants.map fun c => (c.2, c.1.size) := by
  induction h with
  | nil => rfl
  | cons hpart _ ih =>
      rw [List.map_cons, List.map_cons, ih, hpart.1, hpart.2.length]

/-- Parts stand where their constants do. -/
theorem map_fst_of_isPart {constants : List (Descriptor × Int64)}
    {parts : List (Int64 × Bytes)} (h : List.Forall₂ IsPart constants parts) :
    parts.map (·.1) = constants.map (·.2) := by
  simpa [Function.comp_def]
    using congrArg (List.map Prod.fst) (spans_of_isPart h)

/-- **The code of a record holds its constants**, if the layout put them one
behind the other. -/
theorem holds_of_assembleParts {pool : LiteralPool} {r : Record}
    {parts : List (Int64 × Bytes)} {data : Bytes}
    (hparts : List.Forall₂ IsPart (r.constants pool) parts)
    (hdata : assembleParts r.length parts = .ok data)
    (hchain : r.isConstants = true → Chain 0 (r.constants pool) r.length)
    (hsound : ∀ c ∈ r.constants pool, c.1.Sound) :
    (data.length : Int) = r.length.toInt ∧
      Holds (r.constants pool) parts data := by
  have hspans := spans_of_isPart hparts
  obtain ⟨hlength, hinside, hapart⟩ :=
    bounds_of_assembleParts (map_fst_of_isPart hparts) hdata hchain hsound
  have hzeros : (List.replicate r.length.toInt.toNat (0 : UInt8)).length =
      data.length := by
    rw [List.length_replicate]
    omega
  -- parts and constants have the same places, so what holds of those holds of
  -- these
  have hplaces : ∀ part ∈ parts, ∃ c ∈ r.constants pool,
      part.1 = c.2 ∧ part.2.length = c.1.size := by
    intro part hpart
    obtain ⟨c, hc, heq⟩ :=
      List.mem_map.mp (hspans ▸ List.mem_map.mpr ⟨part, hpart, rfl⟩)
    exact ⟨c, hc, (congrArg Prod.fst heq).symm, (congrArg Prod.snd heq).symm⟩
  have hpartsInside : ∀ part ∈ parts, part.1.toInt.toNat + part.2.length ≤
      (List.replicate r.length.toInt.toNat (0 : UInt8)).length := by
    intro part hpart
    obtain ⟨c, hc, hoffset, hsize⟩ := hplaces part hpart
    obtain ⟨hlow, hhigh⟩ := hinside c hc
    rw [hzeros, hoffset, hsize]
    omega
  have hpartsApart : parts.Pairwise fun p q => p.1.toInt.toNat + p.2.length ≤
      q.1.toInt.toNat := by
    have hspansApart : (parts.map fun part => (part.1, part.2.length)).Pairwise
        fun p q => 0 ≤ p.1.toInt ∧ p.1.toInt + (p.2 : Int) ≤ q.1.toInt := by
      rw [hspans, List.pairwise_map]
      exact hapart.imp_of_mem fun hc _ hle => ⟨(hinside _ hc).1, hle⟩
    refine (List.pairwise_map.mp hspansApart).imp fun hspan => ?_
    obtain ⟨hlow, hle⟩ := hspan
    simp only at hlow hle
    omega
  obtain ⟨hfilled, houtside⟩ :=
    getElem?_foldl_overlay_apart hpartsInside hpartsApart
  rw [← eq_of_assembleParts hdata] at hfilled houtside
  refine ⟨hlength, hparts, fun c hc => hlength ▸ hinside c hc, hapart, hfilled,
    fun i hi hout => ?_⟩
  rw [houtside i fun part hpart => ?_]
  · exact List.getElem?_replicate_of_lt (by omega)
  · obtain ⟨c, hc, hoffset, hsize⟩ := hplaces part hpart
    have hlow := (hinside c hc).1
    rw [hoffset, hsize]
    have := hout c hc
    omega

/-! ### Reports about constants -/

/-- A step that blames no constant for anything. -/
def Blameless {α : Type} (x : Generate α) : Prop :=
  ∀ r g, ∀ d ∈ (exec x r g).2.2.diagnostics,
  d ∈ g.diagnostics ∨ ∀ cause, d.problem ≠ .invalidConstant cause

section Blameless

variable {α β : Type}

/-- A step that reports nothing is blameless. -/
theorem blameless_of_silent {x : Generate α}
    (h : ∀ r g, (exec x r g).2.2.diagnostics = g.diagnostics) : Blameless x :=
  fun r g _ hd => Or.inl (h r g ▸ hd)

theorem blameless_pure (a : α) : Blameless (pure a : Generate α) :=
  blameless_of_silent fun _ _ => rfl

theorem blameless_bind {x : Generate α} {f : α → Generate β} (hx : Blameless x)
    (hf : ∀ a, Blameless (f a)) : Blameless (x >>= f) := by
  intro r g d hd
  rcases hf _ _ _ d hd with hbefore | hother
  · exact hx r g d hbefore
  · exact Or.inr hother

/-- A report of anything but an invalid constant is blameless. -/
theorem blameless_report (cursor : Cursor)
    {problem : Problem} (h : ∀ cause, problem ≠ .invalidConstant cause) :
    Blameless (report cursor problem) := by
  intro r g d hd
  rcases List.mem_append.mp hd with hbefore | hnew
  · exact Or.inl hbefore
  · rw [List.mem_singleton.mp hnew]
    exact Or.inr h

/-- An attempt whose failures are those of an expression. -/
theorem blameless_attempt {x : Generate (Except Problem α)}
    {f : Except Problem α → Generate β} (hx : Blameless x)
    (hfailure : ∀ r g problem, (exec x r g).1 = .error problem →
      Expression.IsFailure problem)
    (herror : ∀ problem, Expression.IsFailure problem →
      Blameless (f (.error problem))) (hok : ∀ a, Blameless (f (.ok a))) :
    Blameless (x >>= f) := by
  intro r g d hd
  have hsecond : Blameless (f (exec x r g).1) := by
    cases hresult : (exec x r g).1 with
    | error problem => exact herror problem (hfailure r g problem hresult)
    | ok a => exact hok a
  rcases hsecond _ _ d hd with hbefore | hother
  · exact hx r g d hbefore
  · exact Or.inr hother

theorem blameless_mapM {f : α → Generate β} {xs : List α}
    (hf : ∀ x ∈ xs, Blameless (f x)) :
    Blameless (xs.mapM f) := by
  induction xs with
  | nil => exact blameless_pure _
  | cons x rest ih =>
      rw [List.mapM_cons]
      exact blameless_bind (hf x List.mem_cons_self) fun _ =>
        blameless_bind (ih fun y hy => hf y (List.mem_cons_of_mem _ hy))
          fun _ => blameless_pure _

end Blameless

/-- The choice of a base register may miss one, which is no fault of a
constant. -/
theorem blameless_resolve (v : Value) : Blameless (resolve v) := by
  unfold resolve
  extract_lets search
  have hsearch : ∀ sectionId, Blameless (search sectionId) := by
    intro sectionId
    refine blameless_bind (blameless_of_silent fun _ _ => rfl) fun g => ?_
    refine blameless_bind (blameless_of_silent fun _ _ => rfl) fun _ => ?_
    split <;> exact blameless_pure _
  split
  · split
    · exact blameless_pure _
    · exact hsearch _
  · split
    · exact blameless_pure _
    · exact hsearch _
  · exact blameless_pure _

/-- Relocations report nothing. -/
theorem diagnostics_relocates (relocations : List Deck.Relocation) (r : Record)
    (g : Generation) :
    (exec (relocations.forM relocate) r g).2.2.diagnostics = g.diagnostics := by
  induction relocations generalizing g with
  | nil => rfl
  | cons x rest ih => exact ih _

/-- An `A` or `Y` item may be relocated in part or too short. -/
theorem blameless_addressItem (place : Expression.Place) (cursor : Cursor)
    (v : Value) (length : Nat) :
    Blameless (addressItem place cursor v length) := by
  unfold addressItem
  simp only
  split
  · exact blameless_bind (blameless_report _ nofun) fun _ => blameless_pure _
  · split
    · refine blameless_bind (blameless_of_silent fun _ _ => rfl) fun g => ?_
      exact blameless_bind (blameless_of_silent fun r g =>
        diagnostics_relocates _ r g) fun _ => blameless_pure _
    · exact blameless_pure _

/-- A `V` item names what it names. -/
theorem blameless_externalItem (place : Expression.Place) (line : Int)
    (name : Bytes) (length : Nat) :
    Blameless (externalItem place line name length) := by
  refine blameless_bind (blameless_of_silent fun _ _ => rfl) fun _ =>
    blameless_bind (blameless_of_silent fun _ _ => rfl) fun g => ?_
  simp only
  split
  · exact blameless_pure _
  · split
    · exact blameless_pure _
    · exact blameless_bind (blameless_of_silent fun _ _ => rfl) fun _ =>
        blameless_pure _

theorem blameless_baseItem (cursor : Cursor) (v : Value) (length : Nat) :
    Blameless (baseItem cursor v length) :=
  blameless_attempt (blameless_resolve v) (fun _ _ _ => isFailure_resolve)
    (fun _ hfailure => blameless_bind (blameless_report _ hfailure.2) fun _ =>
      blameless_pure _)
    fun _ => blameless_pure _

theorem blameless_item (kind : Kind) (place : Expression.Place) (line : Int)
    (cursor : Cursor) (nominal : Bytes) (length : Nat) :
    Blameless (item kind place line cursor nominal length) := by
  unfold item
  split
  · exact blameless_externalItem _ _ _ _
  · refine blameless_attempt (blameless_of_silent fun _ _ => rfl)
      (fun _ _ _ => Expression.isFailure_evaluate)
      (fun _ hfailure => blameless_bind (blameless_report _ hfailure.2) fun _ =>
        blameless_pure _)
      fun result => ?_
    simp only
    split
    · exact blameless_baseItem _ _ _
    · exact blameless_addressItem _ _ _ _

theorem blameless_items (kind : Kind) (sectionId line : Int) (cursor : Cursor)
    (loc : Int64) (values : List (Bytes × Nat)) :
    Blameless (items kind sectionId line cursor loc values) := by
  induction values generalizing loc with
  | nil => exact blameless_pure _
  | cons value rest ih =>
      exact blameless_bind (blameless_item _ _ _ _ _ _) fun _ =>
        blameless_bind (ih _) fun _ =>
        blameless_pure _

/-- **No constant that the layout accepted is refused.** -/
theorem blameless_constantOctets {t : SymbolTable} {d : Descriptor}
    (haccepted : d.Accepted t) (loc : Int64) (line : Int) (cursor : Cursor) :
    Blameless (constantOctets d loc line cursor) := by
  cases haddress : d.kind.isAddress with
  | true =>
      unfold constantOctets
      rw [if_pos haddress]
      exact blameless_bind (blameless_of_silent fun _ _ => rfl) fun _ =>
        blameless_items _ _ _ _ _ _
  | false =>
      obtain ⟨octets, hencode⟩ := haccepted.encode haddress
      exact blameless_of_silent fun r g => by
        rw [exec_constantOctets haddress hencode]

/-- The constants of a storage statement were accepted before. -/
theorem blameless_storageParts {t : SymbolTable}
    {parts : List (Descriptor × Int64)}
    (haccepted : ∀ c ∈ parts, c.1.Accepted t) :
    Blameless (storageParts parts) := by
  have hmap : parts.zipIdx.map (·.1) = parts := List.zipIdx_map_fst 0 parts
  refine blameless_bind (blameless_of_silent fun _ _ => rfl) fun r => ?_
  refine blameless_mapM fun x hx => ?_
  have hmem : x.1 ∈ parts := hmap ▸ List.mem_map.mpr ⟨x, hx, rfl⟩
  exact blameless_bind (blameless_constantOctets (haccepted _ hmem) _ _ _)
    fun _ => blameless_pure _

/-- So were those of a pool, each of which has its place. -/
theorem diagnostics_poolParts {t : SymbolTable} {r : Record} {g : Generation}
    {ids : List Nat} (hbody : r.body = .pool ids)
    (hpooled : ∀ id ∈ ids, ∃ literal, g.literals.literals[id]? = some literal ∧
      literal.place.isSome ∧ literal.descriptor.isSome)
    (haccepted : ∀ c ∈ r.constants g.literals, c.1.Accepted t) :
    ∀ d ∈ (exec (poolParts ids) r g).2.2.diagnostics,
      d ∈ g.diagnostics ∨ ∀ cause, d.problem ≠ .invalidConstant cause := by
  have hconstants := Record.mem_constants_pool hbody hpooled
  unfold poolParts
  rw [exec_bind, exec_record, exec_bind, exec_generation]
  refine blameless_mapM (fun literal hliteral => ?_) r g
  obtain ⟨hmem, hd⟩ := hconstants literal hliteral
  simp only [hd]
  exact blameless_bind (blameless_constantOctets (haccepted _ hmem) _ _ _)
    fun _ => blameless_pure _

/-! ### Room for the constants -/

end Generate

/-- No offset wraps in a chain of few constants. -/
theorem Chain.nonneg_of_short {start stop : Int64}
    {parts : List (Descriptor × Int64)} (h : Chain start parts stop)
    (hstart : 0 ≤ start.toInt) (hsizes : ∀ c ∈ parts, c.1.size ≤ maxSize)
    (hshort : start.toInt + 2 ^ 32 * parts.length < 2 ^ 63) :
    0 ≤ stop.toInt ∧ ∀ c ∈ parts, 0 ≤ c.2.toInt := by
  induction parts generalizing start with
  | nil =>
      rw [Chain] at h
      exact ⟨h ▸ hstart, by simp⟩
  | cons part rest ih =>
      obtain ⟨⟨gap, hlow, hhigh, hgap⟩, hrest⟩ := h
      have hsize : part.1.size ≤ 2 ^ 31 := hsizes part List.mem_cons_self
      have hword : (Int64.ofNat part.1.size).toInt = part.1.size :=
        Int64.toInt_ofNat_of_lt (by omega)
      rw [List.length_cons] at hshort
      have hoffset : part.2.toInt = start.toInt + gap.toInt := by
        rw [hgap]
        exact toInt_add_of_range (by omega) (by omega)
      have hnext : (part.2 + Int64.ofNat part.1.size).toInt =
          part.2.toInt + part.1.size := by
        rw [← hword]
        exact toInt_add_of_range (by omega) (by omega)
      obtain ⟨hstop, hparts⟩ := ih hrest (by omega)
        (fun c hc => hsizes c (List.mem_cons_of_mem _ hc)) (by omega)
      refine ⟨hstop, fun c hc => ?_⟩
      rcases List.mem_cons.mp hc with rfl | hc
      · omega
      · exact hparts c hc

/-- **The code of a record has room for its constants**, if there are not so
many of them that their sizes wrap. -/
theorem Record.fits_of_short {pool : LiteralPool}
    {r : Record} (hchain : Chain 0 (r.constants pool) r.length)
    (hsound : ∀ c ∈ r.constants pool, c.1.Sound)
    (hshort : (r.constants pool).length < 2 ^ 31) : r.Fits pool := by
  have hsizes : ∀ c ∈ r.constants pool, c.1.size ≤ maxSize :=
    fun c hc => (hsound c hc).bounded
  obtain ⟨hlength, hoffsets⟩ :=
    hchain.nonneg_of_short (by simp) hsizes (by simp; omega)
  obtain ⟨-, hbounds, -⟩ := hchain.bounds (by simp) hlength hoffsets hsizes
  refine ⟨hlength, fun c hc => ⟨hoffsets c hc, ?_⟩⟩
  have := (hbounds c hc).2
  omega

/-! ### Records of constants -/

/-- Whether constants are generated for a record, because it is a data statement
or a pool. -/
def Record.HasConstants (r : Record) : Prop :=
  (r.directive = some .dc ∧ ∃ parts, r.body = .storage parts) ∨ ∃ ids,
    r.body = .pool ids

theorem Record.HasConstants.isConstants {r : Record} (h : r.HasConstants) :
    r.isConstants = true := by
  rcases h with ⟨-, parts, hbody⟩ | ⟨ids, hbody⟩ <;>
    simp [Record.isConstants, hbody]

theorem Record.HasConstants.isMeasured {r : Record} (h : r.HasConstants) :
    r.isMeasured = true := by
  rcases h with ⟨hdirective, parts, hbody⟩ | ⟨ids, hbody⟩
  · simp [Record.isMeasured, hbody, hdirective]
  · simp [Record.isMeasured, hbody]

namespace Generate

/-- The step that makes the constants of a record. -/
def recordParts (r : Record) : Generate (List (Int64 × Bytes)) :=
  match r.body with
  | .storage parts => storageParts parts
  | .pool ids => poolParts ids
  | _ => pure []

section Records

variable {t : SymbolTable} {r : Record} {g : Generation}

/-- The parts of a record are gathered before any is emitted. -/
theorem steady_recordParts (r : Record) : Steady (recordParts r) := by
  unfold recordParts
  split
  · exact steady_storageParts _
  · exact steady_poolParts _
  · exact (quiet_pure _).steady

/-- Parts that make up the code of a record are its code. -/
theorem exec_emitParts {parts : List (Int64 × Bytes)} {data : Bytes}
    (h : assembleParts r.length parts = .ok data) :
    exec (emitParts parts) r g = exec (emit data) r g := by
  unfold emitParts
  rw [exec_bind, exec_record, h]

/-- The code of a record of constants is made of them. -/
theorem generate_constants (h : r.HasConstants) :
    exec generate r g = exec (recordParts r >>= emitParts) r g := by
  unfold generate recordParts
  rw [exec_bind, exec_record]
  rcases h with ⟨hdirective, parts, hbody⟩ | ⟨ids, hbody⟩
  · simp only [hbody, hdirective]
  · simp only [hbody]

/-- **The constants of a record are made into parts of their size**, and none is
refused. -/
theorem isPart_recordParts (h : r.HasConstants)
    (hsettled : r.Settled t g.literals) :
    List.Forall₂ IsPart (r.constants g.literals) (exec (recordParts r) r g).1 ∧
      ∀ d ∈ (exec (recordParts r) r g).2.2.diagnostics,
        d ∈ g.diagnostics ∨ ∀ cause, d.problem ≠ .invalidConstant cause := by
  have hsound := hsettled.sound
  rcases h with ⟨hdirective, parts, hbody⟩ | ⟨ids, hbody⟩
  · have haccepted := hsettled.accepted (Or.inl hdirective)
    have hconstants : r.constants g.literals = parts := by
      simp [Record.constants, hbody]
    rw [hconstants] at hsound haccepted ⊢
    simp only [recordParts, hbody]
    exact ⟨isPart_storageParts hsound haccepted r g,
      blameless_storageParts haccepted r g⟩
  · have haccepted := hsettled.accepted (Or.inr ⟨ids, hbody⟩)
    have hpooled := hsettled.pooled ids hbody
    simp only [recordParts, hbody]
    exact ⟨isPart_poolParts hbody hpooled hsound haccepted,
      diagnostics_poolParts hbody hpooled haccepted⟩

end Records
end Generate

/-- The literals that the constants of a pool are. -/
theorem Record.forall₂_pool {r : Record} {pool : LiteralPool}
    {ids : List Nat} (hbody : r.body = .pool ids)
    (hpooled : ∀ id ∈ ids, ∃ literal, pool.literals[id]? = some literal ∧
      literal.place.isSome ∧ literal.descriptor.isSome) :
    List.Forall₂
      (fun id c => ∃ literal spot, pool.literals[id]? = some literal ∧
      literal.descriptor = some c.1 ∧ literal.place = some spot ∧
      spot.address = r.loc + c.2)
      ids (r.constants pool) := by
  rw [Record.constants_pool hbody hpooled]
  clear hbody
  induction ids with
  | nil => exact .nil
  | cons id rest ih =>
      obtain ⟨literal, hliteral, hplace, hdescriptor⟩ :=
        hpooled id List.mem_cons_self
      obtain ⟨spot, hspot⟩ := Option.isSome_iff_exists.mp hplace
      obtain ⟨d, hd⟩ := Option.isSome_iff_exists.mp hdescriptor
      rw [List.filterMap_cons_some hliteral, List.map_cons]
      refine .cons ⟨literal, spot, hliteral, ?_, hspot, ?_⟩
        (ih fun other ho => hpooled other (List.mem_cons_of_mem _ ho))
      · simp [Literal.constant, hd]
      · simp only [Literal.constant, hspot, Option.map_some, Option.getD_some]
        grind

/-- **The constants of every record are one behind the other.** -/
theorem Program.chained_ofStatements (options : Options)
    (statements : List Statement) :
    let p := Program.ofStatements options statements
    ∀ r ∈ p.records, r.isConstants = true →
      Chain 0 (r.constants p.layout.literals) r.length := by
  obtain ⟨-, hplaced⟩ := unplaced_spec options statements
  intro p r hr his
  obtain ⟨r₀, hr₀, rfl⟩ := List.mem_map.mp hr
  have hkind : r₀.isConstants = true := by
    unfold Record.isConstants moveRecord at his
    unfold Record.isConstants
    cases hbody : r₀.body <;> simp_all
  exact (normalize_constants (hplaced r₀ hr₀)).symm ▸
    (hplaced r₀ hr₀).chained hkind

/-- A record whose code is what its constants were made into, with its state
before. -/
structure Record.Filled (pool : LiteralPool) (g : Generation)
    (planned made : Record) : Prop where
  code : ∃ data,
    made.object = some data ∧ (data.length : Int) = planned.length.toInt ∧
    Holds (planned.constants pool)
      (Generate.exec (Generate.recordParts planned) planned g).1 data
  unblamed : ∀ d ∈ (g.step planned).2.diagnostics,
    d ∈ g.diagnostics ∨ ∀ cause, d.problem ≠ .invalidConstant cause
  operands : planned.directive = some .dc →
    (planned.constants pool).map (·.1.text) = planned.statement.operands
  literals : ∀ ids, planned.body = .pool ids →
    List.Forall₂ (fun id c => ∃ literal spot,
      pool.literals[id]? = some literal ∧
      literal.descriptor = some c.1 ∧ literal.place = some spot ∧
      spot.address = planned.loc + c.2)
      ids (planned.constants pool)

/-- **A record of constants is filled with them**, if it has room for them. -/
theorem Generation.filled_step {t : SymbolTable} {r : Record} {g : Generation}
    (hconstants : r.HasConstants) (hclean : r.errored = false)
    (hsettled : r.Settled t g.literals) (hdescribed : r.Described)
    (hchain : r.isConstants = true → Chain 0 (r.constants g.literals) r.length)
    (hfits : r.Fits g.literals) (hfault : g.fault = none) :
    Record.Filled g.literals g r (g.step r).1 := by
  obtain ⟨hparts, hunblamed⟩ := Generate.isPart_recordParts hconstants hsettled
  have hstep : g.step r = ((Generate.exec Generate.generate r g).2.1,
      (Generate.exec Generate.generate r g).2.2) := by
    unfold step
    rw [if_neg (by simp [hclean, hfault])]
    rfl
  rw [Generate.generate_constants hconstants, Generate.exec_bind] at hstep
  obtain ⟨more, hkept⟩ := Generate.steady_recordParts r r g
  have hlength : (Generate.exec (Generate.recordParts r) r g).2.1.length =
      r.length := by
    rw [hkept.record]
  obtain ⟨data, hdata⟩ :=
    (Generate.assembleParts_ok_iff (Generate.map_fst_of_isPart hparts)).mpr
      hfits
  rw [Generate.exec_emitParts (hlength.symm ▸ hdata)] at hstep
  obtain ⟨hcode, hholds⟩ :=
    Generate.holds_of_assembleParts hparts hdata hchain hsettled.sound
  refine ⟨⟨data, ?_, hcode, hholds⟩, ?_, fun hdirective => ?_,
    fun ids hbody => ?_⟩
  · rw [hstep, Generate.object_emit]
  · rw [hstep, Generate.diagnostics_emit]
    exact hunblamed
  · obtain ⟨parts, hbody, htexts⟩ := hdescribed hclean hdirective
    rw [Record.constants, hbody]
    exact htexts
  · exact Record.forall₂_pool hbody (hsettled.pooled ids hbody)

namespace Program

/-- A data statement without an error has constants, and so has a pool. -/
theorem hasConstants_ofStatements (options : Options)
    (statements : List Statement) :
    ∀ r ∈ (ofStatements options statements).records, r.errored = false →
      r.directive = some .dc ∨ (∃ ids, r.body = .pool ids) →
        r.HasConstants := by
  rintro r hr hclean (hdc | hpool)
  · obtain ⟨parts, hbody, -⟩ :=
      described_ofStatements options statements r hr hclean hdc
    exact Or.inl ⟨hdc, parts, hbody⟩
  · exact Or.inr hpool

/-- **A record has room for its constants** if there are not too many of them,
or if the generation has no fault. -/
theorem fits_ofStatements (options : Options) (statements : List Statement) :
    let p := ofStatements options statements
    ∀ r ∈ p.records, r.errored = false → r.HasConstants →
      (r.constants p.layout.literals).length < 2 ^ 31 ∨
      p.generated.2.fault = none →
      r.Fits p.layout.literals := by
  intro p r hr hclean hconstants hroom
  have hsettled := settled_ofStatements options statements
  rcases hroom with hshort | hfault
  · exact Record.fits_of_short
      (chained_ofStatements options statements r hr hconstants.isConstants)
      (hsettled r hr).sound hshort
  · exact (Generation.fault_run hsettled rfl).mp hfault r hr hclean
      hconstants.isMeasured

/-- **Every record of constants is filled with them** that the generation comes
to and that has room for them. -/
theorem filled_generated (options : Options) (statements : List Statement) :
    let p := ofStatements options statements
    ∀ (i : Nat) (planned : Record),
    p.records[i]? = some planned → planned.errored = false →
      planned.HasConstants → planned.Fits p.layout.literals →
      let before := ((Generation.new p).run (p.records.take i)).2
      before.fault = none →
      ∃ made, p.generated.1[i]? = some made ∧
      planned.Filled p.layout.literals before made := by
  intro p i planned hplanned hclean hconstants hfits before hfault
  have hmem := List.mem_of_getElem? hplanned
  have hsettled := settled_ofStatements options statements
  have hliterals : before.literals = p.layout.literals :=
    (Generation.run_spec _ fun r hr =>
      (hsettled r (List.mem_of_mem_take hr)).ready).2.literals
  have hmade := Generation.getElem?_run (Generation.new p) p.records i
  rw [hplanned, Option.map_some] at hmade
  refine ⟨_, hmade, ?_⟩
  rw [← hliterals]
  exact Generation.filled_step hconstants hclean
    (hliterals ▸ hsettled planned hmem)
    (described_ofStatements options statements planned hmem)
    (hliterals ▸ chained_ofStatements options statements planned hmem)
      (hliterals ▸ hfits) hfault

end Program

/-! ### What is reserved and what is generated -/

/-- What the size of a constant says: how it is computed, in any word size, and
how many octets the constant is made into.  A check and an encoding succeed
together, and otherwise they fail for one reason; they never come to an end if
the first value without octets is infinite. -/
structure Constant.Descriptor.Sized (d : Descriptor) : Prop where
  product : d.size = d.dup * d.lengths.sum
  word : (Int64.ofNat d.itemSize * Int64.ofNat d.dup).toInt = d.size
  bounded : d.size ≤ 2 ^ 31
  ranged : ∀ n ∈ d.lengths, d.kind.minLength ≤ n ∧ n ≤ d.kind.maxLength
  first : d.lengths.head? = some d.lengthAttribute
  checked : d.kind.isAddress = false →
    (d.validation = .ok () ↔ ∃ octets, d.encoding = .ok octets)
  refused : d.kind.isAddress = false → ∀ failure,
    d.encoding = .error failure ↔ d.validation = .error failure
  endless : d.validation = .error .endless ↔ d.Endless
  encoded : d.kind.isAddress = false → ∀ octets, d.encoding = .ok octets →
    octets.length = d.size ∧ d.Repeats octets
  addressed : d.kind.isAddress = true → d.nominal ≠ [] → ∀ loc line cursor r g,
    (Generate.exec (Generate.constantOctets d loc line cursor) r g).1.length =
      d.size

/-- **A parsed constant has its size**, in the layout and in the code. -/
theorem Constant.sized_of_parse {ε : Type} {eval : Bytes → Traced ε Int64}
    {text : Bytes} {d : Descriptor} (h : (parse eval text).result = .ok d) :
    d.Sized where
  product := Nat.mul_comm _ _
  word := Descriptor.toInt_size (parse_sound h).bounded
  bounded := (parse_sound h).bounded
  ranged := (parse_sound h).ranged
  first := (reads_of_parse h).head?_lengths
  checked := Descriptor.validation_eq_ok_iff
  refused hdata _ := Descriptor.encoding_eq_error_iff hdata
  endless := Descriptor.validation_eq_endless_iff
  encoded _ _ hencoding :=
    have hrepeats :=
      (parse_sound h).repeats_encode (Descriptor.encode_eq_ok_iff.mpr hencoding)
    ⟨hrepeats.length, hrepeats⟩
  addressed haddress hnominal loc line cursor r g :=
    Generate.length_constantOctets (parse_sound h) haddress hnominal loc
      line cursor r g

/-- **What is reserved is generated.**  An operand is accepted just if the
product of its factor and its lengths is not too big; then that is the size of
the constant, and data and addresses are made into just as many octets.  Every
data statement and every pool without an error that the generation comes to is
filled with what its operands or its literals are made into: apart from each
other, inside the record, with zeros between them, and without a report that
blames a constant.  Only the sizes of `2 ^ 31` constants of one record could
wrap, and then the assembly would end. -/
theorem Workspace.reserved_generated {ε : Type} (eval : Bytes → Traced ε Int64)
    (text : Bytes) (w : Workspace) (today source : Bytes) :
    (∀ d, (parse eval text).result = .ok d ↔
      Reads eval text d ∧ d.size ≤ maxSize) ∧
    (∀ d, Reads eval text d → maxSize < d.size →
      (parse eval text).result =
        .error (.constant (.outOfRange text maxSize))) ∧
    (∀ d, (parse eval text).result = .ok d → d.Sized) ∧
    ∀ statements, Statement.readAll source = .ok statements →
      let p := Program.ofStatements w.options statements
      ∀ (i : Nat) (planned : Record),
      p.records[i]? = some planned → planned.errored = false →
        planned.directive = some .dc ∨ (∃ ids, planned.body = .pool ids) →
        let before := ((Generation.new p).run (p.records.take i)).2
        (before.fault = none →
          (planned.constants p.layout.literals).length < 2 ^ 31 →
          ∃ made, p.generated.1[i]? = some made ∧
          planned.Filled p.layout.literals before made) ∧
        ∀ a, (w.run today source).1 = .ok a →
          ∃ made, a.records[i]? = some made ∧
          planned.Filled p.layout.literals before made := by
  refine ⟨fun d => parse_eq_ok_iff, fun d hreads hlarge => ?_,
    fun d => sized_of_parse, ?_⟩
  · rw [hreads.result_parse, if_pos hlarge]
  intro statements hread p i planned hplanned hclean hkind
  have hmem := List.mem_of_getElem? hplanned
  have hconstants := Program.hasConstants_ofStatements w.options statements
    planned hmem hclean hkind
  have hfits := Program.fits_ofStatements w.options statements planned hmem
    hclean hconstants
  have hfilled := Program.filled_generated w.options statements i planned
    hplanned hclean hconstants
  refine ⟨fun hfault hshort => hfilled (hfits (Or.inl hshort)) hfault,
    fun a hrun => ?_⟩
  obtain ⟨statements', hread', -, hfault, hrecords, -⟩ := run_made hrun
  obtain rfl : statements' = statements := by simpa [hread] using hread'.symm
  rw [hrecords]
  exact hfilled (hfits (Or.inr hfault)) (Generation.fault_run_take hfault i)

/-- Two copies of two values, one that is converted for ever, one that is no
number, an operand that is too big, and a program with a data statement and a
pool. -/
theorem Workspace.reserved_generated_small :
    let eval : Bytes → Traced Unit Int64 := fun _ => Traced.fail ()
    (∃ d, (parse eval (bytes "2XL3'1F,2'")).result = .ok d ∧
      d.size = 12 ∧ d.Sized) ∧
    (∃ d, (parse eval (bytes "E'1,-Inf'")).result = .ok d ∧ d.Endless ∧
      d.encoding = .error .endless) ∧
    (∃ d octets,
      (parse eval (bytes "E'NaN'")).result = .ok d ∧ d.encoding = .ok octets ∧
      octets = [0xC0, 0, 0, 0] ∧ octets.length = d.size) ∧
    (parse eval (bytes "2147483649C")).result =
      .error (.constant (.outOfRange (bytes "2147483649C") maxSize)) ∧
    ∃ statements a, assemble {}
      (bytes ("A CSECT\n USING *,15\n L 1,=F'7'\n DC X'1',F'-1',A(B)\n" ++
        "B DS F\n LTORG\n END\n")) = .ok a ∧
      let p := Program.ofStatements {} statements
      (∃ planned made,
        p.records[3]? = some planned ∧ planned.directive = some .dc ∧
        p.generated.1[3]? = some made ∧ planned.Filled p.layout.literals
          ((Generation.new p).run (p.records.take 3)).2 made) ∧
      ∃ planned made, p.records[5]? = some planned ∧ planned.body = .pool [0] ∧
        a.records[5]? = some made ∧ planned.Filled p.layout.literals
          ((Generation.new p).run (p.records.take 5)).2 made := by
  intro eval
  let w : Workspace := ⟨{}, Arena.ofPageSize 4096, none⟩
  let source :=
    bytes ("A CSECT\n USING *,15\n L 1,=F'7'\n DC X'1',F'-1',A(B)\n" ++
    "B DS F\n LTORG\n END\n")
  refine ⟨?_, ?_, ?_, ?_, ?_⟩
  · let d : Descriptor := ⟨bytes "2XL3'1F,2'", 2, .hexadecimal, some 3,
      [bytes "1F", bytes "2"], [3, 3]⟩
    obtain ⟨-, -, hsized, -⟩ :=
      reserved_generated eval (bytes "2XL3'1F,2'") w [] source
    have hparsed : (parse eval (bytes "2XL3'1F,2'")).result = .ok d := by
      decide +kernel
    exact ⟨d, hparsed, by decide, hsized d hparsed⟩
  · let d : Descriptor :=
      ⟨bytes "E'1,-Inf'", 1, .shortFloat, none,
        [bytes "1", bytes "-Inf"], [4, 4]⟩
    obtain ⟨-, -, hsized, -⟩ :=
      reserved_generated eval (bytes "E'1,-Inf'") w [] source
    have hparsed : (parse eval (bytes "E'1,-Inf'")).result = .ok d := by
      decide +kernel
    have hencoding : d.encoding = .error .endless := by decide +kernel
    have hsize := hsized d hparsed
    exact ⟨d, hparsed,
      hsize.endless.mp ((hsize.refused rfl _).mp hencoding), hencoding⟩
  · let d : Descriptor :=
      ⟨bytes "E'NaN'", 1, .shortFloat, none, [bytes "NaN"], [4]⟩
    obtain ⟨-, -, hsized, -⟩ :=
      reserved_generated eval (bytes "E'NaN'") w [] source
    have hparsed : (parse eval (bytes "E'NaN'")).result = .ok d := by
      decide +kernel
    have hencoding : d.encoding = .ok [0xC0, 0, 0, 0] := by decide +kernel
    exact ⟨d, _, hparsed, hencoding, rfl,
      ((hsized d hparsed).encoded rfl _ hencoding).1⟩
  · have hfactor : (parseDuplication eval (bytes "2147483649C")).result =
        .ok ((2147483649 : Int64), octet 'C' :: []) := by decide +kernel
    obtain ⟨-, hrefused, -, -⟩ :=
      reserved_generated eval (bytes "2147483649C") w [] source
    have hlength : (parseLength eval (bytes "2147483649C") .character
        []).result = .ok (none, []) := rfl
    exact hrefused ⟨bytes "2147483649C", (2147483649 : Int64).toInt.toNat,
      .character, none, [], [1]⟩
      (.intro hfactor (by decide) (by decide) hlength rfl rfl) (by decide)
  · let check : List Statement → Assembly → Bool := fun statements _ =>
      let p := Program.ofStatements {} statements
      (p.records[3]?.any fun r => !r.errored && decide (r.directive = some .dc ∧
        ((Generation.new p).run (p.records.take 3)).2.fault = none ∧
        (r.constants p.layout.literals).length = 3)) &&
        p.records[5]?.any fun r => !r.errored && decide (r.body = .pool [0])
    obtain ⟨statements, a, hread, hrun, hcheck⟩ :=
      exists_assemble_of_any {} source check (by decide +kernel)
    obtain ⟨-, -, -, hfilled⟩ := reserved_generated eval [] w [] source
    simp only [check, Bool.and_eq_true, Option.any_eq_true, Bool.not_eq_true',
      decide_eq_true_eq] at hcheck
    obtain ⟨⟨data, hdata, hclean, hdirective, hfault, hcount⟩, pool, hpool,
        hclean', hbody⟩ := hcheck
    obtain ⟨hreached, -⟩ :=
      hfilled statements hread 3 data hdata hclean (Or.inl hdirective)
    obtain ⟨made, hmade, hfilled₁⟩ := hreached hfault (by rw [hcount]; decide)
    obtain ⟨-, hassembled⟩ :=
      hfilled statements hread 5 pool hpool hclean' (Or.inr ⟨_, hbody⟩)
    obtain ⟨made', hmade', hfilled₂⟩ := hassembled a hrun
    exact ⟨statements, a, hrun,
      ⟨data, made, hdata, hdirective, hmade, hfilled₁⟩,
      pool, made', hpool, hbody, hmade', hfilled₂⟩

end System370
