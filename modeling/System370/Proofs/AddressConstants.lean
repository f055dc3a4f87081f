import System370.Proofs.Addresses
import System370.Proofs.CollectedCode

/-!
# The items of address constants

An address constant is a row of items, each with a location of its own.  An item
in a control section leaves octets in the code and relocations for the linker,
and the two belong together: `Patch` is an item with both of them, and
`Patch.Made` says what they are.

* `Generate.items_spec`, `Generate.storageParts_spec` and
  `Generate.poolParts_spec` say that generating constants makes the patches of
  their items;
* `Generation.coded_run`: so the relocations of a program are those of the items
  in its records, in order, if there is no error.
-/

namespace System370

/-- An item of an address constant at its place. -/
structure AddressItem where
  kind : Constant.Kind
  place : Expression.Place
  nominal : Bytes
  length : Nat

/-- Items one behind the other from a location on. -/
def AddressItem.row (kind : Constant.Kind) (sectionId : Int) :
    Int64 → List (Bytes × Nat) → List AddressItem
  | _, [] => []
  | loc, (nominal, length) :: rest =>
    ⟨kind, ⟨sectionId, loc, 1⟩, nominal, length⟩ ::
      row kind sectionId (loc + Int64.ofNat length) rest

/-- The items of a constant at a location, with all copies of them.  Other
constants than those for addresses have none. -/
def Constant.Descriptor.items (d : Constant.Descriptor) (sectionId : Int)
    (loc : Int64) :
    List AddressItem :=
  if d.kind.isAddress then
    AddressItem.row d.kind sectionId loc
      (List.replicate d.dup (d.nominal.zip d.lengths)).flatten
  else []

/-- The items for which a record in a control section has code. -/
def Record.items (pool : LiteralPool) (r : Record) : List AddressItem :=
  if r.object.isSome ∧ 0 < r.sectionId then
    (r.constants pool).flatMap fun c => c.1.items r.sectionId (r.loc + c.2)
  else []

/-- The address items of a record are those of its constants, if it has octets
in a section. -/
theorem Record.mem_items_iff {pool : LiteralPool} {r : Record}
    {x : AddressItem} :
    x ∈ r.items pool ↔ r.object.isSome ∧ 0 < r.sectionId ∧
      ∃ c ∈ r.constants pool, x ∈ c.1.items r.sectionId (r.loc + c.2) := by
  unfold items
  split
  · rename_i hcode
    simp only [List.mem_flatMap, hcode, true_and]
  · rename_i hnone
    simp only [List.not_mem_nil, false_iff, ← and_assoc]
    exact fun h => hnone h.1

/-- An item with its octets and its relocations. -/
structure Patch where
  item : AddressItem
  data : Bytes
  relocations : List Deck.Relocation

/-- What the octets and relocations of an item are. -/
inductive Patch.Made (t : SymbolTable) : Patch → Prop where
  /-- A number or an address in this assembly: a relocation for each of its
  terms. -/
  | value {x : AddressItem} {result : Expression.Result}
      (hpos : 0 < x.place.sectionId)
      (hkind : x.kind = .address ∨ x.kind = .halfAddress)
      (hresult : (Expression.evaluate t x.place x.nominal).result =
        .ok result) :
      Made t ⟨x, Field.put x.length result.value.number.toInt,
        result.value.terms.flatMap
          (Generate.termRelocations t x.place x.length)⟩
  /-- The name of a section of this assembly. -/
  | inner {x : AddressItem} {e : ExternalName}
      (hpos : 0 < x.place.sectionId) (hkind : x.kind = .externalAddress)
      (he : t.external? (toUpper x.nominal) = some e)
        (hlocal : e.sectionId ≠ 0) :
      Made t ⟨x, Field.put x.length (t.offset e.sectionId).toInt,
        [⟨x.place.sectionId, e.id, x.place.loc, x.length, .add⟩]⟩
  /-- The name of something outside. -/
  | outer {x : AddressItem} {e : ExternalName}
      (hpos : 0 < x.place.sectionId) (hkind : x.kind = .externalAddress)
      (he : t.external? (toUpper x.nominal) = some e)
        (hlocal : e.sectionId = 0) :
      Made t ⟨x, List.replicate x.length 0,
        [⟨x.place.sectionId, e.id, x.place.loc, x.length, .store⟩]⟩
  /-- A base register and a displacement, which the linker does not change. -/
  | base {x : AddressItem} {data : Bytes} (hkind : x.kind = .baseDisplacement)
      (hlength : data.length = x.length) : Made t ⟨x, data, []⟩
  /-- An item outside of control sections, which is not in any text. -/
  | aside {x : AddressItem} {data : Bytes} (hsection : x.place.sectionId ≤ 0) :
      Made t ⟨x, data, []⟩

/-- The octets of an item have its length. -/
theorem Patch.Made.length {t : SymbolTable} {p : Patch} (h : p.Made t)
    (hpos : 0 < p.item.place.sectionId) : p.data.length = p.item.length := by
  cases h with
  | value => exact Field.length_put _ _
  | inner => exact Field.length_put _ _
  | outer => exact List.length_replicate
  | base _ hlength => exact hlength
  | aside hsection => exact absurd hpos (Int.not_lt.mpr hsection)

/-- The relocations of an item are for its own field. -/
theorem Patch.Made.field {t : SymbolTable} {p : Patch} (h : p.Made t) :
    ∀ m ∈ p.relocations, m.address = p.item.place.loc ∧
      m.length = p.item.length := by
  intro m hm
  cases h with
  | value =>
      obtain ⟨term, -, hmem⟩ := List.mem_flatMap.mp hm
      unfold Generate.termRelocations at hmem
      split at hmem
      · simp at hmem
      · rw [(List.mem_replicate.mp hmem).2]
        exact ⟨rfl, rfl⟩
  | inner =>
      rw [List.mem_singleton.mp hm]
      exact ⟨rfl, rfl⟩
  | outer =>
      rw [List.mem_singleton.mp hm]
      exact ⟨rfl, rfl⟩
  | base => simp at hm
  | aside => simp at hm

/-- An item outside of control sections has no relocations. -/
theorem Patch.Made.relocations_eq_nil {t : SymbolTable} {p : Patch}
    (h : p.Made t) (hsection : p.item.place.sectionId ≤ 0) :
    p.relocations = [] := by
  cases h with
  | value hpos => exact absurd hpos (Int.not_lt.mpr hsection)
  | inner hpos => exact absurd hpos (Int.not_lt.mpr hsection)
  | outer hpos => exact absurd hpos (Int.not_lt.mpr hsection)
  | base => rfl
  | aside => rfl

/-! ### A table while code is generated -/

/-- A generation that reads a table: it knows more references at most. -/
structure Generation.Reads (t : SymbolTable) (g : Generation) : Prop where
  symbols : g.symbols = { t with symbols := g.symbols.symbols }
  definitions : ∀ name, g.symbols.definition? name = t.definition? name

/-- Whether an error was reported. -/
def Generation.Failed (g : Generation) : Prop :=
  ∃ d ∈ g.diagnostics, d.severity.isError = true

namespace Generation

variable {t : SymbolTable} {g g' : Generation}

/-- External names are those of the table. -/
theorem Reads.external? (h : g.Reads t) (name : Bytes) :
    g.symbols.external? name = t.external? name := by
  rw [h.symbols]
  rfl

/-- Sections stand where the table has them. -/
theorem Reads.offset (h : g.Reads t) (id : Int) :
    g.symbols.offset id = t.offset id := by
  rw [h.symbols]
  rfl

theorem Reads.linkId (h : g.Reads t) (target : Target) :
    g.symbols.linkId target = t.linkId target := by
  rw [h.symbols]
  rfl

/-- The external symbols of a module do not depend on references. -/
theorem Reads.symbolsOf (h : g.Reads t) (options : Options)
    (modes : List (Bytes × Modes)) :
    Deck.symbolsOf options modes g.symbols =
      Deck.symbolsOf options modes t := by
  have hentry : Deck.entrySymbol? g.symbols = Deck.entrySymbol? t := by
    funext e
    simp only [Deck.entrySymbol?, h.definitions]
  unfold Deck.symbolsOf
  rw [hentry, h.symbols]

/-- A step that keeps the storage keeps the table that is read. -/
theorem Reads.held {more : List Deck.Relocation} {r r' : Record} (h : g.Reads t)
    (hheld : Generate.Held more r g r' g') : g'.Reads t := by
  refine ⟨?_, fun name => (hheld.definitions name).trans (h.definitions name)⟩
  rw [hheld.symbols, h.symbols]

theorem Reads.kept {more : List Deck.Relocation} {r r' : Record} (h : g.Reads t)
    (hkept : Generate.Kept more r g r' g') : g'.Reads t := h.held hkept.toHeld

/-- Two generations that read the same table read each other's. -/
theorem Reads.between (h : g.Reads t) (h' : g'.Reads t) :
    g.Reads g'.symbols := by
  refine ⟨?_, fun name => (h.definitions name).trans (h'.definitions name).symm⟩
  rw [h.symbols, h'.symbols]

/-- So does one that writes. -/
theorem Reads.adds {writes : List Run} (h : g.Reads t)
    (hadds : Adds writes g g') : g'.Reads t := by
  refine ⟨?_, fun name => (hadds.definitions name).trans (h.definitions name)⟩
  rw [hadds.symbols, h.symbols]

/-- A failure stays: diagnostics are only added. -/
theorem Failed.mono (h : g.Failed) (hmore : g.diagnostics <+: g'.diagnostics) :
    g'.Failed := by
  obtain ⟨d, hd, herror⟩ := h
  exact ⟨d, hmore.subset hd, herror⟩

end Generation

namespace Generate

variable {t : SymbolTable}

/-- Reporting an error fails. -/
theorem failed_report {problem : Problem} (h : problem.severity.isError = true)
    (cursor : Cursor) (r : Record) (g : Generation) :
    (exec (report cursor problem) r g).2.2.Failed :=
  ⟨⟨cursor, problem⟩, List.mem_append_right _ List.mem_cons_self, h⟩

/-! ### Expressions -/

section Expressions

variable {r : Record} {g : Generation}

/-- An expression has the value that the table gives it. -/
theorem result_evaluateAt (h : g.Reads t) (place : Expression.Place)
    (line : Int) (usage : Usage) (text : Bytes) :
    (exec (evaluateAt place line usage text) r g).1 =
      (Expression.evaluate t place text).result :=
  congrArg Traced.result (Expression.evaluate_congr h.definitions _)

/-- The same at the place of the record. -/
theorem result_evaluate (h : g.Reads t) (usage : Usage) (text : Bytes) :
    (exec (evaluate usage text) r g).1 =
      (Expression.evaluate t r.place text).result :=
  result_evaluateAt h r.place r.statement.line usage text

theorem result_absolute (h : g.Reads t) (usage : Usage) (text : Bytes) :
    (exec (absolute usage text) r g).1 =
      (Expression.absolute t r.place text).result := by
  show (Expression.absolute g.symbols r.place text).result = _
  simp only [Expression.absolute, Expression.evaluate_congr h.definitions]

end Expressions

/-! ### Items -/

/-- A step that makes the patches of items, or fails.  The results that it is
expected to give with those patches are those of `P`. -/
def Makes {α : Type} (t : SymbolTable) (items : List AddressItem)
    (P : List Patch → α → Prop) (r : Record) (g : Generation)
    (out : α × Record × Generation) : Prop :=
  ∃ patches : List Patch, patches.map (·.item) = items ∧
    Kept (patches.flatMap (·.relocations)) r g out.2.1 out.2.2 ∧
    (out.2.2.Failed ∨ (∀ p ∈ patches, p.Made t) ∧ P patches out.1)

section Makes

variable {α β : Type} {items others : List AddressItem} {r : Record}
  {g : Generation} {P : List Patch → α → Prop} {Q : List Patch → β → Prop}

/-- What two steps make, one behind the other. -/
theorem Makes.bind {x : Generate α} {f : α → Generate β}
    (hx : Makes t items P r g (exec x r g))
    (hf : Makes t others Q (exec x r g).2.1 (exec x r g).2.2
      (exec (f (exec x r g).1) (exec x r g).2.1 (exec x r g).2.2)) :
    Makes t (items ++ others)
      (fun patches b => ∃ first second,
        patches = first ++ second ∧ P first (exec x r g).1 ∧ Q second b)
      r g (exec (x >>= f) r g) := by
  obtain ⟨first, hitems, hkept, hfirst⟩ := hx
  obtain ⟨second, hothers, hkept', hsecond⟩ := hf
  refine ⟨first ++ second, ?_, ?_, ?_⟩
  · rw [List.map_append, hitems, hothers]
  · rw [List.flatMap_append]
    exact hkept.trans hkept'
  · rcases hfirst with hfailed | ⟨hmade, hp⟩
    · exact Or.inl (hfailed.mono hkept'.diagnostics)
    · rcases hsecond with hfailed | ⟨hmade', hq⟩
      · exact Or.inl hfailed
      · refine Or.inr ⟨fun p hmem => ?_, first, second, rfl, hp, hq⟩
        rcases List.mem_append.mp hmem with hmem | hmem
        · exact hmade p hmem
        · exact hmade' p hmem

/-- What is made of the answer of a step. -/
theorem Makes.map {x : Generate α} {f : α → β}
    (hx : Makes t items P r g (exec x r g))
    (hQ : ∀ patches, P patches (exec x r g).1 → Q patches (f (exec x r g).1)) :
    Makes t items Q r g (exec (x >>= fun a => pure (f a)) r g) := by
  obtain ⟨patches, hitems, hkept, hout⟩ := hx
  refine ⟨patches, hitems, hkept, ?_⟩
  rcases hout with hfailed | ⟨hmade, hp⟩
  · exact Or.inl hfailed
  · exact Or.inr ⟨hmade, hQ patches hp⟩

/-- The table that is read stays. -/
theorem Makes.reads {out : α × Record × Generation}
    (h : Makes t items P r g out) (hreads : g.Reads t) : out.2.2.Reads t := by
  obtain ⟨patches, hitems, hkept, hout⟩ := h
  exact hreads.kept hkept

/-- The record stays in its section. -/
theorem Makes.sectionId {out : α × Record × Generation}
    (h : Makes t items P r g out) :
    out.2.1.sectionId = r.sectionId := by
  obtain ⟨patches, hitems, hkept, hout⟩ := h
  rw [hkept.record]

/-- What is made satisfies whatever follows from its description. -/
theorem Makes.mono {P' : List Patch → α → Prop}
    {out : α × Record × Generation} (h : Makes t items P r g out)
    (hP : ∀ patches, patches.map (·.item) = items → P patches out.1 →
      P' patches out.1) :
    Makes t items P' r g out := by
  obtain ⟨patches, hitems, hkept, hout⟩ := h
  refine ⟨patches, hitems, hkept, ?_⟩
  rcases hout with hfailed | ⟨hmade, hp⟩
  · exact Or.inl hfailed
  · exact Or.inr ⟨hmade, hP patches hitems hp⟩

/-- A step that makes nothing. -/
theorem Quiet.makes {x : Generate α} (hx : Quiet x) :
    Makes t [] (fun patches _ => patches = []) r g (exec x r g) :=
  ⟨[], rfl, hx r g, Or.inr ⟨by simp, rfl⟩⟩

/-- A step that fails need not make anything. -/
theorem Quiet.makes_failed {x : Generate α} (hx : Quiet x)
    (items : List AddressItem) (hfailed : (exec x r g).2.2.Failed) :
    Makes t items P r g (exec x r g) := by
  refine ⟨items.map fun item => ⟨item, [], []⟩, ?_, ?_, Or.inl hfailed⟩
  · rw [List.map_map]
    exact List.map_id' items
  · have hnone : (items.map fun item => (⟨item, [], []⟩ : Patch)).flatMap
        (·.relocations) = [] := by
      simp [List.flatMap_map]
    rw [hnone]
    exact hx r g

end Makes

/-- The result of a step for one item: its octets. -/
abbrev Octets (patches : List Patch) (data : Bytes) : Prop :=
  patches.flatMap (·.data) = data

section Items

variable {x : AddressItem} {r : Record} {g : Generation}

/-- A step that makes the octets and the relocations of one item. -/
theorem makes_single {data : Bytes} {more : List Deck.Relocation}
    {out : Bytes × Record × Generation} (hkept : Kept more r g out.2.1 out.2.2)
    (hmade : Patch.Made t ⟨x, data, more⟩) (hdata : out.1 = data) :
    Makes t [x] Octets r g out := by
  refine ⟨[⟨x, data, more⟩], rfl, ?_, Or.inr ⟨?_, ?_⟩⟩
  · simpa using hkept
  · simpa using hmade
  · simpa [Octets] using hdata.symm

/-- An `A` or `Y` item is made: its octets hold its value, and its relocations
are those of its terms. -/
theorem addressItem_spec {result : Expression.Result} (cursor : Cursor)
    (hreads : g.Reads t) (hkind : x.kind = .address ∨ x.kind = .halfAddress)
    (hresult : (Expression.evaluate t x.place x.nominal).result = .ok result) :
    Makes t [x] Octets r g
      (exec (addressItem x.place cursor result.value x.length) r g) := by
  have hrelocations :
      result.value.terms.flatMap (termRelocations g.symbols x.place x.length) =
      result.value.terms.flatMap (termRelocations t x.place x.length) := by
    have hterm : termRelocations g.symbols x.place x.length =
        termRelocations t x.place x.length := by
      funext term
      simp only [termRelocations, hreads.linkId]
    rw [hterm]
  unfold addressItem
  simp only
  split
  · refine Quiet.makes_failed
      (quiet_bind (quiet_report _ _) fun _ => quiet_pure _) _ ?_
    exact failed_report rfl cursor r g
  · split
    · rename_i hpos
      refine makes_single ?_ (.value hpos hkind hresult) rfl
      rw [← hrelocations]
      exact kept_relocates _ r g
    · rename_i hpos
      exact makes_single (quiet_pure _ r g) (.aside (Int.not_lt.mp hpos)) rfl

/-- A `V` item is made: its octets are zero or the address of a section, and its
relocation names it. -/
theorem externalItem_spec (line : Int) (hreads : g.Reads t)
    (hkind : x.kind = .externalAddress)
    (hknown : (t.external? (toUpper x.nominal)).isSome) :
    Makes t [x] Octets r g
      (exec (externalItem x.place line (toUpper x.nominal) x.length) r g) := by
  obtain ⟨e, he⟩ := Option.isSome_iff_exists.mp hknown
  have hkept := quiet_reference line .plain [toUpper x.nominal] r g
  have hreads' := hreads.kept hkept
  unfold externalItem
  rw [exec_bind, exec_bind, exec_generation]
  generalize (exec (reference line .plain [toUpper x.nominal]) r g).2.1 =
    r₁ at hkept ⊢
  generalize (exec (reference line .plain [toUpper x.nominal]) r g).2.2 =
    g₁ at hkept hreads' ⊢
  simp only [hreads'.external?, he, hreads'.offset]
  split
  · rename_i hsection
    exact makes_single hkept (.aside hsection) rfl
  · rename_i hsection
    have hpos : 0 < x.place.sectionId := Int.not_le.mp hsection
    by_cases hlocal : e.sectionId = 0
    · rw [exec_bind]
      refine makes_single ?_ (.outer hpos hkind he hlocal) ?_
      · simpa [hlocal] using hkept.trans (kept_relocate _ r₁ g₁)
      · simp [hlocal]
    · rw [exec_bind]
      refine makes_single ?_ (.inner hpos hkind he hlocal) ?_
      · simpa [hlocal] using hkept.trans (kept_relocate _ r₁ g₁)
      · simp [hlocal]

/-- An `S` item is made without a relocation. -/
theorem baseItem_spec (cursor : Cursor) (v : Value)
    (hkind : x.kind = .baseDisplacement) (hlength : x.length = 2) :
    Makes t [x] Octets r g (exec (baseItem cursor v x.length) r g) := by
  refine makes_single (quiet_baseItem _ _ _ r g) (.base hkind ?_) rfl
  unfold baseItem
  rw [exec_bind]
  split
  · rw [hlength]
    exact Field.length_put _ _
  · exact List.length_replicate

/-- **One item makes its patch**, unless there is an error. -/
theorem item_spec (line : Int) (cursor : Cursor)
    (hreads : g.Reads t) (haddress : x.kind.isAddress = true)
    (hbase : x.kind = .baseDisplacement → x.length = 2)
    (hknown : x.kind = .externalAddress →
      (t.external? (toUpper x.nominal)).isSome) :
    Makes t [x] Octets r g
      (exec (item x.kind x.place line cursor x.nominal x.length) r g) := by
  unfold item
  split
  · rename_i hkind
    exact externalItem_spec line hreads hkind (hknown hkind)
  · rename_i hexternal
    have hkept := quiet_evaluateAt x.place line .plain x.nominal r g
    have hreads' := hreads.kept hkept
    rw [exec_bind, result_evaluateAt hreads]
    generalize (exec (evaluateAt x.place line .plain x.nominal) r g).2.1 =
      r₁ at hkept ⊢
    generalize (exec (evaluateAt x.place line .plain x.nominal) r g).2.2 =
      g₁ at hkept hreads' ⊢
    have hbefore : ∀ {out : Bytes × Record × Generation},
        Makes t [x] Octets r₁ g₁ out → Makes t [x] Octets r g out := by
      rintro out ⟨patches, hitems, hkept', hout⟩
      refine ⟨patches, hitems, ?_, hout⟩
      exact hkept.trans hkept'
    apply hbefore
    cases hresult : (Expression.evaluate t x.place x.nominal).result with
    | error problem =>
        refine Quiet.makes_failed
          (quiet_bind (quiet_report _ _) fun _ => quiet_pure _) _ ?_
        exact failed_report (Expression.isError_evaluate hresult) cursor r₁ g₁
    | ok result =>
        simp only
        split
        · rename_i hkind
          exact baseItem_spec cursor result.value hkind (hbase hkind)
        · rename_i hkind
          refine addressItem_spec cursor hreads' ?_ hresult
          cases hx : x.kind <;> simp_all [Constant.Kind.isAddress]

/-- Items one behind the other make their patches one behind the other. -/
theorem items_spec {kind : Constant.Kind} (sectionId line : Int)
    (cursor : Cursor) (haddress : kind.isAddress = true)
    {values : List (Bytes × Nat)}
    (hbase : ∀ v ∈ values, kind = .baseDisplacement → v.2 = 2)
    (hknown : ∀ v ∈ values, kind = .externalAddress →
      (t.external? (toUpper v.1)).isSome) (loc : Int64)
    (r : Record) (g : Generation) (hreads : g.Reads t) :
    Makes t (AddressItem.row kind sectionId loc values) Octets r g
      (exec (items kind sectionId line cursor loc values) r g) := by
  induction values generalizing loc r g with
  | nil =>
      refine (quiet_pure []).makes.mono fun patches hitems hnone => ?_
      rw [hnone]
      rfl
  | cons value rest ih =>
      obtain ⟨nominal, length⟩ := value
      let x : AddressItem := ⟨kind, ⟨sectionId, loc, 1⟩, nominal, length⟩
      let step : Generate Bytes :=
        item x.kind x.place line cursor x.nominal x.length
      have hfirst : Makes t [x] Octets r g (exec step r g) :=
        item_spec line cursor hreads haddress (hbase _ List.mem_cons_self)
          (hknown _ List.mem_cons_self)
      have hrest := ih (fun v hv => hbase v (List.mem_cons_of_mem _ hv))
        (fun v hv => hknown v (List.mem_cons_of_mem _ hv))
          (loc + Int64.ofNat length)
        (exec step r g).2.1 _ (hfirst.reads hreads)
      have hboth : Makes t _ (fun patches data => ∃ others,
          data = (exec step r g).1 ++ others ∧ Octets patches others) _ _ _ :=
        hrest.map fun patches hdata => ⟨_, rfl, hdata⟩
      refine (hfirst.bind hboth).mono fun patches _ hall => ?_
      obtain ⟨first, second, rfl, hoctets, others, hdata, hothers⟩ := hall
      show (first ++ second).flatMap (·.data) = _
      rw [List.flatMap_append, hoctets, hothers]
      exact hdata.symm

/-- A constant makes the patches of its items. -/
theorem constantOctets_spec {d : Constant.Descriptor} (hsound : d.Sound)
    (haccepted : d.Accepted t) (loc : Int64)
    (line : Int) (cursor : Cursor) (hreads : g.Reads t) :
    Makes t (d.items r.sectionId loc)
      (fun patches data => d.kind.isAddress = true → Octets patches data) r g
      (exec (constantOctets d loc line cursor) r g) := by
  unfold constantOctets Constant.Descriptor.items
  split
  · rename_i haddress
    have hvalue :
        ∀ v ∈ (List.replicate d.dup (d.nominal.zip d.lengths)).flatten,
        v.1 ∈ d.nominal ∧ v.2 ∈ d.lengths := by
      intro v hv
      obtain ⟨copy, hcopy, hmem⟩ := List.mem_flatten.mp hv
      rw [(List.mem_replicate.mp hcopy).2] at hmem
      exact List.of_mem_zip hmem
    rw [exec_bind, exec_record]
    refine Makes.mono
      (items_spec r.sectionId line cursor haddress ?_ ?_ loc r g hreads)
      fun patches _ hoctets _ => hoctets
    · intro v hv hkind
      have hrange := hsound.ranged v.2 (hvalue v hv).2
      rw [hkind] at hrange
      exact Nat.le_antisymm hrange.2 hrange.1
    · intro v hv hkind
      exact haccepted.externals hkind v.1 (hvalue v hv).1
  · rename_i haddress
    refine (Quiet.makes ?_).mono fun patches _ _ h => absurd h haddress
    split
    · exact quiet_pure _
    · exact quiet_bind (quiet_report _ _) fun _ => quiet_pure _

end Items

end Generate

/-! ### The constants of a record -/

/-- Constants at offsets from a location, with the octets and patches made of
them. -/
inductive PartsMade (t : SymbolTable) (sectionId : Int) (base : Int64) :
    List (Constant.Descriptor × Int64) → List (Int64 × Bytes) →
      List Patch → Prop where
  | nil : PartsMade t sectionId base [] [] []
  | cons {d : Constant.Descriptor} {offset : Int64} {data : Bytes}
      {patches others : List Patch} {rest : List (Constant.Descriptor × Int64)}
        {parts : List (Int64 × Bytes)}
      (hitems : patches.map (·.item) = d.items sectionId (base + offset))
      (hdata : d.kind.isAddress = true → patches.flatMap (·.data) = data)
      (hrest : PartsMade t sectionId base rest parts others) :
      PartsMade t sectionId base ((d, offset) :: rest) ((offset, data) :: parts)
        (patches ++ others)

/-- The code of a record, with the patches of its items. -/
inductive Record.Coded (t : SymbolTable) (pool : LiteralPool) (r : Record) :
    List Patch → Prop where
  | constants {parts : List (Int64 × Bytes)} {data : Bytes}
      {patches : List Patch} (hobject : r.object = some data)
      (hparts : PartsMade t r.sectionId r.loc (r.constants pool) parts patches)
      (hdata : Generate.assembleParts r.length parts = .ok data) :
        Coded t pool r patches
  | other (hnone : r.items pool = []) : Coded t pool r []

/-- The constant of a literal, at an offset from a location. -/
def Literal.constant (loc : Int64) (literal : Literal) :
    Constant.Descriptor × Int64 :=
  (literal.descriptor.getD ⟨[], 0, .character, none, [], []⟩,
    (literal.place.map (·.address)).getD 0 - loc)

section Pool

variable {pool : LiteralPool} {ids : List Nat}

/-- The literals of a pool have descriptors. -/
theorem LiteralPool.described
    (hpooled : ∀ id ∈ ids, ∃ literal, pool.literals[id]? = some literal ∧
      literal.place.isSome ∧ literal.descriptor.isSome) :
    ∀ literal ∈ ids.filterMap fun id => pool.literals[id]?, ∃ d,
    literal.descriptor = some d := by
  intro literal hliteral
  obtain ⟨id, hid, hget⟩ := List.mem_filterMap.mp hliteral
  obtain ⟨other, hother, -, hdescriptor⟩ := hpooled id hid
  rw [hget] at hother
  obtain rfl := Option.some.inj hother
  exact Option.isSome_iff_exists.mp hdescriptor

/-- The constants of a pool are those of its literals. -/
theorem Record.constants_pool {r : Record} (hbody : r.body = .pool ids)
    (hpooled : ∀ id ∈ ids, ∃ literal, pool.literals[id]? = some literal ∧
      literal.place.isSome ∧ literal.descriptor.isSome) :
    r.constants pool =
      (ids.filterMap fun id => pool.literals[id]?).map
        (Literal.constant r.loc) := by
  unfold Record.constants
  rw [hbody]
  simp only
  clear hbody
  induction ids with
  | nil => rfl
  | cons id rest ih =>
      obtain ⟨literal, hliteral, hplace, hdescriptor⟩ :=
        hpooled id List.mem_cons_self
      obtain ⟨spot, hspot⟩ := Option.isSome_iff_exists.mp hplace
      obtain ⟨d, hd⟩ := Option.isSome_iff_exists.mp hdescriptor
      have hrest := ih fun other ho => hpooled other (List.mem_cons_of_mem _ ho)
      simp only [List.filterMap_cons, hliteral, List.map_cons, hrest, hspot, hd,
        Option.bind_some, Option.map_some, Literal.constant, Option.getD_some]

end Pool

/-- A record that is ready for the generation, with what is known of its
constants. -/
structure Record.Settled (t : SymbolTable) (pool : LiteralPool)
    (r : Record) : Prop where
  ready : Generation.Ready r
  sound : ∀ c ∈ r.constants pool, c.1.Sound
  accepted : r.directive = some .dc ∨ (∃ ids, r.body = .pool ids) →
    ∀ c ∈ r.constants pool, c.1.Accepted t
  pooled : ∀ ids, r.body = .pool ids → ∀ id ∈ ids, ∃ literal,
    pool.literals[id]? = some literal ∧ literal.place.isSome ∧
      literal.descriptor.isSome

namespace Generate

variable {t : SymbolTable}

/-- The items of a constant of a record. -/
abbrev itemsAt (sectionId : Int) (base : Int64)
    (c : Constant.Descriptor × Int64) :
    List AddressItem :=
  c.1.items sectionId (base + c.2)

/-- Constants one after the other make their parts. -/
theorem mapM_spec {ξ : Type} {sectionId : Int}
    {base : Int64} (constant : ξ → Constant.Descriptor × Int64)
    (f : ξ → Generate (Int64 × Bytes)) (xs : List ξ)
    (hf : ∀ x ∈ xs, ∀ r g, r.sectionId = sectionId → g.Reads t →
      Makes t (itemsAt sectionId base (constant x))
        (fun patches out => out.1 = (constant x).2 ∧
          ((constant x).1.kind.isAddress = true → Octets patches out.2))
        r g (exec (f x) r g)) (r : Record) (g : Generation)
    (hsection : r.sectionId = sectionId) (hreads : g.Reads t) :
    Makes t ((xs.map constant).flatMap (itemsAt sectionId base))
      (fun patches parts =>
        PartsMade t sectionId base (xs.map constant) parts patches)
      r g (exec (xs.mapM f) r g) := by
  induction xs generalizing r g with
  | nil =>
      refine (quiet_pure []).makes.mono fun patches _ hnone => ?_
      rw [hnone]
      exact .nil
  | cons x rest ih =>
      have hfirst : Makes t _ (fun patches (out : Int64 × Bytes) =>
          patches.map (·.item) = itemsAt sectionId base (constant x) ∧
              out.1 = (constant x).2 ∧
            ((constant x).1.kind.isAddress = true →
              Octets patches out.2)) _ _ _ :=
        (hf x List.mem_cons_self r g hsection hreads).mono
          fun patches hitems hout => ⟨hitems, hout⟩
      have hrest :=
        ih (fun y hy => hf y (List.mem_cons_of_mem _ hy)) (exec (f x) r g).2.1
          (exec (f x) r g).2.2 (hfirst.sectionId.trans hsection)
          (hfirst.reads hreads)
      have hboth : Makes t _ (fun patches parts => ∃ others,
          parts = (exec (f x) r g).1 :: others ∧
            PartsMade t sectionId base (rest.map constant) others patches) _ _
              _ :=
        hrest.map fun patches hparts => ⟨_, rfl, hparts⟩
      have hall : Makes t _ _ r g
          (exec (f x >>= fun a => rest.mapM f >>= fun others =>
            pure (a :: others)) r g) :=
        hfirst.bind hboth
      rw [List.mapM_cons]
      refine hall.mono fun patches _ hout => ?_
      obtain ⟨first, second, rfl, ⟨hitems, hoffset, hoctets⟩, others, hdata,
          hothers⟩ := hout
      have hpair : (exec (f x) r g).1 =
          ((constant x).2, (exec (f x) r g).1.2) :=
        Prod.ext hoffset rfl
      rw [hdata, hpair]
      exact .cons hitems hoctets hothers

/-- The constants of a storage statement make their parts. -/
theorem storageParts_spec {r : Record} {g : Generation}
    {parts : List (Constant.Descriptor × Int64)}
    (hsound : ∀ c ∈ parts, c.1.Sound)
    (haccepted : ∀ c ∈ parts, c.1.Accepted t) (hreads : g.Reads t) :
    Makes t (parts.flatMap (itemsAt r.sectionId r.loc))
      (fun patches out => PartsMade t r.sectionId r.loc parts out patches) r g
      (exec (storageParts parts) r g) := by
  have hmap : parts.zipIdx.map (·.1) = parts := List.zipIdx_map_fst 0 parts
  let step (x : (Constant.Descriptor × Int64) × Nat) :
      Generate (Int64 × Bytes) := do
    let data ← constantOctets x.1.1 (r.loc + x.1.2) r.statement.line
        (r.statement.operandCursor x.2)
    return (x.1.2, data)
  have hstep : ∀ x ∈ parts.zipIdx, ∀ r' g',
      r'.sectionId = r.sectionId → g'.Reads t →
      Makes t (itemsAt r.sectionId r.loc x.1)
        (fun patches out => out.1 = x.1.2 ∧
          (x.1.1.kind.isAddress = true → Octets patches out.2))
        r' g' (exec (step x) r' g') := by
    intro x hx r' g' hsection hreads'
    have hmem : x.1 ∈ parts := hmap ▸ List.mem_map.mpr ⟨x, hx, rfl⟩
    have hoctets :=
      @constantOctets_spec t r' g' _ (hsound _ hmem) (haccepted _ hmem)
        (r.loc + x.1.2) r.statement.line (r.statement.operandCursor x.2) hreads'
    rw [hsection] at hoctets
    exact hoctets.map fun patches hdata => ⟨rfl, hdata⟩
  have hspec := mapM_spec (fun x => x.1) step parts.zipIdx hstep r g rfl hreads
  rw [hmap] at hspec
  unfold storageParts
  rw [exec_bind, exec_record]
  exact hspec

/-- The constants of a pool make their parts. -/
theorem poolParts_spec {r : Record} {g : Generation} {ids : List Nat}
    (hbody : r.body = .pool ids)
    (hpooled : ∀ id ∈ ids, ∃ literal, g.literals.literals[id]? = some literal ∧
      literal.place.isSome ∧ literal.descriptor.isSome)
    (hsound : ∀ c ∈ r.constants g.literals, c.1.Sound)
    (haccepted : ∀ c ∈ r.constants g.literals, c.1.Accepted t)
    (hreads : g.Reads t) :
    Makes t ((r.constants g.literals).flatMap (itemsAt r.sectionId r.loc))
      (fun patches out =>
        PartsMade t r.sectionId r.loc (r.constants g.literals) out patches) r g
      (exec (poolParts ids) r g) := by
  let literals := ids.filterMap fun id => g.literals.literals[id]?
  have hmap : literals.map (Literal.constant r.loc) = r.constants g.literals :=
    (Record.constants_pool hbody hpooled).symm
  unfold poolParts
  rw [exec_bind, exec_record, exec_bind, exec_generation, ← hmap]
  refine mapM_spec (Literal.constant r.loc) _ literals ?_ r g rfl hreads
  intro literal hliteral r' g' hsection hreads'
  have hmem : literal.constant r.loc ∈ r.constants g.literals :=
    hmap ▸ List.mem_map.mpr ⟨literal, hliteral, rfl⟩
  obtain ⟨d, hd⟩ := LiteralPool.described hpooled literal hliteral
  have hconstant : (literal.constant r.loc).1 = d := by
    simp [Literal.constant, hd]
  have hloc : r.loc + (literal.constant r.loc).2 =
      (literal.place.map (·.address)).getD 0 := by
    simp only [Literal.constant]
    grind
  have hoctets := @constantOctets_spec t r' g' _ (hconstant ▸ hsound _ hmem)
    (hconstant ▸ haccepted _ hmem) ((literal.place.map (·.address)).getD 0)
    literal.line
    r.statement.mnemonicCursor hreads'
  have hitems : itemsAt r.sectionId r.loc (literal.constant r.loc) =
      d.items r'.sectionId ((literal.place.map (·.address)).getD 0) := by
    rw [itemsAt, hconstant, hloc, hsection]
  rw [hitems]
  simp only [hd]
  exact hoctets.map fun patches hdata => ⟨rfl, hconstant ▸ hdata⟩

/-! ### Records -/

/-- Emission adds no relocation. -/
theorem relocations_emit (data : Bytes) (r : Record) (g : Generation) :
    (exec (emit data) r g).2.2.relocations = g.relocations := by
  rw [exec_emit]
  split <;> rfl

theorem diagnostics_emit (data : Bytes) (r : Record) (g : Generation) :
    (exec (emit data) r g).2.2.diagnostics = g.diagnostics := by
  rw [exec_emit]
  split <;> rfl

/-- What becomes of a record that is no constant, or has no code. -/
theorem coded_other {pool : LiteralPool} {r : Record}
    (h : r.object = none ∨ r.constants pool = []) : r.Coded t pool [] := by
  refine .other ?_
  unfold Record.items
  rcases h with h | h
  · simp [h]
  · simp [h]

/-- Setting the code of a record to the parts of its constants. -/
theorem coded_emitParts {constants : List (Constant.Descriptor × Int64)}
    {r : Record} {g : Generation}
    {out : List (Int64 × Bytes) × Record × Generation}
    (hmakes : Makes t (constants.flatMap (itemsAt r.sectionId r.loc))
      (fun patches parts => PartsMade t r.sectionId r.loc constants parts patches)
      r g out)
    (hconstants : r.constants g.literals = constants)
    (hfault : (exec (emitParts out.1) out.2.1 out.2.2).2.2.fault = none) :
    ∃ patches : List Patch,
      (exec (emitParts out.1) out.2.1 out.2.2).2.2.relocations =
        g.relocations ++ patches.flatMap (·.relocations) ∧
      ((exec (emitParts out.1) out.2.1 out.2.2).2.2.Failed ∨
        (∀ p ∈ patches, p.Made t) ∧
          (exec (emitParts out.1) out.2.1 out.2.2).2.1.Coded t g.literals
            patches) := by
  obtain ⟨patches, hitems, hkept, hout⟩ := hmakes
  obtain ⟨parts, r₁, g₁⟩ := out
  simp only at hkept hout hfault ⊢
  unfold emitParts at hfault ⊢
  rw [exec_bind, exec_record] at hfault ⊢
  simp only at hfault ⊢
  cases hdata : assembleParts r₁.length parts with
  | error e =>
      rw [hdata] at hfault
      simp at hfault
  | ok data =>
      simp only
      refine ⟨patches, ?_, ?_⟩
      · rw [relocations_emit, hkept.relocations]
      · rcases hout with hfailed | ⟨hmade, hparts⟩
        · left
          exact hfailed.mono (diagnostics_emit data r₁ g₁ ▸ List.prefix_refl _)
        · right
          refine ⟨hmade, ?_⟩
          have hrecord : (exec (emit data) r₁ g₁).2.1 =
              { r₁ with object := some data } := by
            rw [exec_emit]
          rw [hrecord]
          refine .constants rfl ?_ hdata
          have hsection : r₁.sectionId = r.sectionId := by rw [hkept.record]
          have hloc : r₁.loc = r.loc := by rw [hkept.record]
          have hbody : r₁.body = r.body := by rw [hkept.record]
          have hsame :
              ({ r₁ with object := some data } : Record).constants g.literals =
              constants := by
            rw [← hconstants]
            simp only [Record.constants, hloc, hbody]
          rw [hsame]
          show PartsMade t r₁.sectionId r₁.loc constants parts patches
          rw [hsection, hloc]
          exact hparts

/-- Setting the code of a record that is no constant. -/
theorem coded_emit {pool : LiteralPool} {r r₁ : Record} {g g₁ : Generation}
    (data : Bytes) (hkept : Kept [] r g r₁ g₁)
    (hconstants : r.isConstants = false) :
    (exec (emit data) r₁ g₁).2.2.relocations = g.relocations ∧
      (exec (emit data) r₁ g₁).2.1.Coded t pool [] := by
  refine ⟨?_, coded_other (Or.inr ?_)⟩
  · rw [relocations_emit, hkept.relocations, List.append_nil]
  · have hbody : (exec (emit data) r₁ g₁).2.1.body = r.body := by
      rw [exec_emit, hkept.record]
    apply Record.constants_eq_nil
    unfold Record.isConstants at hconstants ⊢
    rw [hbody]
    exact hconstants

/-- **Generating a record makes the patches of its items**, unless there is an
error. -/
theorem coded_generate {r : Record} {g : Generation}
    (h : r.Settled t g.literals) (hreads : g.Reads t)
    (hfault : (exec generate r g).2.2.fault = none) :
    ∃ patches : List Patch,
      (exec generate r g).2.2.relocations = g.relocations ++
        patches.flatMap (·.relocations) ∧
      ((exec generate r g).2.2.Failed ∨
        (∀ p ∈ patches, p.Made t) ∧
        (exec generate r g).2.1.Coded t g.literals patches) := by
  have hmild : ∀ {x : Generate Unit}, Mild x → ∃ patches : List Patch,
      (exec x r g).2.2.relocations = g.relocations ++
        patches.flatMap (·.relocations) ∧
      ((exec x r g).2.2.Failed ∨
        (∀ p ∈ patches, p.Made t) ∧
        (exec x r g).2.1.Coded t g.literals patches) := by
    intro x hx
    have hheld := hx r g
    refine ⟨[], hheld.relocations, Or.inr ⟨by simp, coded_other (Or.inl ?_)⟩⟩
    rw [hheld.record]
    exact h.ready.1
  have hemit : ∀ {r₁ : Record} {g₁ : Generation} (data : Bytes),
      Kept [] r g r₁ g₁ →
      r.isConstants = false → ∃ patches : List Patch,
      (exec (emit data) r₁ g₁).2.2.relocations = g.relocations ++
        patches.flatMap (·.relocations) ∧
      ((exec (emit data) r₁ g₁).2.2.Failed ∨
        (∀ p ∈ patches, p.Made t) ∧
        (exec (emit data) r₁ g₁).2.1.Coded t g.literals patches) := by
    intro r₁ g₁ data hkept hconstants
    obtain ⟨hrelocations, hcoded⟩ :=
      @coded_emit t g.literals r r₁ g g₁ data hkept hconstants
    exact ⟨[], by simp [hrelocations], Or.inr ⟨by simp, hcoded⟩⟩
  unfold generate at hfault ⊢
  rw [exec_bind, exec_record] at hfault ⊢
  simp only at hfault ⊢
  split at hfault
  · rename_i op bound hbody
    rw [exec_bind]
    exact hemit _ (quiet_instructionOctets op r g)
      (by simp [Record.isConstants, hbody])
  · rename_i parts hbody hdirective
    have hconstants : r.constants g.literals = parts := by
      simp [Record.constants, hbody]
    have hsound := h.sound
    have haccepted := h.accepted (Or.inl hdirective)
    rw [hconstants] at hsound haccepted
    rw [exec_bind] at hfault ⊢
    exact coded_emitParts (storageParts_spec hsound haccepted hreads)
      hconstants hfault
  · rename_i ids hbody
    rw [exec_bind] at hfault ⊢
    exact coded_emitParts (poolParts_spec hbody (h.pooled ids hbody) h.sound
      (h.accepted (Or.inr ⟨ids, hbody⟩)) hreads) rfl hfault
  · exact hmild (quiet_forM fun _ => quiet_discard (quiet_evaluate _ _)).mild
  · exact hmild mild_useBases
  · exact hmild mild_dropBases
  · exact hmild mild_endProgram
  · rename_i hbody _
    split at hfault
    · simp at hfault
    · rename_i hlength
      rw [if_neg hlength]
      exact hemit _ (Kept.refl r g) (by simp [Record.isConstants, hbody])
  · exact hmild (quiet_pure _).mild

end Generate

namespace Generation

variable {t : SymbolTable}

/-- **One record** adds the relocations of its items, whose octets are in its
object, unless something has failed. -/
theorem coded_step {r : Record} {g : Generation} (h : r.Settled t g.literals)
    (hreads : g.Reads t) (hfault : (g.step r).2.fault = none) :
    ∃ patches : List Patch,
      (g.step r).2.relocations = g.relocations ++
        patches.flatMap (·.relocations) ∧
      ((g.step r).2.Failed ∨
        (∀ p ∈ patches, p.Made t) ∧
        (g.step r).1.Coded t g.literals patches) := by
  unfold step at hfault ⊢
  split
  · exact ⟨[], by simp,
      Or.inr ⟨by simp, Generate.coded_other (Or.inl h.ready.1)⟩⟩
  · rename_i hstep
    rw [if_neg hstep] at hfault
    exact Generate.coded_generate h hreads hfault

/-- **The relocations of a program are those of the items in its records**,
unless there is an error. -/
theorem coded_run {records : List Record} {g : Generation}
    (h : ∀ r ∈ records, r.Settled t g.literals) (hreads : g.Reads t)
    (hfault : (g.run records).2.fault = none) :
    ∃ coded : List (Record × List Patch), coded.map (·.1) = (g.run records).1 ∧
      (g.run records).2.relocations =
        g.relocations ++ coded.flatMap (fun c => c.2.flatMap (·.relocations)) ∧
      ((g.run records).2.Failed ∨
        ∀ c ∈ coded, (∀ p ∈ c.2, p.Made t) ∧ c.1.Coded t g.literals c.2) := by
  induction records generalizing g with
  | nil => exact ⟨[], rfl, by simp [run], Or.inr (by simp)⟩
  | cons r rest ih =>
      have hfirst := h r List.mem_cons_self
      obtain ⟨-, hadds⟩ := step_spec g hfirst.ready
      have hliterals : (g.step r).2.literals = g.literals := hadds.literals
      have hrest : ((g.step r).2.run rest).2.fault = none := hfault
      obtain ⟨patches, hrelocations, hout⟩ :=
        coded_step hfirst hreads (fault_of_run hrest)
      obtain ⟨coded, hrecords, hmore, hall⟩ := ih (g := (g.step r).2)
        (fun r hr => hliterals ▸ h r (List.mem_cons_of_mem _ hr))
          (hreads.adds hadds) hrest
      obtain ⟨-, hadds'⟩ := run_spec (g.step r).2 fun r hr =>
        (h r (List.mem_cons_of_mem _ hr)).ready
      refine ⟨((g.step r).1, patches) :: coded, ?_, ?_, ?_⟩
      · rw [List.map_cons, hrecords]
        rfl
      · show ((g.step r).2.run rest).2.relocations = _
        rw [hmore, hrelocations, List.append_assoc]
        rfl
      · rcases hout with hfailed | hmade
        · exact Or.inl (hfailed.mono hadds'.diagnostics)
        · rcases hall with hfailed | hall
          · exact Or.inl hfailed
          · right
            intro c hc
            rcases List.mem_cons.mp hc with rfl | hc
            · exact hmade
            · exact hliterals ▸ hall c hc

end Generation

namespace Program

/-- A moved record has the same literals. -/
theorem pooled_normalize {p : Program} {r : Record} (h : r.Placed p.layout)
    (ids : List Nat) (hbody : r.body = .pool ids) : ∀ id ∈ ids, ∃ literal,
      p.normalize.layout.literals.literals[id]? = some literal ∧
      literal.place.isSome ∧
        literal.descriptor.isSome := by
  intro id hid
  obtain ⟨literal, hliteral, -, hplace, hdescriptor⟩ :=
    h.pooled ids hbody id hid
  exact ⟨_, getElem?_normalize hliteral, by simpa using hplace, hdescriptor⟩

/-- A moved record is ready for the generation. -/
theorem settled_normalize {p : Program} (hwf : p.layout.WellFormed) {r : Record}
    (h : r.Placed p.layout) :
    (moveRecord p.normalize.layout.symbols r).Settled p.normalize.layout.symbols
      p.normalize.layout.literals := by
  have hconstants := normalize_constants h
  have hmono : ∀ d : Constant.Descriptor, d.Accepted p.layout.symbols →
      d.Accepted p.normalize.layout.symbols := by
    exact fun d hd => hd.mono fun name hname =>
      (hwf.symbols.numbered.isSome_external?_normalize name).mpr hname
  refine ⟨⟨h.object, ?_⟩, ?_, ?_,
    fun ids hids => pooled_normalize h ids (body_moveRecord_eq_pool.mp hids)⟩
  · intro op bound hbody
    exact h.instruction op bound (body_moveRecord_eq_instruction.mp hbody)
  · rw [hconstants]
    exact h.sound
  · rw [hconstants]
    intro hgenerates c hc
    apply hmono
    rcases hgenerates with hdc | ⟨ids, hids⟩
    · have hdirective : r.directive = some .dc := hdc
      exact h.accepted (by simp [hdirective]) c hc
    · rw [Record.constants_of_pool (body_moveRecord_eq_pool.mp hids)] at hc
      obtain ⟨id, hid, hget⟩ := List.mem_filterMap.mp hc
      obtain ⟨literal, hliteral, hrest⟩ := Option.bind_eq_some_iff.mp hget
      obtain ⟨d, hd, hplace⟩ := Option.bind_eq_some_iff.mp hrest
      obtain ⟨spot, -, rfl⟩ := Option.map_eq_some_iff.mp hplace
      obtain ⟨other, hother, -, haccepted⟩ :=
        hwf.described literal (List.mem_of_getElem? hliteral)
      rw [hd] at hother
      obtain rfl := Option.some.inj hother
      exact haccepted

/-- Moved records are ready for the generation. -/
theorem settled_records {p : Program} (hwf : p.layout.WellFormed)
    (hplaced : ∀ r ∈ p.records, r.Placed p.layout) :
    ∀ r ∈ p.normalize.records, r.Settled p.normalize.layout.symbols
      p.normalize.layout.literals := by
  intro r hr
  obtain ⟨r₀, hr₀, rfl⟩ := List.mem_map.mp hr
  exact settled_normalize hwf (hplaced r₀ hr₀)

/-- The generation of a program reads its table. -/
theorem reads_generated {p : Program}
    (h : ∀ r ∈ p.records, Generation.Ready r) :
    p.generated.2.Reads p.layout.symbols := by
  have hnew : (Generation.new p).Reads p.layout.symbols := ⟨rfl, fun _ => rfl⟩
  exact hnew.adds (Generation.run_spec (Generation.new p) h).2

/-- **Every record of a program is ready for the generation.** -/
theorem settled_ofStatements (options : Options) (statements : List Statement) :
    ∀ r ∈ (ofStatements options statements).records,
      r.Settled (ofStatements options statements).layout.symbols
        (ofStatements options statements).layout.literals := by
  obtain ⟨hwf, hplaced⟩ := unplaced_spec options statements
  exact settled_records hwf hplaced

end Program

end System370
