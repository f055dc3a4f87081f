import System370.Proofs.ModuleReferences

/-!
# The deck of an assembly

A deck has three octets for an address and two for the number of a symbol; a
source can ask for more.  The deck of an assembly says what the module says
exactly if every number of the module fits its field and is not written as
blanks.  Names, types and modes always come back.

* `Deck.Text.join`: texts that follow one another without a gap, as one;
* `Assembly.Made.wellFormed`: the module of an assembly can be written on cards;
* `Assembly.decode_deck`: when its deck gives it back.
-/

namespace System370

/-! ### Names -/

/-- A label has an octet of the code page for each of its own. -/
theorem IsLabel.encode_eq {name : Bytes} (h : IsLabel name) :
    ∃ encoded, CodePage037.encode name = .ok encoded ∧
      encoded.length = name.length := by
  have hoctet : ∀ c : UInt8, isSymbolChar c = true →
      (CodePage037.ofCode? c.toNat).isSome = true := by
    apply forall_octet
    decide +kernel
  unfold CodePage037.encode
  rw [Utf8.decode_ascii fun c hc => lt_of_isSymbolChar (h.octets c hc).1]
  have hchars : ∀ c ∈ name, isSymbolChar c = true :=
    fun c hc => (h.octets c hc).1
  clear h
  induction name with
  | nil => exact ⟨[], rfl, rfl⟩
  | cons c rest ih =>
      obtain ⟨encoded, hencoded, hlength⟩ :=
        ih fun d hd => hchars d (List.mem_cons_of_mem _ hd)
      obtain ⟨b, hb⟩ :=
        Option.isSome_iff_exists.mp (hoctet c (hchars c List.mem_cons_self))
      have hfirst : CodePage037.encodeCharacter ⟨c.toNat, [c]⟩ = .ok b := by
        rw [CodePage037.encodeCharacter, hb]
      refine ⟨b :: encoded, ?_, by simp [hlength]⟩
      rw [List.map_cons, List.mapM_cons, hfirst, hencoded]
      rfl

/-- **A label fits the field of a name.** -/
theorem IsLabel.nameFits {name : Bytes} (h : IsLabel name) :
    CodePage037.NameFits 8 name := by
  obtain ⟨encoded, hencoded, hlength⟩ := h.encode_eq
  refine ⟨⟨encoded, hencoded, hlength ▸ h.length⟩, fun hlast => ?_⟩
  exact absurd (h.octets 0x20 (List.mem_of_getLast? hlast)).1 (by decide)

/-! ### Pieces of text -/

namespace Deck.Text

/-- Whether a text begins right behind another one of its section. -/
def Touches (t u : Text) : Prop :=
  t.sectionId = u.sectionId ∧ t.address + Int64.ofNat t.data.length = u.address

instance (t u : Text) : Decidable (t.Touches u) :=
  inferInstanceAs (Decidable (_ ∧ _))

/-- A text with what touches it joined to it. -/
def joinTo (t : Text) : List Text → List Text
  | [] => [t]
  | u :: rest => if t.Touches u then
    { t with data := t.data ++ u.data } :: rest else t :: u :: rest

/-- Texts that follow one another without a gap, as one. -/
def join : List Text → List Text
  | [] => []
  | t :: rest => t.joinTo (join rest)

/-- Octets from an address on, each with its section and its address. -/
def octetsFrom (sectionId : Int) : Int64 → Bytes → List (Int × Int64 × UInt8)
  | _, [] => []
  | address, b :: rest => (sectionId, address, b) ::
    octetsFrom sectionId (address + 1) rest

/-- The octets of a text, each with its section and its address. -/
def octets (t : Text) : List (Int × Int64 × UInt8) :=
  octetsFrom t.sectionId t.address t.data

/-- Addresses are counted on. -/
theorem address_add (address : Int64) (n k : Nat) :
    address + Int64.ofNat n + Int64.ofNat k =
      address + Int64.ofNat (n + k) := by
  rw [Int64.add_assoc, ← Int64.ofNat_add]

theorem length_octetsFrom (sectionId : Int) (address : Int64) (data : Bytes) :
    (octetsFrom sectionId address data).length = data.length := by
  induction data generalizing address with
  | nil => rfl
  | cons b rest ih => rw [octetsFrom, List.length_cons, ih, List.length_cons]

/-- Octets of two pieces, one behind the other. -/
theorem octetsFrom_append (sectionId : Int) (address : Int64)
    (data more : Bytes) :
    octetsFrom sectionId address (data ++ more) =
      octetsFrom sectionId address data ++
      octetsFrom sectionId (address + Int64.ofNat data.length) more := by
  induction data generalizing address with
  | nil =>
      rw [List.length_nil, show Int64.ofNat 0 = 0 from rfl, Int64.add_zero]
      rfl
  | cons b rest ih =>
      have hnext : address + Int64.ofNat (rest.length + 1) =
          address + 1 + Int64.ofNat rest.length := by
        rw [Nat.add_comm, ← address_add]
        rfl
      rw [List.cons_append, octetsFrom, ih, octetsFrom, List.length_cons, hnext]
      rfl

/-- Texts that join keep their octets. -/
theorem octets_joinTo (t : Text) (others : List Text) :
    (t.joinTo others).flatMap octets = t.octets ++ others.flatMap octets := by
  cases others with
  | nil => simp [joinTo]
  | cons u rest =>
      rw [joinTo]
      split
      · rename_i htouches
        rw [List.flatMap_cons, List.flatMap_cons, ← List.append_assoc]
        congr 1
        unfold octets
        rw [octetsFrom_append, htouches.1, htouches.2]
      · rfl

/-- **Joining texts keeps every octet at its address.** -/
theorem octets_join (texts : List Text) :
    (join texts).flatMap octets = texts.flatMap octets := by
  induction texts with
  | nil => rfl
  | cons t rest ih => rw [join, octets_joinTo, ih, List.flatMap_cons]

/-- Texts with the same octets at the same addresses are the same, if they are
cut in the same way. -/
theorem map_eq_of_octets {f : Text → Text} (hdata : ∀ t, (f t).data = t.data)
    {texts : List Text} (hne : ∀ t ∈ texts, t.data ≠ [])
    (h : (texts.map f).flatMap octets = texts.flatMap octets) :
    texts.map f = texts := by
  induction texts with
  | nil => rfl
  | cons t rest ih =>
      rw [List.map_cons, List.flatMap_cons, List.flatMap_cons] at h
      obtain ⟨hfirst, hrest⟩ := List.append_inj h (by
        rw [octets, octets, length_octetsFrom, length_octetsFrom, hdata])
      rw [List.map_cons,
        ih (fun u hu => hne u (List.mem_cons_of_mem _ hu)) hrest]
      congr 1
      obtain ⟨b, more, hcons⟩ :=
        List.exists_cons_of_ne_nil (hne t List.mem_cons_self)
      have hsame := hdata t
      rw [octets, octets, hsame, hcons, octetsFrom, octetsFrom, List.cons.injEq,
        Prod.mk.injEq, Prod.mk.injEq] at hfirst
      obtain ⟨⟨hsection, haddress, -⟩, -⟩ := hfirst
      cases hft : f t with
      | mk sectionId address data =>
          rw [hft] at hsection haddress hsame
          simp only at hsection haddress hsame
          rw [hsection, haddress, hsame]

/-- Consecutive pieces are joined to what follows them. -/
theorem join_piecesFrom {sectionId : Int} {address : Int64}
    {pieces : List Bytes} (hne : pieces ≠ [])
    {others rest : List Text} (hjoin : join others = rest)
    (hgap : ∀ u, rest.head? = some u →
      ¬ Touches ⟨sectionId, address, pieces.flatten⟩ u) :
    join (piecesFrom sectionId address pieces ++ others) =
      ⟨sectionId, address, pieces.flatten⟩ :: rest := by
  induction pieces generalizing address with
  | nil => exact absurd rfl hne
  | cons piece more ih =>
      rw [piecesFrom, List.cons_append, join]
      cases more with
      | nil =>
          rw [piecesFrom, List.nil_append, hjoin, List.flatten_cons,
            List.flatten_nil, List.append_nil]
          rw [List.flatten_cons, List.flatten_nil, List.append_nil] at hgap
          cases rest with
          | nil => rfl
          | cons u rest => rw [joinTo, if_neg (hgap u rfl)]
      | cons next more =>
          have hrest : ∀ u, rest.head? = some u →
              ¬ Touches ⟨sectionId, address + Int64.ofNat piece.length,
                (next :: more).flatten⟩ u := by
            intro u hu htouches
            refine hgap u hu ⟨htouches.1, ?_⟩
            rw [← htouches.2, address_add, List.flatten_cons,
              List.length_append]
          rw [ih (by simp) hrest, joinTo, if_pos ⟨rfl, rfl⟩,
            List.flatten_cons (l := piece)]

/-- **Texts with gaps between them are joined from their pieces.** -/
theorem join_pieces {texts : List Text} (hne : ∀ t ∈ texts, t.data ≠ [])
    (hgaps : texts.IsChain fun t u => ¬ t.Touches u) :
    join (texts.flatMap pieces) = texts := by
  induction texts with
  | nil => rfl
  | cons t rest ih =>
      have hflatten : (chunks textSize t.data).flatten = t.data := 
        flatten_chunksFrom (by decide) (Nat.le_refl _)
      have hchunks : chunks textSize t.data ≠ [] := by
        intro hnil
        rw [hnil] at hflatten
        exact hne t List.mem_cons_self hflatten.symm
      rw [List.flatMap_cons, pieces, join_piecesFrom hchunks
        (ih (fun u hu => hne u (List.mem_cons_of_mem _ hu)) hgaps.tail),
        hflatten]
      intro u hu
      rw [hflatten]
      cases rest with
      | nil => simp at hu
      | cons v rest =>
          obtain rfl := Option.some.inj hu
          exact hgaps.rel

/-- **The text of a deck, joined, is that of the module** exactly if the numbers
of all its pieces come back. -/
theorem join_readBack_iff {texts : List Text} (hne : ∀ t ∈ texts, t.data ≠ [])
    (hgaps : texts.IsChain fun t u => ¬ t.Touches u) :
    join ((texts.flatMap pieces).map readBack) = texts ↔
      ∀ t ∈ texts, ∀ piece ∈ t.pieces, piece.Legible := by
  rw [← map_readBack_pieces_iff]
  constructor
  · intro h
    apply map_eq_of_octets (f := readBack) fun _ => rfl
    · intro piece hpiece
      obtain ⟨t, -, hmem⟩ := List.mem_flatMap.mp hpiece
      exact List.ne_nil_of_length_pos (length_of_mem_pieces hmem).1
    · rw [← octets_join, h, ← octets_join (texts.flatMap pieces),
        join_pieces hne hgaps]
  · intro h
    rw [h, join_pieces hne hgaps]

end Deck.Text

/-! ### The gaps between texts -/

/-- Stretches that were joined do not touch the next one. -/
theorem Extent.isChain_mergeInto (last : Extent) (rest : List Extent) :
    (mergeInto last rest).IsChain fun e f =>
      ¬ (e.sectionId = f.sectionId ∧ f.start ≤ e.stop) := by
  induction rest generalizing last with
  | nil => exact .singleton _
  | cons e rest ih =>
      unfold mergeInto
      split
      · exact ih _
      · rename_i hgap
        have hrest := ih e
        obtain ⟨stop, tail, htail⟩ := mergeInto_eq_cons e rest
        rw [htail] at hrest ⊢
        exact hrest.cons_cons hgap

/-- Extents that follow each other leave a gap or are in different sections. -/
theorem Extent.isChain_ofRuns (runs : List Run) :
    (ofRuns runs).IsChain fun e f =>
      ¬ (e.sectionId = f.sectionId ∧ f.start ≤ e.stop) := by
  unfold ofRuns
  split
  · exact .nil
  · exact isChain_mergeInto _ _

/-- **No text of a module touches the next one.** -/
theorem Deck.Text.Collects.isChain {runs : List Run} {texts : List Deck.Text}
    (h : Collects runs texts) : texts.IsChain fun t u => ¬ t.Touches u := by
  have hextents := Extent.isChain_ofRuns runs
  rw [← h.extents, List.isChain_map] at hextents
  refine hextents.imp fun t u hgap htouches => hgap ⟨htouches.1, ?_⟩
  rw [show u.extent.start = t.extent.stop from htouches.2.symm]
  exact Int64.le_refl _

/-- **No text of a module is empty.** -/
theorem Deck.Text.Collects.data_ne_nil {g : Generation} {size : Int64}
    {texts : List Deck.Text} (h : Collects g.runs texts)
    (hcontained : g.Contained size) (hdata : ∀ r ∈ g.runs, r.data ≠ []) :
    ∀ t ∈ texts, t.data ≠ [] := by
  intro t ht hnil
  have hmem : t.extent ∈ Extent.ofRuns g.runs :=
    h.extents ▸ List.mem_map_of_mem ht
  have horder := (Workspace.extents_inside hcontained.inside hdata _ hmem).2.1
  rw [h.stops t ht, Deck.Text.stop, hnil] at horder
  have hstart : t.extent.start = t.address := rfl
  rw [hstart] at horder
  simp at horder

/-! ### The module of an assembly -/

/-- The names of a table stay as they are when its sections are placed. -/
theorem SymbolTable.WellFormed.spelled_normalize {t : SymbolTable}
    (h : t.WellFormed) :
    t.normalize.Spelled := by
  refine ⟨fun s hs => ?_, fun e he => ?_, ?_⟩
  · rw [h.numbered.sections_normalize] at hs
    obtain ⟨i, hi⟩ := List.getElem?_of_mem hs
    obtain ⟨s₀, hs₀, heq⟩ := getElem?_layOut hi
    rw [heq]
    exact h.spelled.sections s₀ (List.mem_of_getElem? hs₀)
  · obtain ⟨u, hexternals, -⟩ := h.externals_normalize
    have hname := List.mem_map_of_mem (f := ExternalName.name) he
    rw [hexternals, names_numberExternals] at hname
    obtain ⟨e₀, he₀, heq⟩ := List.mem_map.mp hname
    exact heq ▸ h.spelled.externals e₀ he₀
  · rw [h.numbered.normalize_eq]
    exact h.spelled.entries

/-- The modes of options that are acceptable. -/
theorem Options.modes_of_invalid? {options : Options}
    (h : options.invalid? = none) :
    validAddressingMode options.addressingMode = true ∧
      validResidenceMode options.residenceMode = true := by
  unfold invalid? at h
  rw [Option.map_eq_none_iff, List.find?_eq_none] at h
  have haddressing := h (⟨bytes "amode", options.addressingMode⟩,
    validAddressingMode options.addressingMode) (by simp [checks])
  have hresidence := h (⟨bytes "rmode", options.residenceMode⟩,
    validResidenceMode options.residenceMode) (by simp [checks])
  exact ⟨by simpa using haddressing, by simpa using hresidence⟩

namespace Deck

variable {options : Options} {modes : List (Bytes × Modes)}

/-- **The modes of a section** are those that there are. -/
theorem modesOf_mem (hoptions : options.invalid? = none)
    (hmodes : ∀ m ∈ modes, m.2.Valid) (label : Bytes) :
    (modesOf options modes label).addressing ∈
      [bytes "24", bytes "31", bytes "ANY"] ∧
      (modesOf options modes label).residence ∈ [bytes "24", bytes "ANY"] := by
  obtain ⟨haddressing, hresidence⟩ := Options.modes_of_invalid? hoptions
  have hasked :
      Modes.Valid (((modes.find? (·.1 = label)).map (·.2)).getD {}) := by
    cases hfound : modes.find? (·.1 = label) with
    | none => exact ⟨Or.inl rfl, Or.inl rfl⟩
    | some m => exact hmodes m (List.mem_of_find?_eq_some hfound)
  unfold modesOf
  generalize ((modes.find? (·.1 = label)).map (·.2)).getD {} = asked at hasked ⊢
  simp only
  constructor
  · split
    · exact List.contains_iff_mem.mp haddressing
    · rename_i hne
      exact List.contains_iff_mem.mp (hasked.addressing.resolve_left hne)
  · split
    · exact List.contains_iff_mem.mp hresidence
    · rename_i hne
      exact List.contains_iff_mem.mp (hasked.residence.resolve_left hne)

theorem isExternal_of_isSection {type : SymbolType}
    (h : type.isSection = true) :
    type.isExternal = false := by
  rcases Bool.or_eq_true_iff.mp h with h | h
  · rw [of_decide_eq_true h]
    decide
  · rw [of_decide_eq_true h]
    decide

/-- **Every symbol of a module can be written on a card.** -/
theorem wellFormed_symbolsOf {t : SymbolTable} (ht : t.Spelled)
    (hoptions : options.invalid? = none) (hmodes : ∀ m ∈ modes, m.2.Valid) :
    ∀ s ∈ symbolsOf options modes t, s.WellFormed := by
  intro s hs
  rw [symbolsOf, List.append_assoc] at hs
  rcases List.mem_append.mp hs with hs | hs
  · obtain ⟨section', hsection, rfl⟩ := List.mem_map.mp hs
    have hlabel := ht.sections section' hsection
    refine ⟨hlabel.nameFits, hlabel.toUpper_eq, fun htype => ?_,
      fun htype => ?_, fun _ _ => ?_⟩
    · exact absurd htype (type_sectionSymbol _)
    · rw [isExternal_of_isSection (isSection_sectionSymbol _)] at htype
      exact absurd htype (by decide)
    · exact ⟨rfl, modesOf_mem hoptions hmodes section'.label⟩
  rcases List.mem_append.mp hs with hs | hs
  · obtain ⟨e, he, hsymbol⟩ := List.mem_filterMap.mp hs
    have hlabel := ht.externals e he
    have htype := type_externalSymbol? hsymbol
    unfold externalSymbol? at hsymbol
    split at hsymbol
    · simp at hsymbol
    · obtain rfl := Option.some.inj hsymbol
      refine ⟨hlabel.nameFits, hlabel.toUpper_eq, fun hentry => ?_,
        fun _ => ⟨rfl, rfl, rfl, rfl⟩, fun _ hnot => ?_⟩
      · rw [hentry] at htype
        exact absurd htype (by decide)
      · rw [htype] at hnot
        exact absurd hnot (by decide)
  · obtain ⟨e, he, hsymbol⟩ := List.mem_filterMap.mp hs
    have hlabel := ht.entries e he
    have htype := type_entrySymbol? hsymbol
    unfold entrySymbol? at hsymbol
    split at hsymbol
    · simp at hsymbol
    · split at hsymbol
      · simp at hsymbol
      · obtain rfl := Option.some.inj hsymbol
        refine ⟨hlabel.nameFits, hlabel.toUpper_eq,
          fun _ => ⟨rfl, rfl, rfl, rfl⟩,
          fun hexternal => ?_, fun hnot => absurd htype hnot⟩
        rw [htype] at hexternal
        exact absurd hexternal (by decide)

/-- The end item of a module can be written on a card. -/
theorem End.Given.wellFormed {t : SymbolTable} (ht : t.WellFormed) {e : End}
    (h : Given t.normalize t.Holds e) (identifications : List Identification) :
    ({ e with identifications } : End).WellFormed := by
  have hnone := isLabel_nil.nameFits
  rcases h.cases ht with rfl | ⟨s, -, -, he⟩ | ⟨name, hknown, rfl⟩
  · exact ⟨hnone, rfl, fun _ => ⟨rfl, rfl, rfl, rfl⟩, fun h => absurd rfl h⟩
  · rw [he]
    exact ⟨hnone, rfl, fun h => absurd h (by simp), fun h => absurd rfl h⟩
  · have hname := (SymbolTable.external?_isSome_iff t name).mp hknown.2.1
    obtain ⟨e, he, rfl⟩ := List.mem_map.mp hname
    have hlabel := ht.spelled.externals e he
    exact ⟨hlabel.nameFits, hlabel.toUpper_eq, fun h => absurd h (by simp),
      fun _ => ⟨rfl, rfl⟩⟩

end Deck

/-- Whether what is read from the cards of a deck is the module: its symbols,
its text once the pieces are joined, its relocations and its entry point. -/
structure Deck.Module.ReadFrom (m : Module) (ds : List Decoded) : Prop where
  symbols : ds.flatMap (·.content.symbolItems) = m.symbols
  text : Text.join (ds.flatMap (·.content.textItems)) = m.text
  relocations : ds.flatMap (·.content.relocationItems) = m.relocations
  ending : ∃ e,
    ds.flatMap (·.content.endItems) = [e] ∧ e.address = m.ending.address ∧
    e.sectionId = m.ending.sectionId ∧ e.name = m.ending.name ∧
      e.length = m.ending.length

namespace Assembly

variable {options : Options} {source today : Bytes} {a : Assembly}
  {m : Deck.Module} {statements : List Statement}

/-- **The module of an assembly can be written on cards.** -/
theorem Made.wellFormed
    (h : a.Made options (Program.ofStatements options statements))
    (hcontained : (Program.ofStatements options statements).Contained)
    (hm : a.module? = some m) (hoptions : options.invalid? = none) :
    m.WellFormed := by
  obtain ⟨hwf, -⟩ := Program.unplaced_spec options statements
  refine ⟨?_, ?_, ?_⟩
  · rw [h.symbols_eq hm]
    exact Deck.wellFormed_symbolsOf hwf.symbols.spelled_normalize
      hoptions hwf.modes
  · obtain ⟨coded, -, hrelocations, hcoded⟩ := h.coded hcontained hm
    intro r hr
    rw [hrelocations] at hr
    obtain ⟨p, hp, hr⟩ := List.mem_flatMap.mp hr
    obtain ⟨c, hc, hp⟩ := List.mem_flatMap.mp hp
    obtain ⟨hmade, hrecord, hshaped, -⟩ := hcoded c (List.mem_filter.mp hc).1
    have hlength := (hrecord.of_mem hshaped.sound hp).2
    rw [((hmade p hp).field r hr).2]
    omega
  · obtain ⟨e, identifications, hending, hgiven⟩ := h.given hm
    rw [hending]
    exact hgiven.wellFormed hwf.symbols identifications

/-- The symbols of the module of an assembly are numbered in order. -/
theorem Made.numberedFrom
    (h : a.Made options (Program.ofStatements options statements))
    (hm : a.module? = some m) : Deck.NumberedFrom 1 m.symbols := by
  obtain ⟨hwf, -⟩ := Program.unplaced_spec options statements
  obtain ⟨-, hids⟩ := Deck.symbolsOf_parts options
    (Program.ofStatements options statements).layout.modes hwf.symbols
  refine ⟨_, _, h.symbols_eq hm, fun s hs => ?_, fun s hs => ?_, hids⟩
  · rcases List.mem_append.mp hs with hs | hs
    · obtain ⟨s, -, rfl⟩ := List.mem_map.mp hs
      exact Deck.type_sectionSymbol s
    · obtain ⟨e, -, he⟩ := List.mem_filterMap.mp hs
      intro htype
      have hexternal := Deck.type_externalSymbol? he
      rw [htype] at hexternal
      exact absurd hexternal (by decide)
  · obtain ⟨e, -, he⟩ := List.mem_filterMap.mp hs
    exact Deck.type_entrySymbol? he

/-- **The deck of an assembly gives its module back exactly if the module is
legible.** Every card can be read, and symbols, text, relocations and entry
point are those of the module if every address, length and number of the module
fits its field and is not written as blanks; otherwise some of them are not. -/
theorem decode_deck {deck : List Bytes} (hoptions : options.invalid? = none)
    (hrun : assemble options source today = .ok a)
    (hdeck : a.deck? = some deck) :
    ∃ m ds, a.module? = some m ∧ Deck.decodeFrom 0 deck = .ok ds ∧
      (m.ReadFrom ds ↔ m.Legible) := by
  obtain ⟨statements, -, hcontained, hmade⟩ :=
    Workspace.run_eq_ok (Workspace.sound_new options) hrun
  rw [hmade.deck] at hdeck
  obtain ⟨m, hm, rfl⟩ := Option.map_eq_some_iff.mp hdeck
  have hwell := hmade.wellFormed hcontained hm hoptions
  obtain ⟨ds, groups, hds, hfilled, hgroups, hsymbols, htext,
      hrelocations, hending⟩ :=
    m.decoded_emit hwell
  have hready : ∀ r ∈ (Program.ofStatements options statements).records,
      Generation.Ready r :=
    fun r hr => (Program.settled_ofStatements options statements r hr).ready
  have hdata := (hmade.text m hm).data_ne_nil hcontained fun run hr =>
    (Workspace.runs_generated hready run hr).1
  have hcounted :=
    Deck.countedFrom_groups_eq_iff hfilled (hgroups ▸ hmade.numberedFrom hm)
      (hgroups ▸ hwell.symbols)
  rw [← hsymbols, hgroups] at hcounted
  have hjoined := Deck.Text.join_readBack_iff hdata (hmade.text m hm).isChain
  rw [← htext] at hjoined
  have hfields : ds.flatMap (·.content.relocationItems) = m.relocations ↔
      ∀ r ∈ m.relocations, r.InFields := by
    rw [hrelocations, Deck.map_eq_self_iff]
    simp only [Deck.Relocation.readBack_eq_iff]
  refine ⟨m, ds, hm, hds, ?_, ?_⟩
  · rintro ⟨hback, hpieces, hitems, e, he, haddress, hsection, -, hlength⟩
    obtain ⟨hids, hlegible⟩ := hcounted.mp hback
    rw [hending] at he
    obtain rfl := List.singleton_inj.mp he
    exact ⟨hids, hlegible, hjoined.mp hpieces, hfields.mp hitems,
      m.ending.readBack_eq_iff.mp ⟨haddress, hsection, hlength⟩⟩
  · intro hlegible
    obtain ⟨haddress, hsection, hlength⟩ :=
      m.ending.readBack_eq_iff.mpr hlegible.ending
    exact ⟨hcounted.mpr ⟨hlegible.ids, hlegible.symbols⟩,
      hjoined.mpr hlegible.text, hfields.mpr hlegible.relocations, _, hending,
      haddress, hsection, rfl, hlength⟩

/-- An entry point beyond what three octets hold: its card says address zero. -/
theorem decode_deck_farEntry :
    ({} : Options).invalid? = none ∧ ∃ source a deck m ds,
      assemble {} source = .ok a ∧
      a.deck? = some deck ∧ a.module? = some m ∧
      Deck.decodeFrom 0 deck = .ok ds ∧
      (m.symbols.map fun s => (s.name, s.address)) =
        [(bytes "A", 0), (bytes "X", 0x1000000)] ∧
      ((ds.flatMap (·.content.symbolItems)).map fun s => (s.name, s.address)) =
        [(bytes "A", 0), (bytes "X", 0)] ∧
      ¬ m.ReadFrom ds := by
  have hoptions : ({} : Options).invalid? = none := by decide +kernel
  have hassembled := exists_assemble_of_any {} (bytes
    "A CSECT\n LR 1,2\n ENTRY X\nX EQU A+16777216\n END\n")
    (fun _ a => a.deck?.any fun deck => a.module?.any fun m =>
      (Deck.decodeFrom 0 deck).toOption.any fun ds =>
        decide ((m.symbols.map fun s => (s.name, s.address)) =
          [(bytes "A", 0), (bytes "X", 0x1000000)] ∧
        ((ds.flatMap (·.content.symbolItems)).map fun s =>
          (s.name, s.address)) =
          [(bytes "A", 0), (bytes "X", 0)])) (by decide +kernel)
  obtain ⟨_, a, -, hrun, hcheck⟩ := hassembled
  obtain ⟨deck, hdeck, hcheck⟩ := (Option.any_eq_true _ _).mp hcheck
  obtain ⟨m, hm, hcheck⟩ := (Option.any_eq_true _ _).mp hcheck
  obtain ⟨ds, hds, hcheck⟩ := exists_ok_of_any hcheck
  obtain ⟨hsymbols, hback⟩ := of_decide_eq_true hcheck
  obtain ⟨m', ds', hm', hds', hiff⟩ := decode_deck hoptions hrun hdeck
  obtain rfl := Option.some.inj (hm.symm.trans hm')
  obtain rfl := Except.ok.inj (hds.symm.trans hds')
  refine ⟨hoptions, _, a, deck, m, ds, hrun, hdeck, hm, hds, hsymbols, hback,
    fun hread => ?_⟩
  have hfar : (bytes "X", (0x1000000 : Int64)) ∈
      m.symbols.map fun s => (s.name, s.address) := by
    rw [hsymbols]
    exact List.mem_cons_of_mem _ List.mem_cons_self
  obtain ⟨s, hs, heq⟩ := List.mem_map.mp hfar
  have hlegible := ((hiff.mp hread).symbols s hs).address
  rw [(Prod.mk.inj heq).2] at hlegible
  exact absurd hlegible (by decide)

end Assembly

end System370
