import System370.Deck.Emitter
import System370.Proofs.CardFields

/-!
# The contents of a card

Every card of a deck is read back by itself.  What fits its fields comes back,
up to numbers whose octets are all blanks (`Deck.readBack`).

* `Deck.reads_symbolCard`: external symbols, which take their numbers from the
  first one;
* `Deck.reads_textCard`: a piece of text;
* `Deck.reads_relocationCard`: relocations in full and in short form;
* `Deck.reads_endCard`: the end item.
-/

namespace System370

namespace Deck

open CodePage037

/-- A card with some content, wherever it stands in a deck. -/
def Card.Reads (c : Card) (content : Content) : Prop :=
  ∀ index sequence, ∃ d, decode index (c.octets sequence) = .ok d ∧
    d.content = content

/-! ### The columns of a card -/

namespace Card

variable (c : Card) (sequence : Bytes)

/-- The kind of a card is in columns 2 to 4. -/
theorem columns_kind :
    columns 1 4 (c.octets sequence) = nameField 3 c.kind := by
  unfold octets
  simp only [List.append_assoc]
  exact columns_eq rfl (by simp)

/-- Its address is in columns 6 to 8. -/
theorem columns_address :
    columns 5 8 (c.octets sequence) = numberField 3 c.address := by
  unfold octets
  simp only [List.append_assoc]
  rw [← List.append_assoc [marker], ← List.append_assoc]
  exact columns_eq (by simp [blanks]) (by simp)

/-- Its count is in columns 11 and 12. -/
theorem columns_count :
    columns 10 12 (c.octets sequence) = numberField 2 c.count := by
  unfold octets
  simp only [List.append_assoc]
  rw [← List.append_assoc [marker], ← List.append_assoc, ← List.append_assoc,
    ← List.append_assoc]
  exact columns_eq (by simp [blanks]) (by simp)

/-- Its number is in columns 15 and 16. -/
theorem columns_id :
    columns 14 16 (c.octets sequence) = numberField 2 c.id := by
  unfold octets
  simp only [List.append_assoc]
  rw [← List.append_assoc [marker], ← List.append_assoc, ← List.append_assoc,
    ← List.append_assoc, ← List.append_assoc, ← List.append_assoc]
  exact columns_eq (by simp [blanks]) (by simp)

/-- The columns of the data. -/
theorem columns_data (start : Nat) {stop : Nat} (h : stop ≤ textSize) :
    columns (16 + start) (16 + stop) (c.octets sequence) =
      columns start stop (Bytes.fit textSize CodePage037.blank c.data) := by
  unfold octets
  rw [List.append_assoc, columns_append (by simp [blanks]),
    columns_left (by simpa using h)]

/-- Data that is not too long stands at the front of its columns. -/
theorem columns_data_all (h : c.data.length ≤ textSize) :
    columns 16 (16 + c.data.length) (c.octets sequence) = c.data := by
  have hcolumns := c.columns_data sequence 0 h
  rw [Nat.add_zero] at hcolumns
  rw [hcolumns, Bytes.fit_eq_append h]
  exact columns_front rfl

/-- The number of octets on a card comes back. -/
theorem readNumber_count {n : Nat} (hcount : c.count = some (n : Int))
    (h : n ≤ textSize) :
    readNumber (columns 10 12 (c.octets sequence)) = n := by
  have hblank : (blankNumber 2 : Int) = 0x4040 := rfl
  have hlegible : Legible 2 n := by
    unfold textSize at h
    unfold Legible
    omega
  rw [columns_count, hcount, numberField, readNumber_put, ← Int.natCast_inj]
  exact (readBack_eq_iff (by decide)).mpr hlegible

/-- A card is read by its kind. -/
theorem reads_of {c : Card} {content : Content} (kind : Bytes)
    (hkind : c.kind = kind) (hname : readName (nameField 3 kind) = kind)
    (h : ∀ sequence, readContent kind (c.octets sequence) = .ok content) :
    c.Reads content := by
  intro index sequence
  have hmarker : (c.octets sequence).head? = some marker := by simp [octets]
  refine ⟨⟨kind, readName (columns 72 80 (c.octets sequence)), content⟩, ?_,
    rfl⟩
  unfold decode
  rw [if_neg (by simp [hmarker])]
  simp only
  rw [columns_kind, hkind, hname, h]

end Card

/-- What a 64-bit number reads as that was written into a field. -/
def wordBack (width : Nat) (n : Int64) : Int64 :=
  Int64.ofNat (readBack width n.toInt)

@[simp] theorem wordBack_zero (width : Nat) : wordBack width 0 = 0 := by
  simp [wordBack]

/-- The addresses and lengths that come back. -/
theorem wordBack_eq_iff {width : Nat} (hpos : 0 < width) (hsmall : width ≤ 7)
    {n : Int64} :
    wordBack width n = n ↔ Legible width n.toInt := by
  have hlt := readBack_lt width n.toInt
  have hpow : (256 : Int) ^ width ≤ 256 ^ 7 :=
    pow_le_pow_right₀ (by decide) hsmall
  have hword : (wordBack width n).toInt = readBack width n.toInt := by
    rw [wordBack, Int64.toInt_ofNat_of_lt]
    omega
  rw [← readBack_eq_iff hpos, ← hword, Int64.toInt_inj]

/-! ### External symbols -/

namespace Symbol

/-- What an external symbol reads as, apart from its number. -/
def readBack (s : Symbol) : Symbol :=
  { s with
    address := wordBack 3 s.address
    length := wordBack 3 s.length
    owner := Deck.readBack 2 s.owner }

/-- An external symbol with a name that fits, which has only what its type
carries: an entry point its address and its section, an external name its
address, and a section its address, its length and its modes. -/
structure WellFormed (s : Symbol) : Prop where
  name : NameFits 8 s.name
  capitals : toUpper s.name = s.name
  entry : s.type = .entry →
    s.id = 0 ∧ s.length = 0 ∧ s.addressingMode = [] ∧ s.residenceMode = []
  external : s.type.isExternal → s.length = 0 ∧ s.owner = 0 ∧
    s.addressingMode = [] ∧ s.residenceMode = []
  control : s.type ≠ .entry → s.type.isExternal = false → s.owner = 0 ∧
    s.addressingMode ∈ [bytes "24", bytes "31", bytes "ANY"] ∧
    s.residenceMode ∈ [bytes "24", bytes "ANY"]

theorem length_octets (s : Symbol) : s.octets.length = symbolSize := by
  unfold octets symbolSize
  split <;> split <;> (try split) <;> simp [blanks]

/-- The modes of a section come back. -/
theorem readModes_modeFlags {addressing residence : Bytes}
    (haddressing : addressing ∈ [bytes "24", bytes "31", bytes "ANY"])
    (hresidence : residence ∈ [bytes "24", bytes "ANY"]) :
    readModes (modeFlags addressing residence) = (addressing, residence) := by
  have hall : ∀ a ∈ [bytes "24", bytes "31", bytes "ANY"],
      ∀ r ∈ [bytes "24", bytes "ANY"],
      readModes (modeFlags a r) = (a, r) := by
    decide +kernel
  exact hall addressing haddressing residence hresidence

/-- An address reads as it was written, also where zero is left blank. -/
theorem readNumber_address (s : Symbol) :
    readNumber (if s.type.isExternal ∧ s.address = 0 then blanks 3 else
      Field.put 3 s.address.toInt) = Deck.readBack 3 s.address.toInt := by
  split
  · rename_i hzero
    rw [hzero.2, readNumber_blanks]
    simp
  · exact readNumber_put 3 _

/-- The columns of an external symbol: its name, its type, its address and what
depends on the type. -/
theorem columns_parts {name address tail octets : Bytes} {code : UInt8}
    (hname : name.length = 8) (haddress : address.length = 3)
    (h : octets = name ++ [code] ++ address ++ tail) :
    columns 0 8 octets = name ∧ octets.getD 8 0 = code ∧
      columns 9 12 octets = address ∧
      octets.getD 12 0 = tail.getD 0 0 ∧
      ∀ start stop,
      columns (12 + start) (12 + stop) octets = columns start stop tail := by
  subst h
  refine ⟨?_, by simp [List.getD_eq_getElem?_getD, hname], ?_, ?_,
    fun start stop => ?_⟩
  · rw [List.append_assoc, List.append_assoc]
    exact columns_front hname
  · rw [List.append_assoc]
    exact columns_eq (by simp [hname]) (by omega)
  · rw [List.getD_eq_getElem?_getD, List.getD_eq_getElem?_getD,
      List.getElem?_append_right (by simp [hname, haddress])]
    simp [hname, haddress]
  · exact columns_append (by simp [hname, haddress]) start stop

/-- **An external symbol is read back from its columns**, with the number that
the reader gives to it. -/
theorem readSymbol_octets {s : Symbol} (h : s.WellFormed) (id : Nat) :
    readSymbol id s.octets =
      { s.readBack with id := if s.type = .entry then 0 else (id : Int) } := by
  obtain ⟨address, haddress⟩ : ∃ address : Bytes, address =
    (if s.type.isExternal ∧ s.address = 0 then blanks 3 else
      Field.put 3 s.address.toInt) := ⟨_, rfl⟩
  obtain ⟨tail, htail⟩ : ∃ tail : Bytes, tail =
    (if s.type = .entry then blanks 2 ++ Field.put 2 s.owner
      else if s.type.isExternal then blanks 4
      else [modeFlags s.addressingMode s.residenceMode] ++
        Field.put 3 s.length.toInt) := ⟨_, rfl⟩
  have hlength : address.length = 3 := by
    rw [haddress]
    split <;> simp [blanks]
  have hoctets : s.octets = nameField 8 s.name ++ [s.type.code] ++
      address ++ tail := by
    rw [haddress, htail, octets, h.capitals]
  obtain ⟨hname, htype, haddressColumns, hmode, hrest⟩ :=
    columns_parts (by simp) hlength hoctets
  have hnumber : Int64.ofNat (readNumber (columns 9 12 s.octets)) =
      wordBack 3 s.address := by
    rw [haddressColumns, haddress, readNumber_address]
    rfl
  unfold readSymbol
  simp only [hname, htype, readName_nameField h.name, hnumber]
  by_cases hentry : s.type = .entry
  · obtain ⟨-, hlen, haddressing, hresidence⟩ := h.entry hentry
    rw [if_pos hentry, if_pos hentry]
    have howner : columns 14 16 s.octets = Field.put 2 s.owner := by
      rw [hrest 2 4, htail, if_pos hentry]
      exact columns_back (by simp [blanks]) (by simp)
    rw [howner, readNumber_put]
    simp [readBack, hlen, haddressing, hresidence]
  · rw [if_neg hentry, if_neg hentry]
    by_cases hexternal : s.type.isExternal = true
    · obtain ⟨hlen, howner, haddressing, hresidence⟩ := h.external hexternal
      rw [if_pos hexternal]
      simp [readBack, hlen, howner, haddressing, hresidence]
    · obtain ⟨howner, haddressing, hresidence⟩ :=
        h.control hentry (by simpa using hexternal)
      rw [if_neg hentry, if_neg hexternal] at htail
      rw [if_neg hexternal]
      have hlen : columns 13 16 s.octets = Field.put 3 s.length.toInt := by
        rw [hrest 1 4, htail]
        exact columns_back (by simp) (by simp)
      have hflags : s.octets.getD 12 0 =
          modeFlags s.addressingMode s.residenceMode := by
        rw [hmode, htail]
        rfl
      rw [hlen, hflags, readModes_modeFlags haddressing hresidence,
        readNumber_put]
      simp [readBack, howner, wordBack]

end Symbol

/-- What external symbols read as whose numbers run from `id` on. -/
def countedFrom (id : Nat) : List Symbol → List Symbol
  | [] => []
  | s :: rest =>
    { s.readBack with id := if s.type = .entry then 0 else (id : Int) } ::
      countedFrom (if s.type = .entry then id else id + 1) rest

/-- The number that the symbols of a card are counted from. -/
def cardNumber (symbols : List Symbol) : Nat :=
  ((symbols.head?.filter (·.type ≠ .entry)).map fun s => readBack 2 s.id).getD 0

/-- The symbols of a card are read back and counted from its number. -/
theorem readSymbols_octets {symbols : List Symbol}
    (h : ∀ s ∈ symbols, s.WellFormed) (id : Nat) :
    readSymbols id (symbols.map Symbol.octets) = countedFrom id symbols := by
  induction symbols generalizing id with
  | nil => rfl
  | cons s rest ih =>
      have hs := Symbol.readSymbol_octets (h s List.mem_cons_self) id
      have hrest := ih fun t ht => h t (List.mem_cons_of_mem _ ht)
      rw [List.map_cons, readSymbols]
      simp only [hs, hrest]
      rfl

/-- **A card of external symbols is read back.** -/
theorem reads_symbolCard {symbols : List Symbol}
    (h : ∀ s ∈ symbols, s.WellFormed)
    (hlength : symbols.length ≤ symbolsPerCard) :
    (symbolCard symbols).Reads
      (.symbols (countedFrom (cardNumber symbols) symbols)) := by
  unfold symbolsPerCard at hlength
  have hdata : (symbolCard symbols).data =
      (symbols.map Symbol.octets).flatten :=
    List.flatMap_def
  have hsize : (symbolCard symbols).data.length =
      symbols.length * symbolSize := by
    have hsizes : symbols.map (List.length ∘ Symbol.octets) =
        symbols.map fun _ => symbolSize :=
      List.map_congr_left fun s _ => s.length_octets
    rw [hdata, List.length_flatten, List.map_map, hsizes, List.map_const',
      List.sum_replicate_nat]
  have hfits : symbols.length * symbolSize ≤ textSize := by
    unfold symbolSize textSize
    omega
  apply Card.reads_of (bytes "ESD") rfl (by decide +kernel)
  intro sequence
  have hcount := Card.readNumber_count (symbolCard symbols) sequence rfl hfits
  have hcolumns :=
    Card.columns_data_all (symbolCard symbols) sequence (hsize ▸ hfits)
  have hid : readNumber (columns 14 16 ((symbolCard symbols).octets sequence)) =
      cardNumber symbols := by
    rw [Card.columns_id]
    unfold cardNumber symbolCard
    cases symbols.head?.filter (·.type ≠ .entry) with
    | none => exact readNumber_blanks 2
    | some s => exact readNumber_put 2 _
  rw [hsize, hdata] at hcolumns
  unfold readContent
  simp only [hcount, hcolumns, hid]
  rw [if_pos trivial, if_neg, chunks_flatten (by decide), readSymbols_octets h]
  · intro piece hpiece
    obtain ⟨s, -, rfl⟩ := List.mem_map.mp hpiece
    exact s.length_octets
  · unfold symbolSize symbolsPerCard
    omega

/-! ### Text -/

/-- What a text reads as. -/
def Text.readBack (t : Text) : Text :=
  { t with
    sectionId := Deck.readBack 2 t.sectionId
    address := wordBack 3 t.address }

/-- The card of a text that is not too long. -/
def Text.card (t : Text) : Card where
  kind := bytes "TXT"
  address := some t.address.toInt
  count := some (t.data.length : Nat)
  id := some t.sectionId
  data := t.data

/-- **A card of text is read back.** -/
theorem reads_textCard {t : Text} (h : t.data.length ≤ textSize) :
    t.card.Reads (.text t.readBack) := by
  apply Card.reads_of (bytes "TXT") rfl (by decide +kernel)
  intro sequence
  have hcount := Card.readNumber_count t.card sequence rfl h
  have hcolumns : columns 16 (16 + t.data.length) (t.card.octets sequence) =
      t.data :=
    Card.columns_data_all t.card sequence h
  have hid : readNumber (columns 14 16 (t.card.octets sequence)) =
      readBack 2 t.sectionId := by
    rw [Card.columns_id]
    exact readNumber_put 2 _
  have haddress : readNumber (columns 5 8 (t.card.octets sequence)) =
      readBack 3 t.address.toInt := by
    rw [Card.columns_address]
    exact readNumber_put 3 _
  unfold readContent
  simp only [hcount, hcolumns, hid, haddress]
  rw [if_neg (by decide +kernel), if_pos trivial, if_neg (by omega)]
  rfl

/-! ### Relocations -/

/-- What a relocation reads as. -/
def Relocation.readBack (r : Relocation) : Relocation :=
  { r with
    position := r.position % 256 ^ 2
    target := r.target % 256 ^ 2
    address := Int64.ofNat (Field.get (Field.put 3 r.address.toInt)) }

/-- A flag octet tells length and direction of a relocation, and whether a short
form follows. -/
theorem flags_spec {length : Int} (hlow : 1 ≤ length) (hhigh : length ≤ 4)
    (r : Relocation) (hlength : r.length = length) (follows : Bool) :
    let flags := if follows then r.flags ||| continuation else r.flags
    ((flags.toNat / 4 % 4 + 1 : Nat) : Int) = length ∧
    (if flags &&& 0xF0 = 0x10 then Action.store else if flags &&& 0x02 = 0 then
      .add else .subtract) =
      r.action ∧
    (flags &&& 1 = 0 ↔ follows = false) := by
  have hlengths : length = 1 ∨ length = 2 ∨ length = 3 ∨ length = 4 := by omega
  unfold Relocation.flags
  rw [hlength]
  rcases hlengths with rfl | rfl | rfl | rfl <;> cases r.action <;>
    cases follows <;> decide +kernel

/-- A relocation has at least four octets. -/
theorem length_relocationOctets_pos (previous : Option Relocation)
    (r : Relocation) (rest : List Relocation) :
    4 ≤ (relocationOctets previous (r :: rest)).length := by
  unfold relocationOctets
  simp only [List.length_append, List.length_singleton, Field.length_put]
  omega

/-- What a reader remembers of the relocation before a short form. -/
def pointersOf (r : Relocation) : Nat × Nat :=
  (Field.get (Field.put 2 r.target), Field.get (Field.put 2 r.position))

/-- A relocation in either form is read, and whether a short form follows. -/
theorem readRelocations_step {pointers : Option (Nat × Nat)} {r : Relocation}
    {lead : Bytes}
    (hlead : (lead = [] ∧ pointers = some (pointersOf r)) ∨
      (lead = Field.put 2 r.target ++ Field.put 2 r.position ∧ pointers = none))
    (flags : UInt8) (fuel : Nat) (rest : Bytes) :
    readRelocations pointers (fuel + 1)
        (lead ++ [flags] ++ Field.put 3 r.address.toInt ++ rest) =
      (readRelocations (if flags &&& 1 = 0 then none else
        some (pointersOf r)) fuel rest).map
        (readRelocation (pointersOf r).1 (pointersOf r).2 flags
          (Field.put 3 r.address.toInt) :: ·) := by
  obtain ⟨a, b, c, haddress⟩ :=
    List.length_eq_three.mp (Field.length_put 3 r.address.toInt)
  rw [haddress]
  rcases hlead with ⟨rfl, rfl⟩ | ⟨rfl, rfl⟩
  · rfl
  · obtain ⟨t, t', htarget⟩ :=
      List.length_eq_two.mp (Field.length_put 2 r.target)
    obtain ⟨p, p', hposition⟩ :=
      List.length_eq_two.mp (Field.length_put 2 r.position)
    unfold pointersOf
    rw [htarget, hposition]
    rfl

/-- **Relocations are read back.**  A reader behind some relocation remembers
its numbers exactly if the next one has the short form. -/
theorem readRelocations_octets {relocations : List Relocation}
    (h : ∀ r ∈ relocations, 1 ≤ r.length ∧ r.length ≤ 4)
    (previous : Option Relocation) {fuel : Nat}
    (hfuel : (relocationOctets previous relocations).length ≤ fuel) :
    readRelocations
        (previous.bind fun p =>
          if relocations.head?.any p.sharesPointers then
            some (pointersOf p) else none)
        fuel (relocationOctets previous relocations) =
      some (relocations.map Relocation.readBack) := by
  induction relocations generalizing previous fuel with
  | nil => cases fuel <;> rfl
  | cons r rest ih =>
      obtain ⟨hlow, hhigh⟩ := h r List.mem_cons_self
      obtain ⟨hlength, haction, hfollows⟩ :=
        flags_spec hlow hhigh r rfl (rest.head?.any r.sharesPointers)
      have hpos := length_relocationOctets_pos previous r rest
      obtain ⟨fuel, rfl⟩ : ∃ more, fuel = more + 1 := ⟨fuel - 1, by omega⟩
      have htail : (relocationOctets (some r) rest).length ≤ fuel := by
        unfold relocationOctets at hfuel
        simp only [List.length_append, List.length_singleton,
          Field.length_put] at hfuel
        omega
      have hread :=
        ih (fun s hs => h s (List.mem_cons_of_mem _ hs)) (some r) htail
      -- the flag octet says whether the reader keeps the numbers for the next
      -- relocation
      have hnext :
          (if (if rest.head?.any r.sharesPointers then r.flags ||| continuation
            else r.flags) &&& 1 = 0 then none else some (pointersOf r)) =
          ((some r).bind fun p =>
            if rest.head?.any p.sharesPointers then
                some (pointersOf p) else none) := by
        simp only [hfollows, Option.bind_some]
        cases rest.head?.any r.sharesPointers <;> rfl
      rw [relocationOctets, readRelocations_step, hnext, hread]
      · unfold readRelocation
        rw [hlength, haction]
        simp only [Option.map_some, List.map_cons]
        congr 2
        unfold Relocation.readBack pointersOf
        simp only [Field.get_put]
      · cases previous with
        | none => exact .inr ⟨rfl, rfl⟩
        | some p =>
            cases hshares : p.sharesPointers r with
            | false => exact .inr ⟨by simp [hshares], by simp [hshares]⟩
            | true =>
                have hpointers : pointersOf p = pointersOf r := by
                  unfold Relocation.sharesPointers at hshares
                  simp only [Bool.and_eq_true, decide_eq_true_eq] at hshares
                  unfold pointersOf
                  rw [hshares.1, hshares.2]
                exact .inl ⟨by simp [hshares], by simp [hshares, hpointers]⟩

/-- **A card of relocations is read back.** -/
theorem reads_relocationCard {relocations : List Relocation}
    (h : ∀ r ∈ relocations, 1 ≤ r.length ∧ r.length ≤ 4)
    (hlength : (relocationOctets none relocations).length ≤ textSize) :
    (relocationCard relocations).Reads
      (.relocations (relocations.map Relocation.readBack)) := by
  apply Card.reads_of (bytes "RLD") rfl (by decide +kernel)
  intro sequence
  have hcount :=
    Card.readNumber_count (relocationCard relocations) sequence rfl hlength
  have hcolumns : columns 16 (16 + (relocationOctets none relocations).length)
      ((relocationCard relocations).octets sequence) =
        relocationOctets none relocations :=
    Card.columns_data_all (relocationCard relocations) sequence hlength
  have hread := readRelocations_octets h none (Nat.le_refl _)
  unfold readContent
  simp only [hcount, hcolumns]
  rw [if_neg (by decide +kernel), if_neg (by decide +kernel), if_pos trivial,
    if_neg (by omega)]
  rw [Option.bind_none] at hread
  rw [hread]

/-! ### The end item -/

namespace End

/-- What an end item reads as. -/
def readBack (e : End) : End :=
  { e with
    hasEntry := Deck.readBack 2 e.sectionId ≠ 0 ∨ e.name ≠ []
    address := wordBack 3 e.address
    sectionId := Deck.readBack 2 e.sectionId
    length := wordBack 4 e.length }

/-- An end item whose entry point, if there is one, is either a name that fits
or an address. -/
structure WellFormed (e : End) : Prop where
  name : NameFits 8 e.name
  capitals : toUpper e.name = e.name
  absent : e.hasEntry = false → e.address = 0 ∧ e.sectionId = 0 ∧ e.name = [] ∧
    e.length = 0
  named : e.name ≠ [] → e.address = 0 ∧ e.sectionId = 0

/-- The columns of the entry point behind its address. -/
def entryOctets (e : End) : Bytes :=
  if e.hasEntry then
    nameField 8 (toUpper e.name) ++ blanks 4 ++ Field.put 4 e.length.toInt
  else blanks 16

/-- The entry point has 16 columns of the `END` card. -/
theorem length_entryOctets (e : End) : e.entryOctets.length = 16 := by
  unfold entryOctets
  split <;> simp [blanks]

theorem data_card (e : End) :
    e.card.data = e.entryOctets ++ identificationOctets e.identifications :=
  rfl

/-- The name and the length of an entry point are read back. -/
theorem columns_entryOctets {e : End} (h : e.WellFormed) :
    readName (columns 0 8 e.entryOctets) = e.name ∧
      readNumber (columns 12 16 e.entryOctets) = Deck.readBack 4
        e.length.toInt := by
  unfold entryOctets
  cases hentry : e.hasEntry with
  | false =>
      obtain ⟨-, -, hname, hlength⟩ := h.absent hentry
      rw [hname, hlength]
      exact ⟨by decide +kernel, by decide +kernel⟩
  | true =>
      rw [if_pos rfl, h.capitals]
      constructor
      · rw [List.append_assoc, columns_front (by simp)]
        exact readName_nameField h.name
      · rw [columns_back (by simp [blanks]) (by simp)]
        exact readNumber_put 4 _

/-- The address and the section of an entry point are read back; where they are
left blank, they are zero. -/
theorem readNumber_entry {e : End} (h : e.WellFormed) :
    readNumber (numberField 3 e.card.address) = Deck.readBack 3
      e.address.toInt ∧
      readNumber (numberField 2 e.card.id) = Deck.readBack 2 e.sectionId := by
  unfold card
  simp only
  by_cases hentry : e.hasEntry = true ∧ e.name = []
  · rw [if_pos hentry, if_pos hentry]
    exact ⟨readNumber_put 3 _, readNumber_put 2 _⟩
  · have hzero : e.address = 0 ∧ e.sectionId = 0 := by
      by_cases hname : e.name = []
      · have habsent := h.absent (by simpa [hname] using hentry)
        exact ⟨habsent.1, habsent.2.1⟩
      · exact h.named hname
    rw [if_neg hentry, if_neg hentry, hzero.1, hzero.2]
    constructor <;> simp [numberField, readNumber_blanks]

end End

/-- Whether the texts of an identification fit their fields. -/
structure Identification.Fits (i : Identification) : Prop where
  translator : NameFits 10 i.translator
  version : NameFits 4 i.version
  date : NameFits 5 i.date

/-- A processor has 19 columns of the `END` card. -/
theorem Identification.length_octets (i : Identification) :
    i.octets.length = 19 := by
  simp [octets]

/-- An identification is read back from its columns. -/
theorem readIdentification_octets {i : Identification} (h : i.Fits) :
    readIdentification i.octets = i := by
  have htranslator : columns 0 10 i.octets = nameField 10 i.translator := by
    unfold Identification.octets
    rw [List.append_assoc]
    exact columns_front (by simp)
  have hversion : columns 10 14 i.octets = nameField 4 i.version := by
    unfold Identification.octets
    rw [List.append_assoc]
    exact columns_eq (by simp) (by simp)
  have hdate : columns 14 19 i.octets = nameField 5 i.date :=
    columns_back (by simp) (by simp)
  unfold readIdentification
  rw [htranslator, hversion, hdate, readName_nameField h.translator,
    readName_nameField h.version, readName_nameField h.date]

/-- There is room for two processors. -/
theorem length_identificationOctets (identifications : List Identification) :
    (identificationOctets identifications).length ≤ 39 := by
  unfold identificationOctets
  match identifications with
  | [] => simp
  | [i] => simp [identificationsPerCard, Identification.length_octets]
  | i :: j :: rest =>
      simp [identificationsPerCard, Identification.length_octets]

/-- The identifications in the columns behind the entry point. -/
def readIdentifications (data : Bytes) : List Identification :=
  ([columns 1 20 data,
    columns 20 39 data].take (readCount (columns 0 1 data))).map
    readIdentification

/-- **Identifications are read back** from the columns behind the entry
point. -/
theorem readIdentifications_octets {identifications : List Identification}
    (hlength : identifications.length ≤ identificationsPerCard)
    (h : ∀ i ∈ identifications, i.Fits) (fill : Nat) :
    readIdentifications (identificationOctets identifications ++ blanks fill) =
      identifications := by
  unfold readIdentifications
  match identifications with
  | [] =>
      cases fill with
      | zero => decide +kernel
      | succ fill => rfl
  | [i] =>
      have hdata : identificationOctets [i] ++ blanks fill =
          nameField 1 (decimal 1) ++ (i.octets ++ blanks fill) := by
        simp [identificationOctets, identificationsPerCard]
      have hcount :
          columns 0 1 (nameField 1 (decimal 1) ++ (i.octets ++ blanks fill)) =
          nameField 1 (decimal 1) := columns_front (by simp)
      have hfirst :
          columns 1 20 (nameField 1 (decimal 1) ++ (i.octets ++ blanks fill)) =
          i.octets := columns_eq (by simp) (by rw [i.length_octets])
      have hone : readCount (nameField 1 (decimal 1)) = 1 := by decide +kernel
      simp only [hdata, hcount, hfirst, hone, List.take_succ_cons,
        List.take_zero, List.map_cons, List.map_nil]
      rw [readIdentification_octets (h i List.mem_cons_self)]
  | [i, j] =>
      have hdata : identificationOctets [i, j] ++ blanks fill =
          nameField 1 (decimal 2) ++
            (i.octets ++ (j.octets ++ blanks fill)) := by
        simp [identificationOctets, identificationsPerCard]
      have hcount : columns 0 1
          (nameField 1 (decimal 2) ++ (i.octets ++ (j.octets ++ blanks fill))) =
          nameField 1 (decimal 2) := columns_front (by simp)
      have hfirst : columns 1 20 (nameField 1 (decimal 2) ++
          (i.octets ++ (j.octets ++ blanks fill))) = i.octets :=
        columns_eq (by simp) (by rw [i.length_octets])
      have hsecond : columns 20 39 (nameField 1 (decimal 2) ++
          (i.octets ++ (j.octets ++ blanks fill))) = j.octets := by
        rw [← List.append_assoc]
        exact columns_eq (by simp [i.length_octets]) (by rw [j.length_octets])
      have htwo : readCount (nameField 1 (decimal 2)) = 2 := by decide +kernel
      simp only [hdata, hcount, hfirst, hsecond, htwo, List.take_succ_cons,
        List.take_zero, List.map_cons, List.map_nil]
      rw [readIdentification_octets (h i List.mem_cons_self),
        readIdentification_octets
          (h j (List.mem_cons_of_mem _ List.mem_cons_self))]
  | i :: j :: k :: rest => simp [identificationsPerCard] at hlength

namespace End

/-- The columns of identifications on the card of an end item. -/
def identificationColumns (e : End) : Bytes :=
  identificationOctets e.identifications ++
    blanks (40 - (identificationOctets e.identifications).length)

/-- The data of an `END` card fill its columns exactly. -/
theorem fit_data_card (e : End) :
    Bytes.fit textSize CodePage037.blank e.card.data =
      e.entryOctets ++ e.identificationColumns := by
  have hlength := length_identificationOctets e.identifications
  have hentry := e.length_entryOctets
  have hdata : e.card.data.length =
      16 + (identificationOctets e.identifications).length := by
    rw [data_card, List.length_append, hentry]
  rw [Bytes.fit_eq_append (by unfold textSize; omega), data_card,
    List.append_assoc]
  unfold identificationColumns blanks
  congr 3
  rw [← data_card, hdata]
  unfold textSize
  omega

/-- The columns of the entry point on an end card. -/
theorem columns_card_entry (e : End) (sequence : Bytes) (start stop : Nat)
    (h : stop ≤ 16) :
    columns (16 + start) (16 + stop) (e.card.octets sequence) =
      columns start stop e.entryOctets := by
  have hentry := e.length_entryOctets
  rw [e.card.columns_data sequence start (by unfold textSize; omega),
    fit_data_card, columns_left (by omega)]

/-- The columns of identifications on an end card. -/
theorem columns_card_identifications (e : End) (sequence : Bytes)
    (start stop : Nat) (h : stop ≤ 40) :
    columns (16 + (16 + start)) (16 + (16 + stop)) (e.card.octets sequence) =
      columns start stop e.identificationColumns := by
  rw [e.card.columns_data sequence (16 + start) (by unfold textSize; omega),
    fit_data_card, columns_append e.length_entryOctets]

end End

/-- **An end card is read back.** -/
theorem reads_endCard {e : End} (h : e.WellFormed) :
    e.card.Reads (.ending
      { e.readBack with identifications :=
        readIdentifications e.identificationColumns }) := by
  obtain ⟨hname, hlength⟩ := End.columns_entryOctets h
  obtain ⟨haddress, hid⟩ := End.readNumber_entry h
  apply Card.reads_of (bytes "END") rfl (by decide +kernel)
  intro sequence
  have hnameColumns : columns 16 24 (e.card.octets sequence) =
      columns 0 8 e.entryOctets :=
    e.columns_card_entry sequence 0 8 (by decide)
  have hlengthColumns : columns 28 32 (e.card.octets sequence) =
      columns 12 16 e.entryOctets :=
    e.columns_card_entry sequence 12 16 (by decide)
  have hcount : columns 32 33 (e.card.octets sequence) =
      columns 0 1 e.identificationColumns :=
    e.columns_card_identifications sequence 0 1 (by decide)
  have hfirst : columns 33 52 (e.card.octets sequence) =
      columns 1 20 e.identificationColumns :=
    e.columns_card_identifications sequence 1 20 (by decide)
  have hsecond : columns 52 71 (e.card.octets sequence) =
      columns 20 39 e.identificationColumns :=
    e.columns_card_identifications sequence 20 39 (by decide)
  unfold readContent
  simp only
  rw [if_neg (by decide +kernel), if_neg (by decide +kernel),
    if_neg (by decide +kernel), if_pos trivial]
  unfold readEnd readIdentifications
  rw [Card.columns_id, hid, Card.columns_address, haddress, hnameColumns, hname,
    hlengthColumns, hlength, hcount, hfirst, hsecond]
  rfl

end Deck

end System370
