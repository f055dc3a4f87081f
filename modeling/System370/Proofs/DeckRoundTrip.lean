import System370.Deck.Dump
import System370.Deck.Emitter
import System370.Proofs.CardContents
import Mathlib.Tactic.FinCases

/-!
# Decks read back

A deck holds its module: cut into cards and taken apart card by card, it gives
the external symbols, the text, the relocations and the end item of the module
again, up to numbers that do not come back from their fields.

* `Deck.Emitter.run_eq`: an emitter punches its cards one behind the other;
* `Deck.Module.emit_eq`: the cards of a deck, in the order of the module;
* `Deck.Module.decoded_emit`: what is read from them.
-/

namespace System370

namespace Deck

/-! ### The cards of a deck -/

namespace Emitter

/-- The cards that items complete, before they are punched. -/
def produce (e : Emitter) : List Item → List Card
  | [] => []
  | item :: rest => (e.accept item).2 ++ (e.accept item).1.produce rest

/-- An item that waits for its card changes no card yet. -/
theorem deck_accept (e : Emitter) (item : Item) :
    (e.accept item).1.deck = e.deck := by
  cases item <;> simp only [accept] <;> split <;> rfl

/-- What an emitter produces does not depend on how many cards it has
punched. -/
theorem produce_cards (e : Emitter) (cards : Nat) (items : List Item) :
    { e with cards }.produce items = e.produce items := by
  induction items generalizing e cards with
  | nil => rfl
  | cons item rest ih =>
      have haccept : { e with cards }.accept item =
          ({ (e.accept item).1 with cards }, (e.accept item).2) := by
        cases item <;> simp only [accept] <;> (try split) <;> rfl
      rw [produce, haccept, ih]
      rfl

/-- Cards are numbered on. -/
theorem punch_append (deck : Bytes) (number : Nat) (cards more : List Card) :
    punch deck number (cards ++ more) =
      punch deck number cards ++ punch deck (number + cards.length) more := by
  induction cards generalizing number with
  | nil => rfl
  | cons c rest ih =>
      rw [List.cons_append, punch, ih, punch, List.cons_append,
        List.length_cons]
      congr 3
      omega

/-- **An emitter punches its cards one behind the other.** -/
theorem run_eq (e : Emitter) (items : List Item) :
    e.run items = punch e.deck e.cards (e.produce items) := by
  induction items generalizing e with
  | nil => rfl
  | cons item rest ih =>
      rw [run, step, produce, punch_append]
      simp only
      rw [ih, produce_cards, deck_accept]

/-- Whatever is not a symbol is preceded by the card of the waiting symbols. -/
theorem produce_flush (e : Emitter) {item : Item} (h : ∀ s, item ≠ .symbol s)
    (rest : List Item) :
    e.produce (item :: rest) =
      e.waitingSymbols ++ { e with symbols := [] }.produce (item :: rest) := by
  cases item with
  | symbol s => exact absurd rfl (h s)
  | text t => simp [produce, accept, waitingSymbols]
  | relocation r =>
      simp only [produce, accept, waitingSymbols, waitingRelocations]
      split <;> simp
  | ending item => simp [produce, accept, waitingSymbols, waitingRelocations]

end Emitter

/-- Groups of a size, of which only the last may be smaller. -/
def Filled {α : Type} (size : Nat) : List (List α) → Prop
  | [] => True
  | [group] => 0 < group.length ∧ group.length ≤ size
  | group :: next :: rest => group.length = size ∧ Filled size (next :: rest)

/-- A full group in front of groups that are filled. -/
theorem Filled.cons {α : Type} {size : Nat} (hpos : 0 < size)
    {group : List α} {groups : List (List α)} (hgroup : group.length = size)
    (h : Filled size groups) :
    Filled size (group :: groups) := by
  cases groups with
  | nil => exact ⟨hgroup ▸ hpos, Nat.le_of_eq hgroup⟩
  | cons next rest => exact ⟨hgroup, h⟩

/-- No group is longer than a card. -/
theorem Filled.length_le {α : Type} {size : Nat} {groups : List (List α)}
    (h : Filled size groups) {group : List α} (hgroup : group ∈ groups) :
    group.length ≤ size := by
  induction groups with
  | nil => simp at hgroup
  | cons first rest ih =>
      cases rest with
      | nil =>
          obtain rfl := List.mem_singleton.mp hgroup
          exact h.2
      | cons next rest =>
          rcases List.mem_cons.mp hgroup with rfl | hgroup
          · exact Nat.le_of_eq h.1
          · exact ih h.2 hgroup

namespace Emitter

/-- **Symbols are punched three to a card.**  The last card may have less. -/
theorem produce_symbols {e : Emitter}
    (hwait : e.symbols.length < symbolsPerCard) (symbols : List Symbol)
    {item : Item} (hitem : ∀ s, item ≠ .symbol s) (rest : List Item) :
    ∃ groups, Filled symbolsPerCard groups ∧
      groups.flatten = e.symbols ++ symbols ∧
      e.produce (symbols.map .symbol ++ item :: rest) =
        groups.map symbolCard ++
          { e with symbols := [] }.produce (item :: rest) := by
  induction symbols generalizing e with
  | nil =>
      by_cases hempty : e.symbols = []
      · refine ⟨[], trivial, by simp [hempty], ?_⟩
        rw [List.map_nil, List.nil_append, produce_flush e hitem,
          waitingSymbols, if_pos hempty]
        rfl
      · refine ⟨[e.symbols],
          ⟨List.length_pos_iff.mpr hempty, Nat.le_of_lt hwait⟩, by simp, ?_⟩
        rw [List.map_nil, List.nil_append, produce_flush e hitem,
          waitingSymbols, if_neg hempty]
        rfl
  | cons s symbols ih =>
      rw [List.map_cons, List.cons_append, produce, accept]
      by_cases hfull : (e.symbols ++ [s]).length = symbolsPerCard
      · rw [if_pos hfull]
        obtain ⟨groups, hfilled, hflatten, hproduce⟩ :=
          ih (e := { e with symbols := [] }) (Nat.succ_pos _)
        refine ⟨(e.symbols ++ [s]) :: groups,
          hfilled.cons (by decide) hfull, ?_, ?_⟩
        · rw [List.flatten_cons, hflatten]
          simp
        · rw [hproduce]
          rfl
      · rw [if_neg hfull]
        have hshort : (e.symbols ++ [s]).length < symbolsPerCard := by
          rw [List.length_append, List.length_singleton] at hfull ⊢
          omega
        obtain ⟨groups, hfilled, hflatten, hproduce⟩ :=
          ih (e := { e with symbols := e.symbols ++ [s] }) hshort
        refine ⟨groups, hfilled, ?_, hproduce⟩
        rw [hflatten]
        simp

/-- Text is punched at once. -/
theorem produce_text {e : Emitter} (hwait : e.symbols = []) (texts : List Text)
    (rest : List Item) :
    e.produce (texts.map .text ++ rest) = texts.flatMap Text.cards ++
      e.produce rest := by
  have hsame : { e with symbols := [] } = e := by rw [← hwait]
  induction texts with
  | nil => rfl
  | cons t texts ih =>
      rw [List.map_cons, List.cons_append, produce, accept, waitingSymbols,
        if_pos hwait, hsame, ih]
      simp

/-- A single relocation fits on a card. -/
theorem length_relocationOctets_singleton (r : Relocation) :
    (relocationOctets none [r]).length ≤ textSize := by
  simp [relocationOctets, textSize]

/-- **Relocations are punched as many to a card as it takes.**  The last of them
wait. -/
theorem produce_relocations_append {e : Emitter} (hwait : e.symbols = [])
    (hfits : (relocationOctets none e.relocations).length ≤ textSize)
    (relocations : List Relocation) (rest : List Item) :
    ∃ (groups : List (List Relocation)) (waiting : List Relocation),
      (∀ g ∈ groups, (relocationOctets none g).length ≤ textSize) ∧
      (relocationOctets none waiting).length ≤ textSize ∧
      groups.flatten ++ waiting = e.relocations ++ relocations ∧
      e.produce (relocations.map .relocation ++ rest) =
        groups.map relocationCard ++
          { e with relocations := waiting }.produce rest := by
  induction relocations generalizing e with
  | nil => exact ⟨[], e.relocations, by simp, hfits, by simp, by simp⟩
  | cons r relocations ih =>
      rw [List.map_cons, List.cons_append, produce, accept]
      by_cases hfull : textSize <
        (relocationOctets none (e.relocations ++ [r])).length
      · rw [if_pos hfull]
        have hwaiting : e.relocations ≠ [] := by
          intro hempty
          have hsingle := length_relocationOctets_singleton r
          rw [hempty, List.nil_append] at hfull
          omega
        obtain ⟨groups, waiting, hgroups, hlast, hflatten, hproduce⟩ :=
          ih (e := { e with symbols := [], relocations := [r] }) rfl
            (length_relocationOctets_singleton r)
        refine ⟨e.relocations :: groups, waiting, ?_, hlast, ?_, ?_⟩
        · intro g hg
          rcases List.mem_cons.mp hg with rfl | hg
          · exact hfits
          · exact hgroups g hg
        · rw [List.flatten_cons, List.append_assoc, hflatten]
          simp
        · rw [hproduce]
          simp [waitingSymbols, waitingRelocations, hwait, hwaiting]
      · rw [if_neg hfull]
        obtain ⟨groups, waiting, hgroups, hlast, hflatten, hproduce⟩ :=
          ih (e :=
            { e with symbols := [], relocations := e.relocations ++ [r] }) rfl
            (Nat.not_lt.mp hfull)
        refine ⟨groups, waiting, hgroups, hlast, ?_, ?_⟩
        · rw [hflatten]
          simp
        · rw [hproduce]
          simp [waitingSymbols, hwait]

/-- The end card is preceded by the card of the waiting relocations. -/
theorem produce_ending {e : Emitter} (hwait : e.symbols = []) (ending : End) :
    e.produce [.ending ending] = e.waitingRelocations ++ [ending.card] := by
  simp [produce, accept, waitingSymbols, hwait]

/-- The relocations in front of the end card are all punched. -/
theorem produce_relocations {e : Emitter} (hwait : e.symbols = [])
    (hfits : (relocationOctets none e.relocations).length ≤ textSize)
    (relocations : List Relocation) (ending : End) :
    ∃ groups : List (List Relocation),
      (∀ g ∈ groups, (relocationOctets none g).length ≤ textSize) ∧
      groups.flatten = e.relocations ++ relocations ∧
      e.produce (relocations.map .relocation ++ [.ending ending]) =
        groups.map relocationCard ++ [ending.card] := by
  obtain ⟨groups, waiting, hgroups, hlast, hflatten, hproduce⟩ :=
    produce_relocations_append hwait hfits relocations [.ending ending]
  rw [hproduce, produce_ending (e := { e with relocations := waiting }) hwait,
    waitingRelocations]
  simp only
  split
  · rename_i hempty
    rw [hempty, List.append_nil] at hflatten
    exact ⟨groups, hgroups, hflatten, by simp⟩
  · refine ⟨groups ++ [waiting], ?_, by simpa using hflatten, by simp⟩
    intro g hg
    rcases List.mem_append.mp hg with hg | hg
    · exact hgroups g hg
    · obtain rfl := List.mem_singleton.mp hg
      exact hlast

end Emitter

/-- **The cards of a deck**, in the order of the module: symbols in threes,
text, relocations and the end card. -/
theorem Module.emit_eq (m : Module) :
    ∃ (symbols : List (List Symbol)) (relocations : List (List Relocation)),
      Filled symbolsPerCard symbols ∧ symbols.flatten = m.symbols ∧
      (∀ g ∈ relocations, (relocationOctets none g).length ≤ textSize) ∧
      relocations.flatten = m.relocations ∧
      m.emit = Emitter.punch (toUpper m.deckId) 0
        (symbols.map symbolCard ++ m.text.flatMap Text.cards ++
          relocations.map relocationCard ++ [m.ending.card]) := by
  obtain ⟨relocations, hfits, hrelocations, hproduce⟩ :=
    Emitter.produce_relocations (e := Emitter.new m.deckId) rfl (Nat.zero_le _)
      m.relocations m.ending
  -- whatever follows the symbols begins with an item that is not a symbol
  obtain ⟨item, rest, hrest, hitem⟩ : ∃ item rest,
      m.text.map Item.text ++
        (m.relocations.map Item.relocation ++ [.ending m.ending]) =
        item :: rest ∧ ∀ s, item ≠ .symbol s := by
    cases m.text with
    | cons t texts => exact ⟨_, _, rfl, by simp⟩
    | nil =>
        cases m.relocations with
        | cons r relocations => exact ⟨_, _, rfl, by simp⟩
        | nil => exact ⟨_, _, rfl, by simp⟩
  obtain ⟨symbols, hfilled, hsymbols, hgroups⟩ :=
    Emitter.produce_symbols (e := Emitter.new m.deckId) (Nat.succ_pos _)
      m.symbols hitem rest
  refine ⟨symbols, relocations, hfilled, hsymbols, hfits, hrelocations, ?_⟩
  have hitems : m.items = m.symbols.map .symbol ++ item :: rest := by
    rw [← hrest, items]
    simp only [List.append_assoc]
  have htext := Emitter.produce_text (e := Emitter.new m.deckId) rfl m.text
    (m.relocations.map Item.relocation ++ [.ending m.ending])
  rw [emit, Emitter.run_eq, hitems, hgroups, ← hrest]
  have hnew : { Emitter.new m.deckId with symbols := [] } =
      Emitter.new m.deckId := rfl
  rw [hnew, htext, hproduce]
  simp only [List.append_assoc]
  rfl

/-! ### What is read from a deck -/

/-- The external symbols of a card. -/
def Content.symbolItems : Content → List Symbol
  | symbols items => items
  | _ => []

/-- The text of a card. -/
def Content.textItems : Content → List Text
  | text item => [item]
  | _ => []

/-- The relocations of a card. -/
def Content.relocationItems : Content → List Relocation
  | relocations items => items
  | _ => []

/-- The end item of a card. -/
def Content.endItems : Content → List End
  | ending item => [item]
  | _ => []

/-- Consecutive pieces of text from an address on. -/
def piecesFrom (sectionId : Int) (address : Int64) : List Bytes → List Text
  | [] => []
  | piece :: rest =>
    ⟨sectionId, address, piece⟩ ::
      piecesFrom sectionId (address + Int64.ofNat piece.length) rest

/-- A text cut into pieces of 56 octets, the last one possibly shorter. -/
def Text.pieces (t : Text) : List Text :=
  piecesFrom t.sectionId t.address (chunks textSize t.data)

/-- The cards of a text are those of its pieces. -/
theorem textCardsFrom_eq (sectionId : Int) (address : Int64)
    (pieces : List Bytes) :
    textCardsFrom sectionId address pieces =
      (piecesFrom sectionId address pieces).map Text.card := by
  induction pieces generalizing address with
  | nil => rfl
  | cons piece rest ih => rw [textCardsFrom, piecesFrom, ih, List.map_cons]; rfl

theorem length_of_mem_piecesFrom {sectionId : Int} {address : Int64}
    {pieces : List Bytes} {t : Text}
    (h : t ∈ piecesFrom sectionId address pieces) : t.data ∈ pieces := by
  induction pieces generalizing address with
  | nil => simp [piecesFrom] at h
  | cons piece rest ih =>
      rcases List.mem_cons.mp h with rfl | h
      · exact List.mem_cons_self
      · exact List.mem_cons_of_mem _ (ih h)

/-- A piece of a text fits on a card and is not empty. -/
theorem Text.length_of_mem_pieces {t piece : Text} (h : piece ∈ t.pieces) :
    0 < piece.data.length ∧ piece.data.length ≤ textSize :=
  length_of_mem_chunksFrom (by decide) (length_of_mem_piecesFrom h)

/-- **Cards that can be read are taken apart one by one.** -/
theorem decodeFrom_punch {cards : List Card} {contents : List Content}
    (h : List.Forall₂ Card.Reads cards contents) (deck : Bytes)
    (number index : Nat) :
    ∃ ds, decodeFrom index (Emitter.punch deck number cards) = .ok ds ∧
      ds.map (·.content) = contents := by
  induction h generalizing number index with
  | nil => exact ⟨[], rfl, rfl⟩
  | @cons c content cards contents hc hrest ih =>
      obtain ⟨d, hd, hcontent⟩ := hc index (sequenceText deck (number + 1))
      obtain ⟨ds, hds, hcontents⟩ := ih (number + 1) (index + 1)
      refine ⟨d :: ds, ?_, by simp [hcontent, hcontents]⟩
      rw [Emitter.punch, decodeFrom, hd]
      simp only
      rw [hds]
      rfl

/-- A module that can be written: every symbol and the end item are well formed,
and relocations have one to four octets. -/
structure Module.WellFormed (m : Module) : Prop where
  symbols : ∀ s ∈ m.symbols, s.WellFormed
  relocations : ∀ r ∈ m.relocations, 1 ≤ r.length ∧ r.length ≤ 4
  ending : m.ending.WellFormed

/-- **Every card of a module is understood**, whatever groups its items are
in. -/
theorem Module.reads_cards {m : Module} (h : m.WellFormed)
    {groups : List (List Symbol)} {relocations : List (List Relocation)}
    (hfilled : Filled symbolsPerCard groups)
    (hsymbols : groups.flatten = m.symbols)
    (hfits : ∀ g ∈ relocations, (relocationOctets none g).length ≤ textSize)
    (hrelocations : relocations.flatten = m.relocations) :
    List.Forall₂ Card.Reads
      (groups.map symbolCard ++ m.text.flatMap Text.cards ++
        relocations.map relocationCard ++
        [m.ending.card])
      (groups.map (fun g => .symbols (countedFrom (cardNumber g) g)) ++
        (m.text.flatMap Text.pieces).map (fun t => .text t.readBack) ++
        relocations.map (fun g => .relocations (g.map Relocation.readBack)) ++
        [.ending { m.ending.readBack with
          identifications :=
            readIdentifications m.ending.identificationColumns }]) := by
  have htexts : m.text.flatMap Text.cards =
      (m.text.flatMap Text.pieces).map Text.card := by
    rw [List.map_flatMap]
    congr 1
    funext t
    exact textCardsFrom_eq _ _ _
  rw [htexts]
  refine List.rel_append (List.rel_append (List.rel_append ?_ ?_) ?_)
    (.cons ?_ .nil)
  · rw [List.forall₂_map_left_iff, List.forall₂_map_right_iff,
      List.forall₂_same]
    intro g hg
    apply reads_symbolCard _ (hfilled.length_le hg)
    intro s hs
    exact h.symbols s (hsymbols ▸ List.mem_flatten_of_mem hg hs)
  · rw [List.forall₂_map_left_iff, List.forall₂_map_right_iff,
      List.forall₂_same]
    intro piece hpiece
    obtain ⟨t, -, hmem⟩ := List.mem_flatMap.mp hpiece
    exact reads_textCard (Text.length_of_mem_pieces hmem).2
  · rw [List.forall₂_map_left_iff, List.forall₂_map_right_iff,
      List.forall₂_same]
    intro g hg
    apply reads_relocationCard _ (hfits g hg)
    intro r hr
    exact h.relocations r (hrelocations ▸ List.mem_flatten_of_mem hg hr)
  · exact reads_endCard h.ending

/-- **What is read from a deck.**  The numbers of external symbols are counted
from those on the cards. -/
theorem Module.decoded_emit {m : Module} (h : m.WellFormed) :
    ∃ (ds : List Decoded) (groups : List (List Symbol)),
    decodeFrom 0 m.emit = .ok ds ∧
      Filled symbolsPerCard groups ∧ groups.flatten = m.symbols ∧
      ds.flatMap (·.content.symbolItems) = groups.flatMap
        (fun g => countedFrom (cardNumber g) g) ∧
      ds.flatMap (·.content.textItems) = (m.text.flatMap Text.pieces).map
        Text.readBack ∧
      ds.flatMap (·.content.relocationItems) = m.relocations.map
        Relocation.readBack ∧
      ds.flatMap (·.content.endItems) =
        [{ m.ending.readBack with
          identifications :=
            readIdentifications m.ending.identificationColumns }] := by
  obtain ⟨groups, relocations, hfilled, hsymbols, hfits, hrelocations, hemit⟩ :=
    m.emit_eq
  have hreads := Module.reads_cards h hfilled hsymbols hfits hrelocations
  obtain ⟨ds, hds, hcontents⟩ := decodeFrom_punch hreads (toUpper m.deckId) 0 0
  have hitems : ∀ {α : Type} (items : Content → List α),
      ds.flatMap (fun d => items d.content) =
        (ds.map (·.content)).flatMap items :=
    fun items => (List.flatMap_map _ _ _).symm
  have hnone : ∀ {α β : Type} (l : List α),
      l.flatMap (fun _ => ([] : List β)) = [] :=
    fun l => List.flatMap_eq_nil_iff.mpr fun _ _ => rfl
  refine ⟨ds, groups, hemit ▸ hds, hfilled, hsymbols, ?_, ?_, ?_, ?_⟩
  · rw [hitems, hcontents]
    simp [List.flatMap_map, Content.symbolItems, hnone]
  · rw [hitems, hcontents]
    simp only [List.flatMap_append, List.flatMap_map, Content.textItems, hnone,
      List.flatMap_cons, List.flatMap_nil, List.nil_append, List.append_nil]
    exact List.flatMap_pure_eq_map _ _
  · rw [hitems, hcontents, ← hrelocations, List.map_flatten, ← List.flatMap_def]
    simp [List.flatMap_map, Content.relocationItems, hnone]
  · rw [hitems, hcontents]
    simp [List.flatMap_map, Content.endItems, hnone]

/-! ### Numbers that come back -/

/-- External symbols in the order of a deck: those with a number first, counted
from `first` on, and entry points behind them. -/
def NumberedFrom (first : Nat) (symbols : List Symbol) : Prop :=
  ∃ items entries, symbols = items ++ entries ∧
    (∀ s ∈ items, s.type ≠ .entry) ∧ (∀ s ∈ entries, s.type = .entry) ∧
    items.map (·.id) = (List.range' first items.length).map Int.ofNat

/-- Entries take no numbers. -/
theorem NumberedFrom.of_entries {symbols : List Symbol}
    (h : ∀ s ∈ symbols, s.type = .entry) (first : Nat) :
    NumberedFrom first symbols :=
  ⟨[], symbols, rfl, by simp, h, rfl⟩

/-- Some symbols in order begin with a numbered one, or are entry points
altogether. -/
theorem NumberedFrom.cons_inv {first : Nat} {s : Symbol} {rest : List Symbol}
    (h : NumberedFrom first (s :: rest)) :
    (s.type ≠ .entry ∧ s.id = first ∧ NumberedFrom (first + 1) rest) ∨
      ∀ t ∈ s :: rest, t.type = .entry := by
  obtain ⟨items, entries, hsplit, hitems, hentries, hids⟩ := h
  cases items with
  | nil => exact .inr (hsplit ▸ hentries)
  | cons item items =>
      obtain ⟨rfl, rfl⟩ := List.cons.inj hsplit
      rw [List.map_cons, List.length_cons, List.range'_succ,
        List.map_cons] at hids
      obtain ⟨hid, hids⟩ := List.cons.inj hids
      exact .inl ⟨hitems s List.mem_cons_self, hid, items, entries, rfl,
        fun t ht => hitems t (List.mem_cons_of_mem _ ht), hentries, hids⟩

/-- What follows some symbols in order is in order. -/
theorem NumberedFrom.append_inv {first : Nat}
    {symbols rest : List Symbol} (h : NumberedFrom first (symbols ++ rest)) :
    NumberedFrom first symbols ∧
      NumberedFrom (first + symbols.length) rest := by
  induction symbols generalizing first with
  | nil => exact ⟨.of_entries (by simp) first, h⟩
  | cons s symbols ih =>
      rcases NumberedFrom.cons_inv h with ⟨htype, hid, hrest⟩ | hentries
      · obtain ⟨⟨items, entries, rfl, hitems, hentries, hids⟩, hafter⟩ :=
          ih hrest
        refine ⟨⟨s :: items, entries, rfl, ?_, hentries, ?_⟩, ?_⟩
        · intro t ht
          rcases List.mem_cons.mp ht with rfl | ht
          · exact htype
          · exact hitems t ht
        · rw [List.map_cons, hids, List.length_cons, List.range'_succ,
            List.map_cons, hid]
          rfl
        · rw [List.length_cons, Nat.add_comm _ 1, ← Nat.add_assoc]
          exact hafter
      · exact ⟨.of_entries (fun t ht => hentries t (by simp at ht ⊢; tauto)) _,
          .of_entries (fun t ht => hentries t (by simp [ht])) _⟩

/-- Symbols in order come back if they are counted from the right number. -/
theorem countedFrom_eq {first : Nat} {symbols : List Symbol}
    (h : NumberedFrom first symbols) (hwell : ∀ s ∈ symbols, s.WellFormed) :
    countedFrom first symbols = symbols.map Symbol.readBack := by
  induction symbols generalizing first with
  | nil => rfl
  | cons s rest ih =>
      have hrest := fun t ht => hwell t (List.mem_cons_of_mem s ht)
      rw [countedFrom, List.map_cons]
      rcases NumberedFrom.cons_inv h with ⟨htype, hid, hafter⟩ | hentries
      · rw [if_neg htype, if_neg htype, ih hafter hrest]
        simp only [← hid]
        rfl
      · have htype := hentries s List.mem_cons_self
        have hid := ((hwell s List.mem_cons_self).entry htype).1
        rw [if_pos htype, if_pos htype, ih
          (.of_entries (fun t ht => hentries t (List.mem_cons_of_mem s ht))
            first) hrest]
        simp only [← hid]
        rfl

/-- The symbols of a card come back if the number on it does. -/
theorem countedFrom_cardNumber_iff {first : Nat} {symbols : List Symbol}
    (hne : symbols ≠ []) (h : NumberedFrom first symbols)
    (hwell : ∀ s ∈ symbols, s.WellFormed) :
    countedFrom (cardNumber symbols) symbols = symbols.map Symbol.readBack ↔
      (∀ s ∈ symbols, s.type = .entry) ∨ Legible 2 first := by
  cases symbols with
  | nil => exact absurd rfl hne
  | cons s rest =>
      rcases NumberedFrom.cons_inv h with ⟨htype, hid, hafter⟩ | hentries
      · have hnumber : cardNumber (s :: rest) = readBack 2 first := by
          simp [cardNumber, Option.filter, htype, hid]
        rw [hnumber, ← readBack_eq_iff (by decide), Int.natCast_inj]
        constructor
        · intro heq
          have hfirst := congrArg Symbol.id (List.cons.inj heq).1
          simp only [if_neg htype] at hfirst
          right
          have hid' : (s.readBack).id = s.id := rfl
          rw [hid', hid] at hfirst
          exact_mod_cast hfirst
        · rintro (hall | heq)
          · exact absurd (hall s List.mem_cons_self) htype
          · rw [heq]
            exact countedFrom_eq h hwell
      · refine iff_of_true ?_ (.inl hentries)
        exact countedFrom_eq (.of_entries hentries _) hwell

/-- The numbers of some symbols in order. -/
theorem NumberedFrom.id_lt {first : Nat} {symbols : List Symbol}
    (h : NumberedFrom first symbols) (hwell : ∀ s ∈ symbols, s.WellFormed)
    {s : Symbol} (hs : s ∈ symbols) :
    s.id < first + symbols.length := by
  obtain ⟨items, entries, rfl, -, hentries, hids⟩ := h
  rw [List.length_append]
  rcases List.mem_append.mp hs with hitem | hentry
  · have hid : s.id ∈ items.map (·.id) := List.mem_map_of_mem hitem
    rw [hids] at hid
    obtain ⟨n, hn, heq⟩ := List.mem_map.mp hid
    obtain ⟨-, hlt⟩ := List.mem_range'_1.mp hn
    rw [← heq, Int.ofNat_eq_natCast]
    omega
  · have hpos := List.length_pos_of_mem hentry
    rw [((hwell s hs).entry (hentries s hentry)).1]
    omega

theorem length_countedFrom (first : Nat) (symbols : List Symbol) :
    (countedFrom first symbols).length = symbols.length := by
  induction symbols generalizing first with
  | nil => rfl
  | cons s rest ih => rw [countedFrom, List.length_cons, ih, List.length_cons]

/-- The symbols of a card come back if their numbers fit.  A card's first number
is one more than a multiple of three, and the number that is blank is not. -/
theorem countedFrom_group_iff {first : Nat}
    (hfirst : first % symbolsPerCard = 1) {group : List Symbol}
    (hne : group ≠ []) (hlength : group.length ≤ symbolsPerCard)
    (h : NumberedFrom first group) (hwell : ∀ s ∈ group, s.WellFormed) :
    countedFrom (cardNumber group) group = group.map Symbol.readBack ↔
      ∀ s ∈ group, s.id < 256 ^ 2 := by
  rw [countedFrom_cardNumber_iff hne h hwell]
  have hblank : (blankNumber 2 : Int) = 0x4040 := rfl
  unfold symbolsPerCard at hfirst hlength
  constructor
  · rintro (hentries | ⟨-, hlt, -⟩) s hs
    · rw [((hwell s hs).entry (hentries s hs)).1]
      decide
    · have hid := h.id_lt hwell hs
      omega
  · intro hids
    cases group with
    | nil => exact absurd rfl hne
    | cons s rest =>
        rcases NumberedFrom.cons_inv h with ⟨-, hid, -⟩ | hentries
        · have hlt := hids s List.mem_cons_self
          refine .inr ⟨by omega, by omega, by omega⟩
        · exact .inl hentries

/-- **Symbols in order come back from their cards** exactly if their numbers
fit. -/
theorem countedFrom_groups_iff {first : Nat}
    (hfirst : first % symbolsPerCard = 1) {groups : List (List Symbol)}
    (hfilled : Filled symbolsPerCard groups)
    (h : NumberedFrom first groups.flatten)
    (hwell : ∀ s ∈ groups.flatten, s.WellFormed) :
    groups.flatMap (fun g => countedFrom (cardNumber g) g) = groups.flatten.map
      Symbol.readBack ↔
      ∀ s ∈ groups.flatten, s.id < 256 ^ 2 := by
  induction groups generalizing first with
  | nil => simp
  | cons group rest ih =>
      rw [List.flatten_cons] at h hwell
      obtain ⟨hgroup, hrest⟩ := h.append_inv
      have hwellGroup : ∀ s ∈ group, s.WellFormed := fun s hs =>
        hwell s (List.mem_append_left _ hs)
      have hwellRest : ∀ s ∈ rest.flatten, s.WellFormed := fun s hs =>
        hwell s (List.mem_append_right _ hs)
      have hlength := hfilled.length_le List.mem_cons_self
      have hne : group ≠ [] := by
        rintro rfl
        cases rest with
        | nil => exact absurd hfilled.1 (Nat.lt_irrefl 0)
        | cons next rest => exact absurd hfilled.1 (by decide)
      have hhead := countedFrom_group_iff hfirst hne hlength hgroup hwellGroup
      have htail : rest.flatMap (fun g => countedFrom (cardNumber g) g) =
          rest.flatten.map Symbol.readBack ↔ ∀ s ∈ rest.flatten,
          s.id < 256 ^ 2 := by
        cases rest with
        | nil => simp
        | cons next rest =>
            apply ih _ hfilled.2 hrest hwellRest
            rw [hfilled.1, Nat.add_mod_right]
            exact hfirst
      rw [List.flatMap_cons, List.flatten_cons, List.map_append,
        List.forall_mem_append, ← hhead, ← htail]
      constructor
      · intro heq
        exact List.append_inj heq (by rw [length_countedFrom, List.length_map])
      · rintro ⟨hleft, hright⟩
        rw [hleft, hright]

/-- Whether the numbers of an external symbol come back, apart from its own. -/
structure Symbol.Legible (s : Symbol) : Prop where
  address : Deck.Legible 3 s.address.toInt
  length : Deck.Legible 3 s.length.toInt
  owner : Deck.Legible 2 s.owner

/-- A symbol is read back as it was just if it is legible. -/
theorem Symbol.readBack_eq_iff (s : Symbol) : s.readBack = s ↔ s.Legible := by
  have haddress :=
    wordBack_eq_iff (n := s.address) (by decide : 0 < 3) (by decide)
  have hlength :=
    wordBack_eq_iff (n := s.length) (by decide : 0 < 3) (by decide)
  have howner := Deck.readBack_eq_iff (n := s.owner) (by decide : 0 < 2)
  constructor
  · intro heq
    exact ⟨haddress.mp (congrArg Symbol.address heq),
      hlength.mp (congrArg Symbol.length heq),
      howner.mp (congrArg Symbol.owner heq)⟩
  · intro h
    unfold readBack
    rw [haddress.mpr h.address, hlength.mpr h.length, howner.mpr h.owner]

/-- Whether the numbers of a text come back. -/
structure Text.Legible (t : Text) : Prop where
  sectionId : Deck.Legible 2 t.sectionId
  address : Deck.Legible 3 t.address.toInt

/-- So is a text. -/
theorem Text.readBack_eq_iff (t : Text) : t.readBack = t ↔ t.Legible := by
  have haddress :=
    wordBack_eq_iff (n := t.address) (by decide : 0 < 3) (by decide)
  have hid := Deck.readBack_eq_iff (n := t.sectionId) (by decide : 0 < 2)
  constructor
  · intro heq
    exact ⟨hid.mp (congrArg Text.sectionId heq),
      haddress.mp (congrArg Text.address heq)⟩
  · intro h
    unfold readBack
    rw [haddress.mpr h.address, hid.mpr h.sectionId]

/-- Whether the numbers of a relocation fit their fields.  Blanks are read as a
number like any other. -/
structure Relocation.InFields (r : Relocation) : Prop where
  position : 0 ≤ r.position ∧ r.position < 256 ^ 2
  target : 0 ≤ r.target ∧ r.target < 256 ^ 2
  address : 0 ≤ r.address.toInt ∧ r.address.toInt < 256 ^ 3

/-- A relocation is read back as it was just if it is within its fields. -/
theorem Relocation.readBack_eq_iff (r : Relocation) :
    r.readBack = r ↔ r.InFields := by
  have hget := Field.get_put 3 r.address.toInt
  have hlow := Int.emod_nonneg r.address.toInt (by decide : (256 : Int) ^ 3 ≠ 0)
  have hhigh :=
    Int.emod_lt_of_pos r.address.toInt (by decide : (0 : Int) < 256 ^ 3)
  have hword : (Int64.ofNat (Field.get (Field.put 3 r.address.toInt))).toInt =
      r.address.toInt % 256 ^ 3 := by
    rw [← hget, Int64.toInt_ofNat_of_lt]
    omega
  constructor
  · intro heq
    have hposition := congrArg Relocation.position heq
    have htarget := congrArg Relocation.target heq
    have haddress := congrArg (fun r => r.address.toInt) heq
    simp only [readBack, hword] at hposition htarget haddress
    exact ⟨by omega, by omega, by omega⟩
  · intro h
    have haddress : Int64.ofNat (Field.get (Field.put 3 r.address.toInt)) =
        r.address := by
      rw [← Int64.toInt_inj, hword]
      exact Int.emod_eq_of_lt h.address.1 h.address.2
    unfold readBack
    rw [haddress, Int.emod_eq_of_lt h.position.1 h.position.2,
      Int.emod_eq_of_lt h.target.1 h.target.2]

/-- Whether the numbers of an end item come back. -/
structure End.Legible (e : End) : Prop where
  sectionId : Deck.Legible 2 e.sectionId
  address : Deck.Legible 3 e.address.toInt
  length : Deck.Legible 4 e.length.toInt

/-- Address, section, name and length of the entry point come back from an end
item whose numbers do. -/
theorem End.readBack_eq_iff (e : End) :
    ((e.readBack).address = e.address ∧ (e.readBack).sectionId = e.sectionId ∧
      (e.readBack).length = e.length) ↔ e.Legible := by
  have haddress :=
    wordBack_eq_iff (n := e.address) (by decide : 0 < 3) (by decide)
  have hid := Deck.readBack_eq_iff (n := e.sectionId) (by decide : 0 < 2)
  have hlength :=
    wordBack_eq_iff (n := e.length) (by decide : 0 < 4) (by decide)
  constructor
  · rintro ⟨ha, hs, hl⟩
    exact ⟨hid.mp hs, haddress.mp ha, hlength.mp hl⟩
  · intro h
    exact ⟨haddress.mpr h.address, hid.mpr h.sectionId, hlength.mpr h.length⟩

theorem map_eq_self_iff {α : Type} {f : α → α} {l : List α} :
    l.map f = l ↔ ∀ a ∈ l, f a = a := by
  have h := List.map_inj_left (l := l) (f := f) (g := id)
  rwa [List.map_id] at h

/-- Whether every number of a module comes back from its deck: none is too large
for its field, and none is written as blanks where these read as zero. -/
structure Module.Legible (m : Module) : Prop where
  ids : ∀ s ∈ m.symbols, s.id < 256 ^ 2
  symbols : ∀ s ∈ m.symbols, s.Legible
  text : ∀ t ∈ m.text, ∀ piece ∈ t.pieces, piece.Legible
  relocations : ∀ r ∈ m.relocations, r.InFields
  ending : m.ending.Legible

/-- Counting the symbols of a card changes nothing but their numbers. -/
theorem countedFrom_unnumbered (first : Nat) (symbols : List Symbol) :
    (countedFrom first symbols).map (fun s => { s with id := 0 }) =
      symbols.map fun s => { s.readBack with id := 0 } := by
  induction symbols generalizing first with
  | nil => rfl
  | cons s rest ih => rw [countedFrom, List.map_cons, ih, List.map_cons]

/-- **The symbols of a deck are those of the module** exactly if all their
numbers come back. -/
theorem countedFrom_groups_eq_iff {groups : List (List Symbol)}
    (hfilled : Filled symbolsPerCard groups) (h : NumberedFrom 1 groups.flatten)
    (hwell : ∀ s ∈ groups.flatten, s.WellFormed) :
    groups.flatMap (fun g => countedFrom (cardNumber g) g) = groups.flatten ↔
      (∀ s ∈ groups.flatten, s.id < 256 ^ 2) ∧ ∀ s ∈ groups.flatten,
      s.Legible := by
  rw [← countedFrom_groups_iff (by decide) hfilled h hwell]
  have hkept : (∀ s ∈ groups.flatten, s.Legible) →
      groups.flatten.map Symbol.readBack = groups.flatten := fun hlegible =>
    map_eq_self_iff.mpr fun s hs => s.readBack_eq_iff.mpr (hlegible s hs)
  constructor
  · intro heq
    have hunnumbered :=
      congrArg (List.map fun s : Symbol => { s with id := 0 }) heq
    rw [List.map_flatMap] at hunnumbered
    simp only [countedFrom_unnumbered] at hunnumbered
    rw [List.flatMap_def, ← List.map_flatten, List.map_inj_left] at hunnumbered
    have hlegible : ∀ s ∈ groups.flatten, s.Legible := by
      intro s hs
      apply s.readBack_eq_iff.mp
      exact congrArg (fun t : Symbol => { t with id := s.id })
        (hunnumbered s hs)
    exact ⟨heq.trans (hkept hlegible).symm, hlegible⟩
  · rintro ⟨hcounted, hlegible⟩
    rw [hcounted, hkept hlegible]

/-! ### Decks read back -/

/-- Every card has 80 octets. -/
theorem length_of_mem_punch {deck card : Bytes} {number : Nat}
    {cards : List Card} (h : card ∈ Emitter.punch deck number cards) :
    card.length = cardSize := by
  induction cards generalizing number with
  | nil => simp [Emitter.punch] at h
  | cons c rest ih =>
      rcases List.mem_cons.mp h with rfl | h
      · exact c.length_octets _
      · exact ih h

/-- **A deck is cut into its cards**, and nothing is left over. -/
theorem Module.readCards_emit (m : Module) :
    readCards m.emit.flatten = (m.emit, none) := by
  have hsize : ∀ card ∈ m.emit, card.length = cardSize := by
    obtain ⟨_, _, _, _, _, _, hemit⟩ := m.emit_eq
    intro card hcard
    rw [hemit] at hcard
    exact length_of_mem_punch hcard
  have hlength : m.emit.flatten.length = m.emit.length * cardSize := by
    rw [List.length_flatten, List.map_congr_left hsize, List.map_const',
      List.sum_replicate_nat]
  unfold readCards
  simp only [hlength]
  rw [chunks_flatten (by decide) hsize, Nat.mul_div_cancel _ (by decide),
    Nat.mul_mod_left, List.take_length, if_pos rfl]

/-- A module whose fields fit the layout of the cards. -/
structure Module.Fits (m : Module) : Prop where
  symbols : ∀ s ∈ m.symbols, s.WellFormed ∧ s.id < 256 ^ 2 ∧
    (0 ≤ s.owner ∧ s.owner < 256 ^ 2) ∧
    (0 ≤ s.address.toInt ∧ s.address.toInt < 256 ^ 3) ∧
    (0 ≤ s.length.toInt ∧ s.length.toInt < 256 ^ 3)
  numbered : NumberedFrom 1 m.symbols
  text : ∀ t ∈ m.text, (0 ≤ t.sectionId ∧ t.sectionId < 256 ^ 2) ∧
    (0 ≤ t.address.toInt ∧ t.address.toInt < 256 ^ 3)
  relocations : ∀ r ∈ m.relocations, r.InFields ∧ 1 ≤ r.length ∧ r.length ≤ 4
  ending : m.ending.WellFormed ∧
    (0 ≤ m.ending.sectionId ∧ m.ending.sectionId < 256 ^ 2) ∧
    (0 ≤ m.ending.address.toInt ∧ m.ending.address.toInt < 256 ^ 3) ∧
    (0 ≤ m.ending.length.toInt ∧ m.ending.length.toInt < 256 ^ 4) ∧
    (m.ending.hasEntry = true → m.ending.name ≠ [] ∨ m.ending.sectionId ≠ 0)
  identifications : m.ending.identifications.length ≤ identificationsPerCard ∧
    ∀ i ∈ m.ending.identifications, i.Fits

/-- What fits on cards is well formed. -/
theorem Module.Fits.wellFormed {m : Module} (h : m.Fits) : m.WellFormed :=
  ⟨fun s hs => (h.symbols s hs).1,
    fun r hr => (h.relocations r hr).2, h.ending.1⟩

/-- The text of a module comes back exactly if the numbers of all its pieces
do. -/
theorem map_readBack_pieces_iff (texts : List Text) :
    (texts.flatMap Text.pieces).map Text.readBack = texts.flatMap Text.pieces ↔
      ∀ t ∈ texts, ∀ piece ∈ t.pieces, piece.Legible := by
  rw [map_eq_self_iff]
  constructor
  · intro h t ht piece hpiece
    exact piece.readBack_eq_iff.mp
      (h piece (List.mem_flatMap.mpr ⟨t, ht, hpiece⟩))
  · intro h piece hmem
    obtain ⟨t, ht, hpiece⟩ := List.mem_flatMap.mp hmem
    exact piece.readBack_eq_iff.mpr (h t ht piece hpiece)

/-- An end item that fits comes back exactly if its numbers do. -/
theorem Module.Fits.readBack_ending_iff {m : Module} (h : m.Fits) :
    m.ending.readBack = m.ending ↔ m.ending.Legible := by
  obtain ⟨hwell, -, -, -, hentry⟩ := h.ending
  rw [← End.readBack_eq_iff]
  constructor
  · intro heq
    rw [heq]
    exact ⟨rfl, rfl, rfl⟩
  · rintro ⟨haddress, hid, hlength⟩
    have hhas : (m.ending.readBack).hasEntry = m.ending.hasEntry := by
      have hnat : readBack 2 m.ending.sectionId ≠ 0 ↔
          m.ending.sectionId ≠ 0 := by
        have hcast : (readBack 2 m.ending.sectionId : Int) =
            m.ending.sectionId := hid
        omega
      unfold End.readBack
      simp only [hnat]
      cases hflag : m.ending.hasEntry with
      | false =>
          obtain ⟨-, hzero, hname, -⟩ := hwell.absent hflag
          simp [hzero, hname]
      | true =>
          rcases hentry hflag with hname | hid
          · simp [hname]
          · simp [hid]
    calc m.ending.readBack
        = { m.ending with
            hasEntry := (m.ending.readBack).hasEntry
            address := (m.ending.readBack).address
            sectionId := (m.ending.readBack).sectionId
            length := (m.ending.readBack).length } := rfl
      _ = m.ending := by rw [hhas, haddress, hid, hlength]

/-- **A module that fits is read back from its deck**, up to numbers that are
written as blanks: these read as zero.  It comes back exactly if it has no such
number. -/
theorem Module.read_emit {m : Module} (h : m.Fits) :
    readCards m.emit.flatten = (m.emit, none) ∧
    ∃ ds, decodeFrom 0 m.emit = .ok ds ∧
      ds.flatMap (·.content.symbolItems) = m.symbols.map Symbol.readBack ∧
      ds.flatMap (·.content.textItems) = (m.text.flatMap Text.pieces).map
        Text.readBack ∧
      ds.flatMap (·.content.relocationItems) = m.relocations ∧
      ds.flatMap (·.content.endItems) = [m.ending.readBack] ∧
      ((ds.flatMap (·.content.symbolItems) = m.symbols ∧
        ds.flatMap (·.content.textItems) = m.text.flatMap Text.pieces ∧
        ds.flatMap (·.content.endItems) = [m.ending]) ↔ m.Legible) := by
  obtain ⟨ds, groups, hds, hfilled, hgroups, hsymbols, htext,
      hrelocations, hending⟩ :=
    m.decoded_emit h.wellFormed
  have hnumbered : NumberedFrom 1 groups.flatten := hgroups ▸ h.numbered
  have hwell : ∀ s ∈ groups.flatten, s.WellFormed :=
    hgroups ▸ h.wellFormed.symbols
  have hids : ∀ s ∈ groups.flatten, s.id < 256 ^ 2 := by
    rw [hgroups]
    exact fun s hs => (h.symbols s hs).2.1
  have hcounted :=
    (countedFrom_groups_iff (by decide) hfilled hnumbered hwell).mpr hids
  have hexact := countedFrom_groups_eq_iff hfilled hnumbered hwell
  rw [← hsymbols, hgroups] at hcounted hexact
  have hinFields : m.relocations.map Relocation.readBack = m.relocations :=
    map_eq_self_iff.mpr fun r hr => r.readBack_eq_iff.mpr (h.relocations r hr).1
  have hidentified : readIdentifications m.ending.identificationColumns =
      m.ending.identifications :=
    readIdentifications_octets h.identifications.1 h.identifications.2 _
  have hend : ds.flatMap (·.content.endItems) = [m.ending.readBack] := by
    rw [hending, hidentified]
    rfl
  refine ⟨m.readCards_emit, ds, hds, hcounted, htext,
    hrelocations.trans hinFields, hend, ?_⟩
  rw [hexact, htext, map_readBack_pieces_iff, hend, List.singleton_inj]
  constructor
  · rintro ⟨⟨hid, hlegible⟩, hpieces, hback⟩
    exact ⟨hid, hlegible, hpieces, fun r hr => (h.relocations r hr).1,
      h.readBack_ending_iff.mp hback⟩
  · intro hlegible
    exact ⟨⟨hlegible.ids, hlegible.symbols⟩, hlegible.text,
      h.readBack_ending_iff.mpr hlegible.ending⟩

/-- A module with text at the address whose octets are all blanks. -/
def blankAddress : Module where
  deckId := bytes "D"
  symbols :=
    [{ name := bytes "A", type := .control, id := 1, length := 0x404042,
       addressingMode := bytes "31", residenceMode := bytes "ANY" },
      { name := bytes "X", type := .external, id := 2 },
      { name := bytes "E", type := .entry, address := 4, owner := 1 }]
  text := [⟨1, 0x404040, [0x07, 0x00]⟩]
  relocations := [⟨1, 2, 0x404040, 2, .add⟩, ⟨1, 2, 8, 4, .store⟩]
  ending :=
    { hasEntry := true, sectionId := 1, length := 8,
      identifications := [⟨bytes "ASM370", bytes "0100", bytes "26001"⟩] }

theorem blankAddress_fits : blankAddress.Fits := by
  refine ⟨?_, ?_, ?_, ?_, ?_, ?_⟩
  · intro s hs
    fin_cases hs
    · exact
        ⟨⟨by decide +kernel, by decide +kernel, by decide, by decide, by decide⟩,
        by decide, by decide, by decide, by decide⟩
    · exact
        ⟨⟨by decide +kernel, by decide +kernel, by decide, by decide, by decide⟩,
        by decide, by decide, by decide, by decide⟩
    · exact
        ⟨⟨by decide +kernel, by decide +kernel, by decide, by decide, by decide⟩,
        by decide, by decide, by decide, by decide⟩
  · exact ⟨blankAddress.symbols.take 2, blankAddress.symbols.drop 2,
      rfl, by decide, by decide, rfl⟩
  · decide
  · intro r hr
    fin_cases hr
    · exact ⟨⟨by decide, by decide, by decide⟩, by decide, by decide⟩
    · exact ⟨⟨by decide, by decide, by decide⟩, by decide, by decide⟩
  · exact ⟨⟨by decide +kernel, by decide +kernel, by decide, by decide⟩,
      by decide, by decide, by decide, by decide⟩
  · refine ⟨by decide, ?_⟩
    intro i hi
    fin_cases hi
    exact ⟨by decide +kernel, by decide +kernel,
      by decide +kernel⟩

/-- The text at the blank address comes back at address zero. -/
theorem Module.read_emit_blankAddress :
    blankAddress.Fits ∧ ¬ blankAddress.Legible ∧
      ∃ ds, decodeFrom 0 blankAddress.emit = .ok ds ∧
        ds.flatMap (·.content.symbolItems) = blankAddress.symbols ∧
        ds.flatMap (·.content.textItems) = [⟨1, 0, [0x07, 0x00]⟩] ∧
        ds.flatMap (·.content.relocationItems) = blankAddress.relocations ∧
        ds.flatMap (·.content.endItems) = [blankAddress.ending] := by
  obtain ⟨-, ds, hds, hsymbols, htext, hrelocations, hending, -⟩ :=
    Module.read_emit blankAddress_fits
  refine ⟨blankAddress_fits, ?_, ds, hds, ?_, ?_, hrelocations, ?_⟩
  · intro hlegible
    have htextLegible :=
      hlegible.text ⟨1, 0x404040, [0x07, 0x00]⟩ List.mem_cons_self
        ⟨1, 0x404040, [0x07, 0x00]⟩ List.mem_cons_self
    exact absurd htextLegible.address (by decide)
  · rw [hsymbols]
    decide +kernel
  · rw [htext]
    decide +kernel
  · rw [hending]
    decide +kernel

end Deck

end System370
