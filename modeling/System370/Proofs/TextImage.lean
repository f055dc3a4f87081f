import System370.Assembly
import System370.Proofs.PagedStorage
import System370.Proofs.Sorting

/-!
# The image of generated code

Generated code is a list of runs, and later runs overwrite earlier ones: the
octet of an address is that of the last run that covers it (`Run.image`).  Runs
are stored in a region and read back as texts.  This file relates the two:

* `Extent.covers_ofRuns`: the extents of some runs cover exactly what the runs
  cover;
* `Extent.pairwise_ofRuns`: extents are in order, and a gap is between two of
  one section, if sections do not overlap;
* `Workspace.exec_storeRuns_ok`, `Workspace.exec_storeRuns_fault`: runs can be
  stored if and only if all of them lie inside the region, and then the region
  holds their image;
* `Workspace.exec_readTexts`: the texts of extents are what the region holds.
-/

namespace System370

open StorageStep

/-! ### Octets by address -/

/-- The octet of a run at an address, if the run covers it. -/
def Run.octet? (r : Run) (address : Int) : Option UInt8 :=
  if r.start.toInt ≤ address then
    r.data[(address - r.start.toInt).toNat]? else none

/-- Whether a run covers an address. -/
def Run.Covers (r : Run) (address : Int) : Prop :=
  r.start.toInt ≤ address ∧ address < r.start.toInt + r.data.length

/-- The octet at an address after some runs: the one of the last run that covers
the address. -/
def Run.image (runs : List Run) (address : Int) : Option UInt8 :=
  runs.reverse.findSome? (·.octet? address)

/-- The octet of a text at an address, if the text covers it. -/
def Deck.Text.octet? (t : Deck.Text) (address : Int) : Option UInt8 :=
  if t.address.toInt ≤ address then
    t.data[(address - t.address.toInt).toNat]? else none

/-- The address behind a text. -/
def Deck.Text.stop (t : Deck.Text) : Int := t.address.toInt + t.data.length

/-- Whether a text covers an address. -/
def Deck.Text.Covers (t : Deck.Text) (address : Int) : Prop :=
  t.address.toInt ≤ address ∧ address < t.stop

/-- The octet at an address in some texts. -/
def Deck.Text.image (texts : List Deck.Text) (address : Int) : Option UInt8 :=
  texts.findSome? (·.octet? address)

namespace Run

/-- A run has octets just at the addresses that it covers. -/
theorem octet?_isSome_iff (r : Run) (address : Int) :
    (r.octet? address).isSome ↔ r.Covers address := by
  unfold octet? Covers
  split
  · rw [isSome_getElem?]
    omega
  · simp
    omega

/-- The image after one more run. -/
theorem image_cons (r : Run) (rest : List Run) (address : Int) :
    image (r :: rest) address = (image rest address).or (r.octet? address) := by
  simp [image, List.findSome?_append]

/-- An address has an octet just if some run covers it. -/
theorem image_isSome_iff (runs : List Run) (address : Int) :
    (image runs address).isSome ↔ ∃ r ∈ runs, r.Covers address := by
  simp [image, List.findSome?_isSome_iff, octet?_isSome_iff]

end Run

/-! ### Extents -/

namespace Extent

/-- Whether an extent covers an address. -/
def Covers (e : Extent) (address : Int) : Prop :=
  e.start.toInt ≤ address ∧ address < e.stop.toInt

/-- Whether an extent lies inside the bounds of its section. -/
def Inside (low high : Int → Int) (e : Extent) : Prop :=
  low e.sectionId ≤ e.start.toInt ∧ e.start.toInt < e.stop.toInt ∧
    e.stop.toInt ≤ high e.sectionId

/-- The first extent of a merged list begins where the list began. -/
theorem mergeInto_eq_cons (last : Extent) (rest : List Extent) :
    ∃ stop tail, mergeInto last rest = { last with stop } :: tail := by
  induction rest generalizing last with
  | nil => exact ⟨last.stop, [], rfl⟩
  | cons e rest ih =>
      unfold mergeInto
      split
      · split
        · exact ih _
        · exact ih _
      · exact ⟨last.stop, _, rfl⟩

/-- What the extent of two extents that touch covers. -/
theorem covers_join {last e : Extent}
    (hstart : last.start.toInt ≤ e.start.toInt) (htouch : e.start ≤ last.stop)
    (address : Int) :
    (if last.stop < e.stop then { last with stop := e.stop } else
      last).Covers address ↔
      last.Covers address ∨ e.Covers address := by
  rw [Int64.le_iff_toInt_le] at htouch
  unfold Covers
  split
  · rename_i hlonger
    rw [Int64.lt_iff_toInt_lt] at hlonger
    show last.start.toInt ≤ address ∧ address < e.stop.toInt ↔ _
    omega
  · rename_i hlonger
    rw [Int64.lt_iff_toInt_lt] at hlonger
    omega

/-- The join of two extents of a section lies inside the section. -/
theorem inside_join {low high : Int → Int} {last e : Extent}
    (hlast : last.Inside low high) (he : e.Inside low high)
    (hsection : last.sectionId = e.sectionId)
    (hstart : last.start.toInt ≤ e.start.toInt) :
    (if last.stop < e.stop then { last with stop := e.stop } else last).Inside
      low high := by
  unfold Inside at *
  split
  · refine ⟨hlast.1, ?_, ?_⟩
    · show last.start.toInt < e.stop.toInt
      omega
    · show e.stop.toInt ≤ high last.sectionId
      rw [hsection]
      exact he.2.2
  · exact hlast

/-- A joined extent begins where its first part did. -/
theorem start_join (last e : Extent) :
    (if last.stop < e.stop then { last with stop := e.stop } else last).start =
      last.start := by
  split <;> rfl

/-- Joining the first two of sorted extents leaves them sorted. -/
theorem sorted_join {last e : Extent} {rest : List Extent}
    (h : (last :: e :: rest).Pairwise fun e f => e.start.toInt ≤ f.start.toInt) :
    ((if last.stop < e.stop then { last with stop := e.stop } else last) ::
      rest).Pairwise fun e f => e.start.toInt ≤ f.start.toInt := by
  obtain ⟨hlast, hrest⟩ := List.pairwise_cons.mp h
  refine List.pairwise_cons.mpr
    ⟨fun f hf => ?_, (List.pairwise_cons.mp hrest).2⟩
  rw [start_join]
  exact hlast f (List.mem_cons_of_mem _ hf)

/-- So it does leave them inside their sections. -/
theorem inside_cons_join {low high : Int → Int} {last e : Extent}
    {rest : List Extent}
    (hsorted : (last :: e :: rest).Pairwise fun e f =>
      e.start.toInt ≤ f.start.toInt)
    (hinside : ∀ f ∈ last :: e :: rest, f.Inside low high)
    (hsection : last.sectionId = e.sectionId) :
    ∀ f ∈ (if last.stop < e.stop then { last with stop := e.stop } else last) ::
      rest, f.Inside low high := by
  intro f hf
  rcases List.mem_cons.mp hf with rfl | hf
  · exact inside_join (hinside last List.mem_cons_self)
      (hinside e (List.mem_cons_of_mem _ List.mem_cons_self)) hsection
      ((List.pairwise_cons.mp hsorted).1 e List.mem_cons_self)
  · exact hinside f (List.mem_cons_of_mem _ (List.mem_cons_of_mem _ hf))

/-- Merging keeps the addresses that are covered. -/
theorem covers_mergeInto {last : Extent} {rest : List Extent}
    (hsorted : (last :: rest).Pairwise fun e f => e.start.toInt ≤ f.start.toInt)
    (address : Int) :
    (∃ e ∈ mergeInto last rest, e.Covers address) ↔ ∃ e ∈ last :: rest,
    e.Covers address := by
  induction rest generalizing last with
  | nil => simp [mergeInto]
  | cons e rest ih =>
      obtain ⟨hlast, hrest⟩ := List.pairwise_cons.mp hsorted
      unfold mergeInto
      split
      · rename_i hjoin
        have hstart := hlast e List.mem_cons_self
        rw [ih (sorted_join hsorted)]
        simp only [List.mem_cons, exists_eq_or_imp,
          covers_join hstart hjoin.2, or_assoc]
      · have hrest' := ih hrest
        simp only [List.mem_cons, exists_eq_or_imp] at hrest' ⊢
        rw [hrest']

/-- Merging keeps extents inside their sections. -/
theorem inside_mergeInto {low high : Int → Int} {last : Extent}
    {rest : List Extent}
    (hsorted : (last :: rest).Pairwise fun e f => e.start.toInt ≤ f.start.toInt)
    (hinside : ∀ e ∈ last :: rest, e.Inside low high) :
    ∀ e ∈ mergeInto last rest, e.Inside low high := by
  induction rest generalizing last with
  | nil => simpa [mergeInto] using hinside
  | cons e rest ih =>
      obtain ⟨-, hrest⟩ := List.pairwise_cons.mp hsorted
      unfold mergeInto
      split
      · rename_i hjoin
        exact ih (sorted_join hsorted) (inside_cons_join hsorted hinside hjoin.1)
      · intro f hf
        rcases List.mem_cons.mp hf with rfl | hf
        · exact hinside _ List.mem_cons_self
        · exact ih hrest
            (fun g hg => hinside g (List.mem_cons_of_mem _ hg)) f hf

/-- One extent ends before another begins, and a gap is between two of one
section. -/
def Before (e f : Extent) : Prop :=
  e.stop.toInt ≤ f.start.toInt ∧
    (e.sectionId = f.sectionId → e.stop.toInt < f.start.toInt)

/-- Sections that do not overlap. -/
def Apart (low high : Int → Int) : Prop := ∀ i j, i ≠ j → high i ≤ low j ∨
  high j ≤ low i

/-- Extents that are not joined come one before the other, if sections do not
overlap. -/
theorem before_of_not_joined {low high : Int → Int} (hapart : Apart low high)
    {last e : Extent} (hlast : last.Inside low high) (he : e.Inside low high)
    (hstart : last.start.toInt ≤ e.start.toInt)
    (hsplit : ¬ (last.sectionId = e.sectionId ∧ e.start ≤ last.stop)) :
    last.Before e := by
  unfold Inside at hlast he
  unfold Before
  by_cases hsame : last.sectionId = e.sectionId
  · have hgap : ¬ e.start ≤ last.stop := fun hle => hsplit ⟨hsame, hle⟩
    rw [Int64.le_iff_toInt_le] at hgap
    exact ⟨by omega, fun _ => by omega⟩
  · rcases hapart _ _ hsame with h | h
    · exact ⟨by omega, fun h => absurd h hsame⟩
    · omega

/-- Merged extents come one before the other, if sections do not overlap. -/
theorem pairwise_mergeInto {low high : Int → Int} (hapart : Apart low high)
    {last : Extent} {rest : List Extent}
    (hsorted : (last :: rest).Pairwise fun e f => e.start.toInt ≤ f.start.toInt)
    (hinside : ∀ e ∈ last :: rest, e.Inside low high) :
    (mergeInto last rest).Pairwise Before := by
  induction rest generalizing last with
  | nil => exact List.pairwise_singleton _ last
  | cons e rest ih =>
      obtain ⟨hlast, hrest⟩ := List.pairwise_cons.mp hsorted
      unfold mergeInto
      split
      · rename_i hjoin
        exact ih (sorted_join hsorted) (inside_cons_join hsorted hinside hjoin.1)
      · rename_i hsplit
        have hbefore : last.stop.toInt ≤ e.start.toInt ∧
            (last.sectionId = e.sectionId → last.stop.toInt < e.start.toInt) :=
          before_of_not_joined hapart (hinside last List.mem_cons_self)
            (hinside e (List.mem_cons_of_mem _ List.mem_cons_self))
            (hlast e List.mem_cons_self) hsplit
        have hins : ∀ f ∈ e :: rest, f.Inside low high :=
          fun f hf => hinside f (List.mem_cons_of_mem _ hf)
        have htail := ih hrest hins
        refine List.pairwise_cons.mpr ⟨fun f hf => ?_, htail⟩
        -- the first of the rest begins where `e` does, and the others behind
        -- its end
        obtain ⟨stop, tail, heq⟩ := mergeInto_eq_cons e rest
        have hhead := inside_mergeInto hrest hins { e with stop }
          (by rw [heq]; exact List.mem_cons_self)
        rw [heq] at hf htail
        rcases List.mem_cons.mp hf with rfl | hf
        · exact hbefore
        · have hnext := ((List.pairwise_cons.mp htail).1 f hf).1
          have hlong := hhead.2.1
          simp only at hnext hlong
          exact ⟨by omega, fun _ => by omega⟩

section Runs

variable {runs : List Run}

/-- The end of the extent of a run that does not wrap. -/
theorem stop_ofRun {r : Run} (hlow : 0 ≤ r.start.toInt)
    (hhigh : r.start.toInt + r.data.length < 2 ^ 63) :
    (ofRun r).stop.toInt = r.start.toInt + r.data.length := by
  have hlength : (Int64.ofNat r.data.length).toInt = r.data.length :=
    Int64.toInt_ofNat_of_lt (by omega)
  show (r.start + Int64.ofNat r.data.length).toInt = _
  rw [toInt_add_of_range (by omega) (by omega), hlength]

/-- The extent of a run covers what the run covers. -/
theorem covers_ofRun {r : Run} (hlow : 0 ≤ r.start.toInt)
    (hhigh : r.start.toInt + r.data.length < 2 ^ 63) (address : Int) :
    (ofRun r).Covers address ↔ r.Covers address := by
  unfold Covers Run.Covers
  rw [stop_ofRun hlow hhigh]
  rfl

/-- The sorted extents of runs are those of the runs. -/
theorem mem_sorted_iff (e : Extent) :
    e ∈ sortByKey (·.start.toInt) (runs.map ofRun) ↔ ∃ r ∈ runs,
    ofRun r = e := by
  rw [(sortByKey_perm _ _).mem_iff, List.mem_map]

/-- **Extents cover what the runs cover.** -/
theorem covers_ofRuns
    (hrange : ∀ r ∈ runs, 0 ≤ r.start.toInt ∧
      r.start.toInt + r.data.length < 2 ^ 63) (address : Int) :
    (∃ e ∈ ofRuns runs, e.Covers address) ↔ ∃ r ∈ runs, r.Covers address := by
  have hsorted :
      (∃ e ∈ sortByKey (·.start.toInt) (runs.map ofRun), e.Covers address) ↔
      ∃ r ∈ runs, r.Covers address := by
    constructor
    · rintro ⟨e, he, hcovers⟩
      obtain ⟨r, hr, rfl⟩ := (mem_sorted_iff e).mp he
      exact ⟨r, hr,
        (covers_ofRun (hrange r hr).1 (hrange r hr).2 address).mp hcovers⟩
    · rintro ⟨r, hr, hcovers⟩
      exact ⟨ofRun r, (mem_sorted_iff _).mpr ⟨r, hr, rfl⟩,
        (covers_ofRun (hrange r hr).1 (hrange r hr).2 address).mpr hcovers⟩
  rw [← hsorted]
  have hpair :=
    sortByKey_pairwise (fun e : Extent => e.start.toInt) (runs.map ofRun)
  unfold ofRuns
  cases hsort :
    sortByKey (fun e : Extent => e.start.toInt) (runs.map ofRun) with
  | nil => simp
  | cons first rest => exact covers_mergeInto (hsort ▸ hpair) address

/-- Sorted or not, the extents lie inside the sections of their runs. -/
theorem inside_sorted {low high : Int → Int}
    (hinside : ∀ r ∈ runs, (ofRun r).Inside low high) :
    ∀ e ∈ sortByKey (·.start.toInt) (runs.map ofRun), e.Inside low high := by
  intro e he
  obtain ⟨r, hr, rfl⟩ := (mem_sorted_iff e).mp he
  exact hinside r hr

/-- Extents lie inside the sections of their runs. -/
theorem inside_ofRuns {low high : Int → Int}
    (hinside : ∀ r ∈ runs, (ofRun r).Inside low high) :
    ∀ e ∈ ofRuns runs, e.Inside low high := by
  have hpair :=
    sortByKey_pairwise (fun e : Extent => e.start.toInt) (runs.map ofRun)
  have hall := inside_sorted hinside
  unfold ofRuns
  cases hsort :
    sortByKey (fun e : Extent => e.start.toInt) (runs.map ofRun) with
  | nil => simp
  | cons first rest => exact inside_mergeInto (hsort ▸ hpair) (hsort ▸ hall)

/-- **Extents come one before the other, and a gap is between two of one
section**, if sections do not overlap. -/
theorem pairwise_ofRuns {low high : Int → Int} (hapart : Apart low high)
    (hinside : ∀ r ∈ runs, (ofRun r).Inside low high) :
    (ofRuns runs).Pairwise Before := by
  have hpair :=
    sortByKey_pairwise (fun e : Extent => e.start.toInt) (runs.map ofRun)
  have hall := inside_sorted hinside
  unfold ofRuns
  cases hsort :
    sortByKey (fun e : Extent => e.start.toInt) (runs.map ofRun) with
  | nil => exact List.Pairwise.nil
  | cons first rest =>
      exact pairwise_mergeInto hapart (hsort ▸ hpair) (hsort ▸ hall)

end Runs

end Extent

/-! ### Runs in storage -/

namespace Region

variable {a a' : Arena} {r : Region}

/-- A step on a region leaves its bounds alone. -/
theorem Frame.contains (h : Frame r a a') {offset : Int64} {length : Nat} :
    r.Contains a' offset length ↔ r.Contains a offset length := by
  simp only [Contains, h.pageSize]

end Region

namespace Workspace

variable {region : Region}

/-- **Runs inside a region can be stored**, and then the region holds their
image. -/
theorem exec_storeRuns_ok {a : Arena} {runs : List Run} (h : region.Backed a)
    (hin : ∀ r ∈ runs, region.Contains a r.start r.data.length) :
    ∃ a', exec (storeRuns region runs) a = (.ok (), a') ∧ region.Backed a' ∧
      region.Frame a a' ∧
      ∀ offset : Nat, region.octet? a' offset =
        (Run.image runs offset).or (region.octet? a offset) := by
  induction runs generalizing a with
  | nil =>
      exact ⟨a, rfl, h, Region.Frame.refl region a,
        fun offset => by simp [Run.image]⟩
  | cons r rest ih =>
      have hr := hin r List.mem_cons_self
      obtain ⟨b, hwrite, hbacked, hframe, hover⟩ := Region.exec_write_ok h hr
      obtain ⟨a', hrest, hbacked', hframe', himage⟩ := ih hbacked
        fun s hs => hframe.contains.mpr (hin s (List.mem_cons_of_mem _ hs))
      refine ⟨a', (exec_bind_ok hwrite).trans hrest, hbacked',
        hframe.trans hframe', ?_⟩
      intro offset
      have hoctet : region.octet? b offset =
          (r.octet? offset).or (region.octet? a offset) := by
        rw [hover offset, Run.octet?]
        have hlow := hr.1
        by_cases hcovers : r.start.toInt.toNat ≤ offset ∧
            offset < r.start.toInt.toNat + r.data.length
        · have hindex : ((offset : Int) - r.start.toInt).toNat =
              offset - r.start.toInt.toNat := by
            omega
          have hlt : offset - r.start.toInt.toNat < r.data.length := by omega
          rw [if_pos hcovers, if_pos (by omega), hindex,
            List.getElem?_eq_getElem hlt, Option.some_or]
        · rw [if_neg hcovers]
          split
          · rw [List.getElem?_eq_none_iff.mpr (by omega), Option.none_or]
          · rw [Option.none_or]
      rw [himage offset, Run.image_cons, hoctet, Option.or_assoc]

/-- **Runs of which one is not inside the region cannot be stored.** -/
theorem exec_storeRuns_fault {a : Arena} {runs : List Run} (h : region.Backed a)
    (hpages : region.pages.length * a.pageSize < 2 ^ 63)
    (hdata : ∀ r ∈ runs, r.data ≠ [] ∧ r.data.length < 2 ^ 63)
    (hout : ∃ r ∈ runs, ¬ region.Contains a r.start r.data.length) :
    ∃ e a', exec (storeRuns region runs) a = (.error e, a') := by
  induction runs generalizing a with
  | nil => simp at hout
  | cons r rest ih =>
      obtain ⟨hsome, hshort⟩ := hdata r List.mem_cons_self
      by_cases hin : region.Contains a r.start r.data.length
      · obtain ⟨b, hwrite, hbacked, hframe, -⟩ := Region.exec_write_ok h hin
        have hrest : ∃ s ∈ rest, ¬ region.Contains b s.start s.data.length := by
          obtain ⟨s, hs, hsout⟩ := hout
          rcases List.mem_cons.mp hs with rfl | hs
          · exact absurd hin hsout
          · exact ⟨s, hs, fun hc => hsout (hframe.contains.mp hc)⟩
        obtain ⟨e, a', hfault⟩ := ih hbacked (hframe.pageSize ▸ hpages)
          (fun s hs => hdata s (List.mem_cons_of_mem _ hs)) hrest
        exact ⟨e, a', (exec_bind_ok hwrite).trans hfault⟩
      · obtain ⟨e, a', hfault⟩ :=
          Region.exec_write_fault h hsome hshort hpages hin
        exact ⟨e, a', exec_bind_error hfault⟩

/-- The text of an extent of a region. -/
def textOf (a : Arena) (region : Region) (e : Extent) : Deck.Text :=
  ⟨e.sectionId, e.start, region.octetsFrom a e.start.toInt.toNat
      (e.stop.toInt - e.start.toInt).toNat⟩

/-- Whether an extent can be read from a region. -/
def Readable (a : Arena) (region : Region) (e : Extent) : Prop :=
  0 ≤ e.start.toInt ∧ e.start.toInt ≤ e.stop.toInt ∧
    e.stop.toInt ≤ region.size.toInt ∧
    e.stop.toInt ≤ region.pages.length * a.pageSize

/-- The texts of extents are what the region holds. -/
theorem exec_readTexts {a : Arena} {extents : List Extent}
    (h : region.Backed a) (hin : ∀ e ∈ extents, Readable a region e) :
    exec (readTexts region extents) a =
      (.ok (extents.map (textOf a region)), a) := by
  unfold readTexts
  induction extents with
  | nil => rfl
  | cons e rest ih =>
      obtain ⟨hlow, horder, hsize, hpages⟩ := hin e List.mem_cons_self
      have hlength : (e.stop - e.start).toInt =
          e.stop.toInt - e.start.toInt := by
        have := e.stop.toInt_lt
        exact toInt_sub_of_range (by omega) (by omega)
      have hread : exec (region.read e.start (e.stop - e.start)) a =
          (.ok (region.octetsFrom a e.start.toInt.toNat
            (e.stop.toInt - e.start.toInt).toNat), a) := by
        rw [← hlength]
        refine Region.exec_read_ok h (by omega) ⟨hlow, ?_, ?_⟩
        · omega
        · omega
      have hrest := ih fun f hf => hin f (List.mem_cons_of_mem _ hf)
      rw [List.mapM_cons]
      refine (exec_bind_ok (v := textOf a region e) ?_).trans
        ((exec_bind_ok hrest).trans rfl)
      exact (exec_bind_ok hread).trans rfl

/-- A text ends where its extent ends. -/
theorem stop_textOf {a : Arena} {e : Extent}
    (horder : e.start.toInt ≤ e.stop.toInt) :
    (textOf a region e).stop = e.stop.toInt := by
  show e.start.toInt + _ = _
  rw [textOf, Region.length_octetsFrom]
  omega

/-- A text covers what its extent covers. -/
theorem covers_textOf {a : Arena} {e : Extent}
    (horder : e.start.toInt ≤ e.stop.toInt) (address : Int) :
    (textOf a region e).Covers address ↔ e.Covers address := by
  unfold Deck.Text.Covers
  rw [stop_textOf horder]
  rfl

/-- The octets of a text are those of the region. -/
theorem octet?_textOf {a : Arena} {e : Extent} (hlow : 0 ≤ e.start.toInt)
    {address : Int} (hcovers : e.Covers address) :
    (textOf a region e).octet? address =
      some ((region.octet? a address.toNat).getD 0) := by
  obtain ⟨hstart, hstop⟩ := hcovers
  have hlt : (address - e.start.toInt).toNat <
      (e.stop.toInt - e.start.toInt).toNat := by
    omega
  have hoffset : e.start.toInt.toNat + (address - e.start.toInt).toNat =
      address.toNat := by
    omega
  have hdata : (textOf a region e).octet? address =
      (textOf a region e).data[(address - e.start.toInt).toNat]? :=
    if_pos hstart
  rw [hdata, textOf, Region.octetsFrom, List.getElem?_map,
    List.getElem?_range hlt, Option.map_some, hoffset]

end Workspace

namespace Deck.Text

/-- A text has octets just at the addresses that it covers. -/
theorem octet?_isSome_iff (t : Text) (address : Int) :
    (t.octet? address).isSome ↔ t.Covers address := by
  unfold octet? Covers stop
  split
  · rw [isSome_getElem?]
    omega
  · simp
    omega

/-- Texts have octets just at the addresses that one of them covers. -/
theorem image_isSome_iff (texts : List Text) (address : Int) :
    (image texts address).isSome ↔ ∃ t ∈ texts, t.Covers address := by
  unfold image
  simp only [List.isSome_findSome?, List.any_eq_true, octet?_isSome_iff]

/-- Texts that cover what an image has, with its octets, have that image. -/
theorem image_eq {texts : List Text} {octets : Int → Option UInt8}
    (hcovers : ∀ address, (∃ t ∈ texts, t.Covers address) ↔
      (octets address).isSome)
    (hoctets : ∀ t ∈ texts, ∀ address, t.Covers address →
      t.octet? address = octets address) (address : Int) :
    image texts address = octets address := by
  unfold image
  cases hfound : texts.findSome? (·.octet? address) with
  | none =>
      symm
      rw [← Option.not_isSome_iff_eq_none, ← hcovers address]
      rintro ⟨t, ht, hc⟩
      have := List.findSome?_eq_none_iff.mp hfound t ht
      rw [← octet?_isSome_iff, this] at hc
      simp at hc
  | some b =>
      obtain ⟨t, ht, heq⟩ := List.exists_of_findSome?_eq_some hfound
      have hc : t.Covers address := by
        rw [← octet?_isSome_iff, heq]
        rfl
      rw [← hoctets t ht address hc, heq]

end Deck.Text

end System370
