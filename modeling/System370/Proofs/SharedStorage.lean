import System370.Proofs.PagedStorage
import Mathlib.Data.List.Nodup
import Mathlib.Data.List.Perm.Basic

/-!
# Storage that many share

Several regions and single pages live in one arena.  Nobody sees anything of the
others: a region is a flat sequence of octets, a page is another one, and what
happens to one of them leaves the others as they are.

`FlatStorage` is what the users of an arena see, `FlatStorage.Step` is what a
call does to it.  A `StorageSession` is the arena itself with the regions made
in it, and `StorageSession.perform` is what a call does there.

The arena is `HeldBy` its users: every page is either in the hands of just one
of them or free.  Every call keeps that (`StorageSession.Shows.answers`), so a
page that is handed out belongs to nobody else, whatever it held before.

* `StorageSession.run_flat`: whatever calls are made, a session answers as flat
  storage does, the pages in use are those that somebody holds, and a call that
  fails changes nothing.

A region is flat unless its number of pages wraps.  If size and page together
exceed 2^63, it has no octet at all (`FlatRegion.zero`).
-/

namespace System370

open StorageStep

namespace Arena

/-! ### Pages and their holders -/

/-- Every page of an arena is held by somebody or free, and none of them
twice. -/
structure HeldBy (a : Arena) (held : List Nat) : Prop where
  sound : a.Sound
  holds : ∀ handle ∈ held, ∃ data, a.Holds handle data
  perm : (held ++ a.free).Perm (List.range a.pages.length)

namespace HeldBy

variable {a a' : Arena} {held : List Nat}

/-- The order of pages does not matter. -/
theorem congr (h : a.HeldBy held) {others : List Nat}
    (hperm : held.Perm others) :
    a.HeldBy others :=
  ⟨h.sound, fun handle hh => h.holds handle (hperm.mem_iff.mpr hh),
    (hperm.symm.append_right a.free).trans h.perm⟩

/-- No page is held twice. -/
theorem nodup (h : a.HeldBy held) : held.Nodup :=
  (h.perm.nodup_iff.mpr List.nodup_range).of_append_left

/-- **The pages in use** are those that somebody holds. -/
theorem inUse (h : a.HeldBy held) : a.inUse = held.length := by
  have hcount := h.perm.length_eq
  rw [List.length_append, List.length_range] at hcount
  unfold Arena.inUse
  omega

/-- A handle that nobody holds is of no use. -/
theorem usedPage (h : a.HeldBy held) {handle : Int}
    (hfree : ∀ other ∈ held, (other : Int) ≠ handle) (unused : StorageFault) :
    ∃ e, a.usedPage handle unused = .error e := by
  unfold Arena.usedPage
  by_cases hneg : handle < 0
  · rw [if_pos hneg]
    exact ⟨_, rfl⟩
  · rw [if_neg hneg]
    cases hpage : a.pages[handle.toNat]? with
    | none => exact ⟨_, rfl⟩
    | some page =>
        have hrange : handle.toNat ∈ List.range a.pages.length :=
          List.mem_range.mpr (List.getElem?_eq_some_iff.mp hpage).1
        rcases List.mem_append.mp (h.perm.mem_iff.mpr hrange) with hheld | hmem
        · exact absurd (Int.toNat_of_nonneg (by omega)) (hfree _ hheld)
        · obtain ⟨other, hother, hunused⟩ := h.sound.free_unused _ hmem
          rw [hpage] at hother
          obtain rfl := Option.some.inj hother
          simp only [hunused, Bool.false_eq_true, if_false]
          exact ⟨_, rfl⟩

/-- An acquired page is in the hands of the one who asked for it. -/
theorem acquired (h : a.HeldBy held) :
    a.acquired.2.HeldBy (a.acquired.1 :: held) := by
  obtain ⟨hsound, hkeeps, hholds, -⟩ := acquired_spec h.sound
  refine ⟨hsound, fun handle hh => ?_, ?_⟩
  · rcases List.mem_cons.mp hh with rfl | hh
    · exact ⟨_, hholds⟩
    · obtain ⟨data, hdata⟩ := h.holds handle hh
      exact ⟨data, hkeeps.holds hdata⟩
  · have hperm := h.perm
    unfold Arena.acquired
    cases hfree : a.free with
    | nil =>
        rw [hfree, List.append_nil] at hperm
        simp only [List.append_nil, List.length_append, List.length_singleton,
          List.range_succ]
        exact (hperm.cons _).trans (List.perm_append_singleton _ _).symm
    | cons first rest =>
        rw [hfree] at hperm
        simp only [List.length_set]
        exact List.perm_middle.symm.trans hperm

/-- A page that is given back is in nobody's hands. -/
theorem freed {handle : Nat} {data : Bytes} (h : a.HeldBy (handle :: held))
    (hdata : a.Holds handle data) : (a.freed handle data).HeldBy held := by
  refine ⟨h.sound.freed hdata, fun other hother => ?_, ?_⟩
  · have hne : handle ≠ other := by
      rintro rfl
      exact (List.nodup_cons.mp h.nodup).1 hother
    obtain ⟨data', hdata'⟩ := h.holds other (List.mem_cons_of_mem _ hother)
    exact ⟨data', (a.getElem?_freed_ne hne data).trans hdata'.1, hdata'.2⟩
  · show (held ++ handle :: a.free).Perm
      (List.range (a.pages.set handle _).length)
    rw [List.length_set]
    exact List.perm_middle.trans h.perm

/-- Pages that are given back one after the other. -/
theorem exec_releaseAll {handles : List Nat} (h : a.HeldBy (handles ++ held)) :
    ∃ a',
    exec (handles.forM fun handle => Arena.release handle) a = (.ok (), a') ∧
      a'.HeldBy held ∧ a'.pageSize = a.pageSize ∧
      ∀ handle, handle ∉ handles → a'.pages[handle]? = a.pages[handle]? := by
  induction handles generalizing a with
  | nil => exact ⟨a, rfl, h, rfl, fun _ _ => rfl⟩
  | cons handle rest ih =>
      obtain ⟨data, hdata⟩ := h.holds handle (by simp)
      obtain ⟨a', hrun, hheld, hsize, hothers⟩ := ih (h.freed hdata)
      refine ⟨a', (exec_bind_ok (exec_freed hdata)).trans hrun,
        hheld, hsize, ?_⟩
      intro other hother
      rw [List.mem_cons, not_or] at hother
      exact (hothers other hother.2).trans
        (a.getElem?_freed_ne (Ne.symm hother.1) data)

/-- Acquired pages are in the hands of the one who asked for them. -/
theorem exec_acquirePages (h : a.HeldBy held) {count : Nat} {handles : List Nat}
    (hrun : exec (Region.acquirePages count) a = (.ok handles, a')) :
    a'.HeldBy (handles ++ held) := by
  induction count generalizing a held handles with
  | zero =>
      obtain ⟨hnil, rfl⟩ := Prod.mk.inj hrun
      obtain rfl := Except.ok.inj hnil
      exact h
  | succ count ih =>
      obtain ⟨rest, b, hrest, -⟩ :=
        Region.exec_acquirePages h.acquired.sound count
      have hfirst : exec Arena.acquire a = (.ok a.acquired.1, a.acquired.2) :=
        rfl
      rw [Region.acquirePages, exec_bind_ok hfirst, exec_bind_ok hrest] at hrun
      obtain ⟨hcons, rfl⟩ := Prod.mk.inj hrun
      obtain rfl := Except.ok.inj hcons
      exact (ih h.acquired hrest).congr List.perm_middle

/-- A step on some pages leaves the holders alone. -/
theorem frame (h : a.HeldBy held) {r : Region} (hbacked : r.Backed a)
    (hbacked' : r.Backed a') (hframe : r.Frame a a') : a'.HeldBy held := by
  have hlength : a'.pages.length = a.pages.length := by
    apply Nat.le_antisymm
    · by_contra hless
      have hnone : a.pages[a.pages.length]? = none :=
        List.getElem?_eq_none (Nat.le_refl _)
      have hout : a.pages.length ∉ r.pages := by
        intro hin
        obtain ⟨data, hdata⟩ := hbacked.holds _ hin
        rw [hdata.1] at hnone
        simp at hnone
      rw [← hframe.others _ hout, List.getElem?_eq_none_iff] at hnone
      omega
    · by_contra hless
      have hnone : a'.pages[a'.pages.length]? = none :=
        List.getElem?_eq_none (Nat.le_refl _)
      have hout : a'.pages.length ∉ r.pages := by
        intro hin
        obtain ⟨data, hdata⟩ := hbacked'.holds _ hin
        rw [hdata.1] at hnone
        simp at hnone
      rw [hframe.others _ hout, List.getElem?_eq_none_iff] at hnone
      omega
  refine ⟨hframe.sound h.sound hbacked hbacked', fun handle hheld => ?_, ?_⟩
  · by_cases hin : handle ∈ r.pages
    · exact hbacked'.holds handle hin
    · obtain ⟨data, hdata⟩ := h.holds handle hheld
      exact ⟨data, (hframe.others handle hin).trans hdata.1,
        hdata.2.trans hframe.pageSize.symm⟩
  · rw [hframe.free, hlength]
    exact h.perm

end HeldBy

end Arena

/-! ### What the users of an arena see -/

/-- A region as its user sees it: the size it was made for, and its octets. -/
structure FlatRegion where
  size : Nat
  octets : Bytes
  deriving DecidableEq, Repr

namespace FlatRegion

/-- A new region is all zero.  If its number of pages wraps, it has no
octets. -/
def zero (pageSize size : Nat) : FlatRegion :=
  ⟨size, List.replicate (if size + pageSize ≤ 2 ^ 63 then size else 0) 0⟩

/-- A region that was given back. -/
def gone : FlatRegion := ⟨0, []⟩

/-- Whether a stretch of octets lies inside the region. -/
def Reaches (r : FlatRegion) (offset length : Int) : Prop :=
  0 ≤ offset ∧ 0 ≤ length ∧ offset + length ≤ r.size ∧
    (length = 0 ∨ offset + length ≤ r.octets.length)

instance (r : FlatRegion) (offset length : Int) :
    Decidable (r.Reaches offset length) :=
  inferInstanceAs (Decidable (_ ∧ _))

/-- The region with octets replaced from an offset on. -/
def overlay (r : FlatRegion) (offset : Nat) (data : Bytes) : FlatRegion :=
  { r with octets :=
    r.octets.take offset ++ data ++ r.octets.drop (offset + data.length) }

/-- Octets from an offset on. -/
def slice (r : FlatRegion) (offset length : Nat) : Bytes :=
  (r.octets.drop offset).take length

/-- How many pages the octets take. -/
def pageCount (r : FlatRegion) (pageSize : Nat) : Nat :=
  (r.octets.length + pageSize - 1) / pageSize

theorem length_overlay {r : FlatRegion} {offset : Nat} {data : Bytes}
    (h : offset + data.length ≤ r.octets.length) :
    (r.overlay offset data).octets.length = r.octets.length := by
  simp only [overlay, List.length_append, List.length_take, List.length_drop]
  omega

/-- Replacing octets changes just those that the data covers. -/
theorem getElem?_overlay {r : FlatRegion} {offset : Nat}
    {data : Bytes} (h : offset + data.length ≤ r.octets.length)
    {i : Nat} (hi : i < r.octets.length) :
    (r.overlay offset data).octets[i]? =
      if offset ≤ i ∧ i < offset + data.length then data[i - offset]? else
        r.octets[i]? := by
  have hfit : data.take (r.octets.length - offset) = data :=
    List.take_of_length_le (by omega)
  have hsame : (r.overlay offset data).octets =
      Arena.overlay offset data r.octets := by
    simp only [overlay, Arena.overlay, hfit]
  rw [hsame, Arena.getElem?_overlay _ _ _ _ hi]

/-- Replacing no octets changes nothing. -/
theorem overlay_nil (r : FlatRegion) (offset : Nat) :
    r.overlay offset [] = r := by
  simp [overlay]

end FlatRegion

namespace Region

variable {a a' : Arena} {r : Region} {flat : FlatRegion}

/-- A region on its pages is what its user sees. -/
structure Shows (a : Arena) (r : Region) (flat : FlatRegion) : Prop where
  backed : r.Backed a
  size : r.size.toInt = flat.size
  count : r.pages.length = flat.pageCount a.pageSize
  octets : ∀ i < flat.octets.length, octet? a r i = flat.octets[i]?
  whole : flat.octets = [] ∨
    flat.octets.length = flat.size ∧ flat.size + a.pageSize ≤ 2 ^ 63

/-- The pages reach to the end of the octets, and less than a page further. -/
theorem Shows.reach (h : Shows a r flat) :
    flat.octets.length ≤ r.pages.length * a.pageSize ∧
      r.pages.length * a.pageSize ≤ flat.octets.length + a.pageSize - 1 := by
  have hpos := h.backed.pageSize_pos
  have hover := Nat.div_add_mod (flat.octets.length + a.pageSize - 1) a.pageSize
  have hmod := Nat.mod_lt (flat.octets.length + a.pageSize - 1) hpos
  rw [h.count, FlatRegion.pageCount, Nat.mul_comm]
  omega

/-- A region without octets has no pages. -/
theorem Shows.count_of_nil (h : Shows a r flat) (hnil : flat.octets = []) :
    r.pages.length = 0 := by
  have hcount := h.count
  rwa [FlatRegion.pageCount, hnil, List.length_nil, Nat.zero_add,
    Nat.div_eq_of_lt (Nat.sub_lt h.backed.pageSize_pos Nat.one_pos)] at hcount

/-- The pages have addresses of 64 bits. -/
theorem Shows.reach_lt (h : Shows a r flat) :
    r.pages.length * a.pageSize < 2 ^ 63 := by
  have hreach := h.reach
  rcases h.whole with hnil | ⟨hwhole, hfit⟩
  · rw [h.count_of_nil hnil]
    omega
  · have hpos := h.backed.pageSize_pos
    omega

/-- A region of which nobody changed a page shows what it showed. -/
theorem Shows.congr (h : Shows a r flat) (hsize : a'.pageSize = a.pageSize)
    (hpages : ∀ handle ∈ r.pages, a'.pages[handle]? = a.pages[handle]?) :
    Shows a' r flat := by
  refine ⟨⟨hsize ▸ h.backed.pageSize_pos, h.backed.nodup, fun handle hh => ?_⟩,
    h.size, by rw [h.count, hsize], fun i hi => ?_, hsize ▸ h.whole⟩
  · obtain ⟨data, hdata⟩ := h.backed.holds handle hh
    exact ⟨data, (hpages handle hh).trans hdata.1, hdata.2.trans hsize.symm⟩
  · rw [← h.octets i hi]
    unfold octet?
    rw [hsize]
    cases hpage : r.pages[i / a.pageSize]? with
    | none => rfl
    | some handle =>
        rw [Option.bind_some, Option.bind_some,
          hpages handle (List.mem_of_getElem? hpage)]

theorem shows_gone (hpos : 0 < a.pageSize) :
    Shows a ⟨[], 0⟩ FlatRegion.gone := by
  refine ⟨⟨hpos, by simp, by simp⟩, rfl,
    ?_, by simp [FlatRegion.gone], Or.inl rfl⟩
  simp [FlatRegion.gone, FlatRegion.pageCount,
    Nat.div_eq_of_lt (Nat.sub_lt hpos Nat.one_pos)]

/-- The check of a region refuses a stretch that does not end inside it, whether
its end wraps or not. -/
theorem exec_check_refused {offset length : Int64}
    (h : offset.toInt < 0 ∨ length.toInt < 0 ∨
      r.size.toInt < (offset + length).toInt) :
    exec (r.check offset length) a =
      (.error (.outside offset (offset + length) r.size), a) := by
  rw [check, if_pos]
  · exact exec_throw _ a
  · simpa only [Int64.lt_iff_toInt_lt, Int64.toInt_zero] using h

/-- Bounds that hold are passed. -/
theorem exec_check_passed {offset length : Int64}
    (hoffset : 0 ≤ offset.toInt) (hlength : 0 ≤ length.toInt)
    (hend : (offset + length).toInt ≤ r.size.toInt) :
    exec (r.check offset length) a = (.ok (), a) := by
  rw [check, if_neg]
  · rfl
  · simp only [Int64.lt_iff_toInt_lt, Int64.toInt_zero]
    omega

/-- **A write inside a region** replaces the octets it covers. -/
theorem Shows.write (h : Shows a r flat) {offset : Int64}
    {data : Bytes} (hin : flat.Reaches offset.toInt data.length) :
    ∃ a', exec (r.write offset data) a = (.ok (), a') ∧ r.Backed a' ∧
      r.Frame a a' ∧
      Shows a' r (flat.overlay offset.toInt.toNat data) := by
  obtain ⟨hlow, -, hsize, hreach⟩ := hin
  have hpages := h.reach
  by_cases hnil : data = []
  · subst hnil
    refine ⟨a, ?_, h.backed, Frame.refl r a, (flat.overlay_nil _).symm ▸ h⟩
    have hend : offset.toInt + (0 : Nat) ≤ r.size.toInt := by
      rw [h.size]
      exact hsize
    have hcheck := exec_check_ok (a := a) hlow hend
    rw [Region.write]
    exact exec_bind_ok hcheck
  · have hlength := List.length_pos_iff.mpr hnil
    have hfit : offset.toInt + data.length ≤ flat.octets.length := by omega
    have hcontains : r.Contains a offset data.length :=
      ⟨hlow, by rw [h.size]; exact hsize, by omega⟩
    obtain ⟨a', hrun, hbacked, hframe, hover⟩ :=
      exec_write_ok h.backed hcontains
    have hinside : offset.toInt.toNat + data.length ≤ flat.octets.length := by
      omega
    have hlen := FlatRegion.length_overlay hinside
    refine ⟨a', hrun, hbacked, hframe, hbacked, h.size, ?_, fun i hi => ?_, ?_⟩
    · rw [h.count, FlatRegion.pageCount, FlatRegion.pageCount, hlen,
        hframe.pageSize]
    · rw [hlen] at hi
      rw [hover i, FlatRegion.getElem?_overlay (by omega) hi, h.octets i hi]
    · rcases h.whole with hempty | hwhole
      · rw [hempty, List.length_nil] at hfit
        omega
      · exact Or.inr ⟨hlen.trans hwhole.1, hframe.pageSize ▸ hwhole.2⟩

/-- **A write that is not inside a region** is a fault and changes nothing.  The
region and the data lie side by side in memory, so they have less than 2^63
octets together. -/
theorem Shows.write_refused (h : Shows a r flat) {offset : Int64} {data : Bytes}
    (hmemory : r.pages.length * a.pageSize + data.length < 2 ^ 63)
    (hout : ¬ flat.Reaches offset.toInt data.length) :
    ∃ e, exec (r.write offset data) a = (.error e, a) := by
  have hlength : (Int64.ofNat data.length).toInt = data.length :=
    Int64.toInt_ofNat_of_lt (by omega)
  by_cases hcheck : offset.toInt < 0 ∨ (Int64.ofNat data.length).toInt < 0 ∨
      r.size.toInt < (offset + Int64.ofNat data.length).toInt
  · rw [Region.write]
    exact ⟨_, exec_bind_error (exec_check_refused hcheck)⟩
  · -- the end of the stretch wraps, or the region has no octets at all
    obtain ⟨hlow, hpositive, hinside⟩ : 0 ≤ offset.toInt ∧
        0 ≤ (Int64.ofNat data.length).toInt ∧
        (offset + Int64.ofNat data.length).toInt ≤ r.size.toInt := by
      omega
    have hpassed := exec_check_passed (a := a) hlow hpositive hinside
    have hend := (offset + Int64.ofNat data.length).le_toInt
    have hsum := toInt_add_cases offset (Int64.ofNat data.length)
    have hoffset := offset.toInt_lt
    have hreach := h.reach
    have hsize := h.size
    unfold FlatRegion.Reaches at hout
    have hdata : data.length ≠ 0 := by
      intro hzero
      rw [hzero] at hout hlength hsum hend hcheck
      omega
    have hbehind : r.pages.length * a.pageSize ≤ offset.toInt.toNat := by
      rcases h.whole with hempty | ⟨hall, hfit⟩
      · rw [h.count_of_nil hempty]
        omega
      · omega
    obtain ⟨n, hn⟩ := Nat.exists_eq_succ_of_ne_zero hdata
    refine ⟨.noPage, ?_⟩
    rw [Region.write, exec_bind_ok hpassed, hn]
    exact exec_writeFrom_behind h.backed.pageSize_pos
      (List.length_eq_zero_iff.not.mp hdata) hbehind

/-- **A read inside a region** gives its octets. -/
theorem Shows.read (h : Shows a r flat) {offset length : Int64}
    (hin : flat.Reaches offset.toInt length.toInt) :
    exec (r.read offset length) a =
      (.ok (flat.slice offset.toInt.toNat length.toInt.toNat), a) := by
  obtain ⟨hlow, hlength, hsize, hreach⟩ := hin
  have hpages := h.reach
  by_cases hzero : length.toInt = 0
  · have hend : (offset + length).toInt = offset.toInt := by
      have hrange := offset.toInt_lt
      have hrange' := offset.le_toInt
      rw [toInt_add_of_range (by omega) (by omega), hzero, Int.add_zero]
    have hcheck := exec_check_passed (a := a)
      (r := r) hlow hlength (by rw [hend, h.size]; omega)
    have hlong : ¬ r.size < length := by
      rw [Int64.lt_iff_toInt_lt, h.size]
      omega
    rw [Region.read, exec_bind_ok hcheck, if_neg hlong, hzero]
    simp [readFrom, FlatRegion.slice]
  · have hfit : offset.toInt + length.toInt ≤ flat.octets.length := by omega
    rw [exec_read_ok h.backed hlength ⟨hlow, by rw [h.size]; omega, by omega⟩]
    congr 2
    apply List.ext_getElem?
    intro i
    by_cases hi : i < length.toInt.toNat
    · have hio : offset.toInt.toNat + i < flat.octets.length := by omega
      rw [FlatRegion.slice, List.getElem?_take_of_lt hi, List.getElem?_drop,
        octetsFrom, List.getElem?_map, List.getElem?_range hi, Option.map_some,
        h.octets _ hio, List.getElem?_eq_getElem hio, Option.getD_some]
    · rw [List.getElem?_eq_none_iff.mpr, List.getElem?_eq_none_iff.mpr]
      · rw [FlatRegion.slice, List.length_take]
        omega
      · rw [length_octetsFrom]
        omega

/-- **A read that is not inside a region** is a fault. -/
theorem Shows.read_refused (h : Shows a r flat) {offset length : Int64}
    (hout : ¬ flat.Reaches offset.toInt length.toInt) :
    ∃ e, exec (r.read offset length) a = (.error e, a) := by
  by_cases hcheck : offset.toInt < 0 ∨ length.toInt < 0 ∨
    r.size.toInt < (offset + length).toInt
  · rw [Region.read]
    exact ⟨_, exec_bind_error (exec_check_refused hcheck)⟩
  · obtain ⟨hlow, hpositive, hinside⟩ : 0 ≤ offset.toInt ∧ 0 ≤ length.toInt ∧
        (offset + length).toInt ≤ r.size.toInt := by omega
    have hpassed := exec_check_passed (a := a) hlow hpositive hinside
    refine ⟨.noPage, ?_⟩
    rw [Region.read, exec_bind_ok hpassed]
    by_cases hlong : r.size < length
    · rw [if_pos hlong]
      rfl
    · rw [if_neg hlong]
      have hend := (offset + length).le_toInt
      have hsum := toInt_add_cases offset length
      have hoffset := offset.toInt_lt
      have hreach := h.reach
      have hreach_lt := h.reach_lt
      have hsize := h.size
      unfold FlatRegion.Reaches at hout
      have hbeyond : r.pages.length * a.pageSize <
          offset.toInt.toNat + length.toInt.toNat := by
        rcases h.whole with hempty | ⟨hall, hfit⟩
        · rw [h.count_of_nil hempty]
          omega
        · omega
      refine exec_readFrom_fault h.backed (by omega) (Nat.succ_pos _) ?_ hbeyond
      exact Nat.lt_of_lt_of_le (Nat.lt_succ_self _) (Nat.le_add_left _ _)

/-- **A new region is all zero**, whatever its pages held before, and its pages
are taken from nobody. -/
theorem shows_new {held : List Nat} (h : a.HeldBy held)
    (hword : a.pageSize < 2 ^ 63) {size : Int64} (hsize : 0 ≤ size.toInt) :
    ∃ r a', exec (Region.new size) a = (.ok r, a') ∧
      a'.HeldBy (r.pages ++ held) ∧ a.Keeps a' ∧
      Shows a' r (FlatRegion.zero a.pageSize size.toInt.toNat) := by
  have hpos := h.sound.pageSize_pos
  obtain ⟨handles, a', hrun, hsound, hkeeps, hlength, hnodup, hzero, -⟩ :=
    exec_acquirePages h.sound (pageCount a.pageSize size)
  have hcount : handles.length =
      (FlatRegion.zero a.pageSize size.toInt.toNat).pageCount a.pageSize := by
    rw [hlength, pageCount_eq hpos hword, FlatRegion.pageCount, FlatRegion.zero,
      List.length_replicate]
    by_cases hfit : size.toInt + a.pageSize ≤ 2 ^ 63
    · rw [if_pos hfit, if_pos (by omega)]
      congr 1
      omega
    · rw [if_neg hfit, if_neg (by omega), Nat.zero_add,
        Nat.div_eq_of_lt (Nat.sub_lt hpos Nat.one_pos)]
  refine ⟨⟨handles, size⟩, a', ?_, h.exec_acquirePages hrun, hkeeps,
    ⟨⟨hsound.pageSize_pos, hnodup, fun handle hh => ⟨_, hzero handle hh⟩⟩, ?_,
      ?_, fun i hi => ?_, ?_⟩⟩
  · rw [new, exec_bind_ok (exec_get a)]
    exact exec_bind_ok hrun
  · exact (Int.toNat_of_nonneg hsize).symm
  · rw [hkeeps.pageSize]
    exact hcount
  · have hindex : i / a.pageSize < handles.length := by
      rw [hcount, FlatRegion.pageCount, Nat.div_lt_iff_lt_mul hpos]
      have hover := Nat.div_add_mod
        ((FlatRegion.zero a.pageSize size.toInt.toNat).octets.length +
          a.pageSize - 1) a.pageSize
      have hmod := Nat.mod_lt
        ((FlatRegion.zero a.pageSize size.toInt.toNat).octets.length +
          a.pageSize - 1) hpos
      rw [Nat.mul_comm] at hover
      omega
    have hholds := hzero _ (List.getElem_mem hindex)
    rw [octet?_eq (List.getElem?_eq_getElem hindex) hholds
      (by rw [hkeeps.pageSize]), hkeeps.pageSize]
    have hmod := Nat.mod_lt i hpos
    have hlen : i < (if size.toInt.toNat + a.pageSize ≤ 2 ^ 63 then
        size.toInt.toNat else 0) := by
      simpa [FlatRegion.zero] using hi
    simp only [Arena.zeros, FlatRegion.zero, List.getElem?_replicate,
      if_pos hmod, if_pos hlen]
  · by_cases hfit : size.toInt.toNat + a.pageSize ≤ 2 ^ 63
    · refine Or.inr ⟨?_, ?_⟩
      · rw [FlatRegion.zero, if_pos hfit, List.length_replicate]
      · rw [hkeeps.pageSize]
        exact hfit
    · exact Or.inl (by rw [FlatRegion.zero, if_neg hfit, List.replicate_zero])

end Region

/-! ### Calls -/

/-- What is asked of storage.  Regions are numbered in the order in which they
are made, single pages go by their handles. -/
inductive StorageCall where
  | new (size : Int64)
  | write (index : Nat) (offset : Int64) (data : Bytes)
  | read (index : Nat) (offset length : Int64)
  | giveBack (index : Nat)
  | acquire
  /-- Stores octets into a page. -/
  | store (handle : Int) (start : Nat) (data : Bytes)
  /-- Looks at the octets of a page. -/
  | page (handle : Int)
  | release (handle : Int)
  deriving DecidableEq, Repr

/-- What storage answers. -/
inductive StorageReply where
  | done
  | octets (data : Bytes)
  | acquired (handle : Nat)
  deriving DecidableEq, Repr

/-- An arena and the regions that were made in it.  One that was given back is
empty. -/
structure StorageSession where
  arena : Arena
  regions : List Region := []
  deriving DecidableEq, Repr

namespace StorageSession

/-- A session on a new arena. -/
def start (pageSize : Int64) : StorageSession :=
  { arena := Arena.ofPageSize pageSize.toInt }

/-- The region of a number; there is nothing to be had of one that was not
made. -/
def region (s : StorageSession) (index : Nat) : Region :=
  s.regions.getD index ⟨[], 0⟩

/-- A step on the arena, and what comes of its result. -/
def go {α : Type} (s : StorageSession)
    (step : StorageStep α) (next : α → StorageReply × List Region) :
    Except StorageFault StorageReply × StorageSession :=
  match exec step s.arena with
  | (.ok v, arena) => (.ok (next v).1, ⟨arena, (next v).2⟩)
  | (.error e, arena) => (.error e, ⟨arena, s.regions⟩)

/-- What a call comes to, and the session after it. -/
def perform (s : StorageSession) :
    StorageCall → Except StorageFault StorageReply × StorageSession
  | .new size => s.go (Region.new size) fun r => (.done, s.regions ++ [r])
  | .write index offset data =>
    s.go ((s.region index).write offset data) fun _ => (.done, s.regions)
  | .read index offset length =>
    s.go ((s.region index).read offset length) fun data =>
      (.octets data, s.regions)
  | .giveBack index => s.go (s.region index).release fun r => (.done,
    s.regions.set index r)
  | .acquire => s.go Arena.acquire fun handle => (.acquired handle, s.regions)
  | .store handle start data => s.go (Arena.store handle start data) fun _ =>
    (.done, s.regions)
  | .page handle => s.go (Arena.page handle) fun data =>
    (.octets data, s.regions)
  | .release handle => s.go (Arena.release handle) fun _ => (.done, s.regions)

/-- The replies to calls made one after the other, and the session after
them. -/
def run (s : StorageSession) :
    List StorageCall → List (Except StorageFault StorageReply) × StorageSession
  | [] => ([], s)
  | call :: rest =>
    let (reply, s) := s.perform call
    let (replies, s) := s.run rest
    (reply :: replies, s)

/-- What callers keep to: no size is negative, a region and the data for it lie
in memory side by side, octets are stored behind the start of a page, and the
handles they use are not those of a region's pages. -/
def Allows (s : StorageSession) : StorageCall → Prop
  | .new size => 0 ≤ size.toInt
  | .write index _ data =>
    (s.region index).pages.length * s.arena.pageSize + data.length < 2 ^ 63
  | .store handle start _ =>
    start ≤ s.arena.pageSize ∧ ∀ r ∈ s.regions, ∀ other ∈ r.pages,
      (other : Int) ≠ handle
  | .page handle | .release handle => ∀ r ∈ s.regions, ∀ other ∈ r.pages,
    (other : Int) ≠ handle
  | .read .. | .giveBack _ | .acquire => True

instance (s : StorageSession) : (call : StorageCall) → Decidable (s.Allows call)
  | .new _ => inferInstanceAs (Decidable (_ ≤ _))
  | .write .. => inferInstanceAs (Decidable (_ < _))
  | .store .. =>
    inferInstanceAs (Decidable (_ ∧ ∀ r ∈ s.regions, ∀ other ∈ r.pages, _))
  | .page _ | .release _ =>
    inferInstanceAs (Decidable (∀ r ∈ s.regions, ∀ other ∈ r.pages, _))
  | .read .. | .giveBack _ | .acquire => inferInstanceAs (Decidable True)

/-- Whether callers keep to that with every call. -/
def AllowsAll (s : StorageSession) : List StorageCall → Prop
  | [] => True
  | call :: rest => s.Allows call ∧ (s.perform call).2.AllowsAll rest

instance decidableAllowsAll (s : StorageSession) :
    (calls : List StorageCall) → Decidable (s.AllowsAll calls)
  | [] => .isTrue trivial
  | call :: rest =>
    have := decidableAllowsAll (s.perform call).2 rest
    inferInstanceAs (Decidable (s.Allows call ∧
      (s.perform call).2.AllowsAll rest))

end StorageSession

/-- Storage as its users see it: regions, and single pages with their
handles. -/
structure FlatStorage where
  pageSize : Nat
  regions : List FlatRegion := []
  pages : List (Nat × Bytes) := []
  deriving DecidableEq, Repr

namespace FlatStorage

/-- Storage of which nothing is in use. -/
def start (pageSize : Int64) : FlatStorage :=
  { pageSize := (Arena.ofPageSize pageSize.toInt).pageSize }

/-- The region of a number. -/
def region (f : FlatStorage) (index : Nat) : FlatRegion :=
  f.regions.getD index FlatRegion.gone

/-- Storage with another region under a number. -/
def setRegion (f : FlatStorage) (index : Nat) (r : FlatRegion) : FlatStorage :=
  { f with regions := f.regions.set index r }

/-- The octets of a page that somebody holds. -/
def page? (f : FlatStorage) (handle : Int) : Option Bytes :=
  (f.pages.find? fun p => (p.1 : Int) = handle).map (·.2)

/-- Storage with other octets in a page. -/
def setPage (f : FlatStorage) (handle : Int) (data : Bytes) : FlatStorage :=
  { f with pages := f.pages.map fun p => if (p.1 : Int) = handle then
    (p.1, data) else p }

/-- Storage without a page. -/
def dropPage (f : FlatStorage) (handle : Int) : FlatStorage :=
  { f with pages := f.pages.filter fun p => (p.1 : Int) ≠ handle }

/-- How many handles are held, by regions and by users. -/
def handles (f : FlatStorage) : Nat :=
  f.regions.foldr (fun r count => r.pageCount f.pageSize + count) 0 +
    f.pages.length

/-- **What a call does to flat storage.**  Each touches one region or one page
only, and one that fails touches none.  The handle of an acquired page is any
that is not held. -/
inductive Step (f : FlatStorage) :
    StorageCall → Except StorageFault StorageReply → FlatStorage → Prop where
  | new (size : Int64) : f.Step (.new size) (.ok .done)
      { f with regions :=
        f.regions ++ [FlatRegion.zero f.pageSize size.toInt.toNat] }
  | write {index : Nat} {offset : Int64} {data : Bytes}
      (inside : (f.region index).Reaches offset.toInt data.length) :
      f.Step (.write index offset data) (.ok .done)
        (f.setRegion index ((f.region index).overlay offset.toInt.toNat data))
  | writeOutside {index : Nat} {offset : Int64} {data : Bytes}
      (e : StorageFault)
      (outside : ¬ (f.region index).Reaches offset.toInt data.length) :
      f.Step (.write index offset data) (.error e) f
  | read {index : Nat} {offset length : Int64}
      (inside : (f.region index).Reaches offset.toInt length.toInt) :
      f.Step (.read index offset length)
        (.ok (.octets
          ((f.region index).slice offset.toInt.toNat length.toInt.toNat))) f
  | readOutside {index : Nat} {offset length : Int64} (e : StorageFault)
      (outside : ¬ (f.region index).Reaches offset.toInt length.toInt) :
      f.Step (.read index offset length) (.error e) f
  | giveBack (index : Nat) :
      f.Step (.giveBack index) (.ok .done) (f.setRegion index FlatRegion.gone)
  | acquire (handle : Nat) (fresh : f.page? handle = none) :
      f.Step .acquire (.ok (.acquired handle))
      { f with pages := (handle, List.replicate f.pageSize 0) :: f.pages }
  | store {handle : Int} {start : Nat} {data page : Bytes}
      (held : f.page? handle = some page) :
      f.Step (.store handle start data) (.ok .done)
        (f.setPage handle (Arena.overlay start data page))
  | storeNowhere {handle : Int} {start : Nat} {data : Bytes}
      (e : StorageFault) (unheld : f.page? handle = none) :
        f.Step (.store handle start data) (.error e) f
  | page {handle : Int} {page : Bytes} (held : f.page? handle = some page) :
      f.Step (.page handle) (.ok (.octets page)) f
  | pageNowhere {handle : Int} (e : StorageFault)
      (unheld : f.page? handle = none) :
      f.Step (.page handle) (.error e) f
  | release {handle : Int} {page : Bytes} (held : f.page? handle = some page) :
      f.Step (.release handle) (.ok .done) (f.dropPage handle)
  | releaseNowhere {handle : Int} (e : StorageFault)
      (unheld : f.page? handle = none) :
      f.Step (.release handle) (.error e) f

/-- What calls made one after the other do to flat storage. -/
inductive Run :
    FlatStorage → List StorageCall → List (Except StorageFault StorageReply) →
    FlatStorage → Prop where
  | nil (f : FlatStorage) : Run f [] [] f
  | cons {f f' f'' : FlatStorage} {call : StorageCall}
      {calls : List StorageCall} {reply : Except StorageFault StorageReply}
      {replies : List (Except StorageFault StorageReply)}
        (step : f.Step call reply f') (rest : Run f' calls replies f'') :
        Run f (call :: calls) (reply :: replies) f''

end FlatStorage

/-! ### A session is flat storage -/

namespace StorageSession

/-- An arena and its regions are what their users see. -/
structure Shows (s : StorageSession) (f : FlatStorage) : Prop where
  pageSize : s.arena.pageSize = f.pageSize
  word : f.pageSize < 2 ^ 63
  held : s.arena.HeldBy (s.regions.flatMap (·.pages) ++ f.pages.map (·.1))
  length : s.regions.length = f.regions.length
  regions : ∀ (index : Nat) r flat,
    s.regions[index]? = some r → f.regions[index]? = some flat →
    Region.Shows s.arena r flat
  pages : ∀ p ∈ f.pages, s.arena.Holds p.1 p.2

variable {s : StorageSession} {f : FlatStorage}

/-- A region is found by its index. -/
theorem region_of_getElem? {index : Nat} {r : Region}
    (hr : s.regions[index]? = some r) :
    s.region index = r := by
  rw [region, List.getD_eq_getElem?_getD, hr, Option.getD_some]

/-- Every region shows what it should. -/
theorem Shows.region (h : s.Shows f) (index : Nat) :
    Region.Shows s.arena (s.region index) (f.region index) := by
  unfold StorageSession.region FlatStorage.region
  rw [List.getD_eq_getElem?_getD, List.getD_eq_getElem?_getD]
  by_cases hindex : index < s.regions.length
  · have hr := List.getElem?_eq_getElem hindex
    have hflat := List.getElem?_eq_getElem (h.length ▸ hindex)
    rw [hr, hflat]
    exact h.regions index _ _ hr hflat
  · rw [List.getElem?_eq_none (Nat.le_of_not_lt hindex),
      List.getElem?_eq_none (h.length ▸ Nat.le_of_not_lt hindex)]
    exact Region.shows_gone h.held.sound.pageSize_pos

/-- **Nobody holds the pages of a region but the region.** -/
theorem Shows.apart (h : s.Shows f) {index : Nat} {handle : Nat}
    (hmem : handle ∈ (s.region index).pages) :
    (∀ other r, other ≠ index → s.regions[other]? = some r → handle ∉ r.pages) ∧
      ∀ p ∈ f.pages, p.1 ≠ handle := by
  have hnodup := h.held.nodup
  rw [List.nodup_append', List.nodup_flatMap] at hnodup
  obtain ⟨⟨-, hregions⟩, -, hpages⟩ := hnodup
  unfold StorageSession.region at hmem
  rw [List.getD_eq_getElem?_getD] at hmem
  cases hr : s.regions[index]? with
  | none => simp [hr] at hmem
  | some r =>
      rw [hr, Option.getD_some] at hmem
      rw [List.pairwise_iff_getElem] at hregions
      obtain ⟨hlt, hget⟩ := List.getElem?_eq_some_iff.mp hr
      refine ⟨fun other r' hne hr' hin => ?_, fun p hp heq => ?_⟩
      · obtain ⟨hlt', hget'⟩ := List.getElem?_eq_some_iff.mp hr'
        rcases Nat.lt_or_gt_of_ne hne with hless | hless
        · exact hregions other index hlt' hlt hless (hget' ▸ hin) (hget ▸ hmem)
        · exact hregions index other hlt hlt' hless (hget ▸ hmem) (hget' ▸ hin)
      · exact hpages (List.mem_flatMap.mpr ⟨r, List.mem_of_getElem? hr, hmem⟩)
          (List.mem_map.mpr ⟨p, hp, heq⟩)

/-- A step on the pages of one region changes what that region shows, and
nothing else. -/
theorem Shows.inRegion (h : s.Shows f) {index : Nat} {a' : Arena}
    {flat : FlatRegion} (hframe : (s.region index).Frame s.arena a')
    (hshows : Region.Shows a' (s.region index) flat) :
    (⟨a', s.regions⟩ : StorageSession).Shows (f.setRegion index flat) := by
  refine ⟨hframe.pageSize.trans h.pageSize, h.word,
    h.held.frame (h.region index).backed hshows.backed hframe, ?_,
    fun other r flat' hr hflat => ?_, fun p hp => ?_⟩
  · simp only [FlatStorage.setRegion, List.length_set]
    exact h.length
  · by_cases hsame : index = other
    · subst hsame
      have hlt : index < f.regions.length :=
        h.length ▸ (List.getElem?_eq_some_iff.mp hr).1
      rw [FlatStorage.setRegion, List.getElem?_set_self hlt] at hflat
      obtain rfl := Option.some.inj hflat
      rwa [region_of_getElem? (s := s) hr] at hshows
    · rw [FlatStorage.setRegion, List.getElem?_set_ne hsame] at hflat
      refine (h.regions other r flat' hr hflat).congr hframe.pageSize
        fun handle hh => ?_
      exact hframe.others handle fun hin =>
        (h.apart hin).1 other r (Ne.symm hsame) hr hh
  · obtain ⟨hpage, hlength⟩ := h.pages p hp
    refine ⟨(hframe.others p.1 fun hin => ?_).trans hpage,
      hlength.trans hframe.pageSize.symm⟩
    exact (h.apart hin).2 p hp rfl

/-- The pages of all regions, when one region is emptied. -/
theorem flatMap_pages_set (regions : List Region) (index : Nat) :
    (regions.flatMap (·.pages)).Perm
      ((regions.getD index ⟨[], 0⟩).pages ++
        (regions.set index ⟨[], 0⟩).flatMap (·.pages)) := by
  induction regions generalizing index with
  | nil => simp
  | cons r rest ih =>
      cases index with
      | zero => simp
      | succ index =>
          simp only [List.flatMap_cons, List.getD_cons_succ, List.set_cons_succ]
          refine ((ih index).append_left r.pages).trans ?_
          rw [← List.append_assoc, ← List.append_assoc]
          exact List.perm_append_comm.append_right _

/-- **A region that is given back** is gone, and its pages are free. -/
theorem Shows.giveBack (h : s.Shows f) (index : Nat) :
    ∃ a', exec (s.region index).release s.arena = (.ok ⟨[], 0⟩, a') ∧
      (⟨a', s.regions.set index ⟨[], 0⟩⟩ : StorageSession).Shows
        (f.setRegion index FlatRegion.gone) := by
  have hperm :=
    (flatMap_pages_set s.regions index).append_right (f.pages.map (·.1))
  rw [List.append_assoc] at hperm
  obtain ⟨a', hrun, hheld, hsize, hothers⟩ :=
    (h.held.congr hperm).exec_releaseAll
  refine ⟨a', ?_, hsize.trans h.pageSize, h.word, hheld, ?_,
    fun other r flat hr hflat => ?_, fun p hp => ?_⟩
  · rw [Region.release]
    exact exec_bind_ok hrun
  · simp only [FlatStorage.setRegion, List.length_set]
    exact h.length
  · by_cases hsame : index = other
    · subst hsame
      have hlt : index < s.regions.length := by
        simpa using (List.getElem?_eq_some_iff.mp hr).1
      rw [List.getElem?_set_self hlt] at hr
      rw [FlatStorage.setRegion,
        List.getElem?_set_self (h.length ▸ hlt)] at hflat
      obtain rfl := Option.some.inj hr
      obtain rfl := Option.some.inj hflat
      exact Region.shows_gone hheld.sound.pageSize_pos
    · rw [List.getElem?_set_ne hsame] at hr
      rw [FlatStorage.setRegion, List.getElem?_set_ne hsame] at hflat
      refine (h.regions other r flat hr hflat).congr hsize fun handle hh => ?_
      exact hothers handle fun hin =>
        (h.apart hin).1 other r (Ne.symm hsame) hr hh
  · obtain ⟨hpage, hlength⟩ := h.pages p hp
    refine ⟨(hothers p.1 fun hin => ?_).trans hpage, hlength.trans hsize.symm⟩
    exact (h.apart hin).2 p hp rfl

/-- **A new region** is all zero, and the others are as before. -/
theorem Shows.new (h : s.Shows f) {size : Int64} (hsize : 0 ≤ size.toInt) :
    ∃ r a', exec (Region.new size) s.arena = (.ok r, a') ∧
      (⟨a', s.regions ++ [r]⟩ : StorageSession).Shows
        { f with regions :=
          f.regions ++ [FlatRegion.zero f.pageSize size.toInt.toNat] } := by
  obtain ⟨r, a', hrun, hheld, hkeeps, hshows⟩ :=
    Region.shows_new h.held (h.pageSize ▸ h.word) hsize
  rw [h.pageSize] at hshows
  refine ⟨r, a', hrun, hkeeps.pageSize.trans h.pageSize, h.word,
    hheld.congr ?_, ?_,
    fun index r' flat hr hflat => ?_, fun p hp => hkeeps.holds (h.pages p hp)⟩
  · simp only [List.flatMap_append, List.flatMap_cons, List.flatMap_nil,
      List.append_nil]
    rw [← List.append_assoc]
    exact List.perm_append_comm.append_right _
  · simp [h.length]
  · by_cases hindex : index < s.regions.length
    · rw [List.getElem?_append_left hindex] at hr
      rw [List.getElem?_append_left (h.length ▸ hindex)] at hflat
      have hold := h.regions index r' flat hr hflat
      refine hold.congr hkeeps.pageSize fun handle hh => ?_
      obtain ⟨data, hdata⟩ := hold.backed.holds handle hh
      exact (hkeeps.used handle _ hdata.1 rfl).trans hdata.1.symm
    · rw [List.getElem?_append_right (Nat.le_of_not_lt hindex),
        List.getElem?_singleton] at hr
      rw [List.getElem?_append_right (h.length ▸ Nat.le_of_not_lt hindex),
        ← h.length, List.getElem?_singleton] at hflat
      split at hr
      · rename_i hzero
        rw [if_pos hzero] at hflat
        obtain rfl := Option.some.inj hr
        obtain rfl := Option.some.inj hflat
        exact hshows
      · simp at hr

/-- A page that somebody holds, by its handle. -/
theorem exists_of_page? {handle : Int} {page : Bytes}
    (h : f.page? handle = some page) :
    ∃ n : Nat, handle = n ∧ (n, page) ∈ f.pages := by
  unfold FlatStorage.page? at h
  obtain ⟨p, hfind, rfl⟩ := Option.map_eq_some_iff.mp h
  have hhandle := List.find?_some hfind
  exact ⟨p.1, by simpa [eq_comm] using hhandle, List.mem_of_find?_eq_some hfind⟩

theorem ne_of_page? {handle : Int} (h : f.page? handle = none) :
    ∀ p ∈ f.pages, (p.1 : Int) ≠ handle := by
  unfold FlatStorage.page? at h
  rw [Option.map_eq_none_iff, List.find?_eq_none] at h
  intro p hp
  simpa using h p hp

/-- A handle that belongs to nobody is refused. -/
theorem Shows.unheld (h : s.Shows f) {handle : Int}
    (hpage : f.page? handle = none)
    (hregions : ∀ r ∈ s.regions, ∀ other ∈ r.pages, (other : Int) ≠ handle)
    (unused : StorageFault) :
    ∃ e, s.arena.usedPage handle unused = .error e := by
  apply h.held.usedPage
  intro other hother
  rcases List.mem_append.mp hother with hin | hin
  · obtain ⟨r, hr, hmem⟩ := List.mem_flatMap.mp hin
    exact hregions r hr other hmem
  · obtain ⟨p, hp, rfl⟩ := List.mem_map.mp hin
    exact ne_of_page? hpage p hp

/-- A page that is not there is refused. -/
theorem Shows.page_refused (h : s.Shows f) {handle : Int}
    (hpage : f.page? handle = none)
    (hregions : ∀ r ∈ s.regions, ∀ other ∈ r.pages, (other : Int) ≠ handle) :
    ∃ e, exec (Arena.page handle) s.arena = (.error e, s.arena) := by
  obtain ⟨e, he⟩ := h.unheld hpage hregions (.unusedAccess handle)
  refine ⟨e, ?_⟩
  rw [Arena.page, exec_bind_ok (exec_get s.arena), he]
  rfl

/-- A page that is not there cannot be released. -/
theorem Shows.release_refused (h : s.Shows f) {handle : Int}
    (hpage : f.page? handle = none)
    (hregions : ∀ r ∈ s.regions, ∀ other ∈ r.pages, (other : Int) ≠ handle) :
    ∃ e, exec (Arena.release handle) s.arena = (.error e, s.arena) := by
  obtain ⟨e, he⟩ := h.unheld hpage hregions (.unusedRelease handle)
  refine ⟨e, ?_⟩
  rw [Arena.release, exec_bind_ok (exec_get s.arena), he]
  rfl

/-- The handles of single pages are different. -/
theorem Shows.nodup (h : s.Shows f) : (f.pages.map (·.1)).Nodup :=
  h.held.nodup.of_append_right

/-- A page and a region have nothing in common. -/
theorem Shows.apart_page (h : s.Shows f) {p : Nat × Bytes} (hp : p ∈ f.pages)
    {index : Nat} {r : Region} (hr : s.regions[index]? = some r) :
    p.1 ∉ r.pages := by
  intro hin
  exact (h.apart ((region_of_getElem? hr).symm ▸ hin)).2 p hp rfl

/-- **Octets stored into a page** change what that page holds, and nothing
else. -/
theorem Shows.inPage (h : s.Shows f) {n : Nat} {page new : Bytes}
    (hp : (n, page) ∈ f.pages) (hnew : new.length = s.arena.pageSize) :
    (⟨s.arena.put n new, s.regions⟩ : StorageSession).Shows
      (f.setPage n new) := by
  have hholds := h.pages _ hp
  -- the page by itself is a region
  have hbacked : Region.Backed s.arena ⟨[n], 0⟩ := by
    refine ⟨h.held.sound.pageSize_pos, by simp, fun handle hh => ?_⟩
    rw [List.mem_singleton.mp hh]
    exact ⟨page, hholds⟩
  have hframe : Region.Frame ⟨[n], 0⟩ s.arena (s.arena.put n new) :=
    Region.frame_put (List.mem_singleton.mpr rfl) new
  have hkeys : (f.setPage n new).pages.map (·.1) = f.pages.map (·.1) := by
    simp only [FlatStorage.setPage, List.map_map]
    apply List.map_congr_left
    intro q _
    simp only [Function.comp_apply]
    split <;> rfl
  refine ⟨h.pageSize, h.word, ?_, h.length, fun index r flat hr hflat => ?_,
    fun q hq => ?_⟩
  · rw [hkeys]
    exact h.held.frame hbacked (hbacked.put hholds hnew) hframe
  · refine (h.regions index r flat hr hflat).congr rfl fun handle hh => ?_
    apply hframe.others
    intro hin
    rw [List.mem_singleton.mp hin] at hh
    exact h.apart_page hp hr hh
  · obtain ⟨q', hq', rfl⟩ := List.mem_map.mp hq
    by_cases hsame : (q'.1 : Int) = n
    · rw [if_pos hsame]
      have hn : q'.1 = n := by omega
      rw [hn]
      exact hholds.put_self hnew
    · rw [if_neg hsame]
      have hne : n ≠ q'.1 := by omega
      obtain ⟨hpage, hlength⟩ := h.pages q' hq'
      exact ⟨(s.arena.getElem?_put_ne hne new).trans hpage, hlength⟩

/-- **An acquired page** is zero and belongs to nobody else. -/
theorem Shows.acquire (h : s.Shows f) :
    f.page? s.arena.acquired.1 = none ∧
      (⟨s.arena.acquired.2, s.regions⟩ : StorageSession).Shows
        { f with pages :=
          (s.arena.acquired.1, List.replicate f.pageSize 0) :: f.pages } := by
  obtain ⟨-, hkeeps, hholds, hfresh⟩ := Arena.acquired_spec h.held.sound
  refine ⟨?_, hkeeps.pageSize.trans h.pageSize, h.word,
    h.held.acquired.congr List.perm_middle.symm,
    h.length, fun index r flat hr hflat => ?_, fun p hp => ?_⟩
  · cases hpage : f.page? s.arena.acquired.1 with
    | none => rfl
    | some page =>
        obtain ⟨n, hn, hmem⟩ := exists_of_page? hpage
        have hsame : s.arena.acquired.1 = n := by omega
        have hused := hfresh _ (hsame ▸ (h.pages _ hmem).1)
        simp at hused
  · have hold := h.regions index r flat hr hflat
    refine hold.congr hkeeps.pageSize fun handle hh => ?_
    obtain ⟨data, hdata⟩ := hold.backed.holds handle hh
    exact (hkeeps.used handle _ hdata.1 rfl).trans hdata.1.symm
  · rcases List.mem_cons.mp hp with rfl | hp
    · rw [Arena.zeros, h.pageSize] at hholds
      exact hholds
    · exact hkeeps.holds (h.pages p hp)

/-- The handles of single pages, when one of them is given up. -/
theorem map_fst_dropPage {n : Nat} {page : Bytes}
    (hnodup : (f.pages.map (·.1)).Nodup) (hp : (n, page) ∈ f.pages) :
    (f.pages.map (·.1)).Perm (n :: (f.dropPage n).pages.map (·.1)) := by
  have herase := List.perm_cons_erase (List.mem_map_of_mem (f := (·.1)) hp)
  rw [hnodup.erase_eq_filter, List.filter_map] at herase
  refine herase.trans (List.Perm.of_eq ?_)
  congr 2
  apply List.filter_congr
  intro q _
  by_cases hq : q.1 = n
  · simp [hq]
  · have hq' : (q.1 : Int) ≠ n := fun heq => hq (Int.ofNat.inj heq)
    rw [Function.comp_apply, bne_iff_ne.mpr hq, decide_eq_true hq']

/-- **A page that is released** is free, and everything else is as before. -/
theorem Shows.release (h : s.Shows f) {n : Nat} {page : Bytes}
    (hp : (n, page) ∈ f.pages) :
    (⟨s.arena.freed n page, s.regions⟩ : StorageSession).Shows
      (f.dropPage n) := by
  have hperm :=
    (map_fst_dropPage h.nodup hp).append_left (s.regions.flatMap (·.pages))
  have hheld := h.held.congr (hperm.trans List.perm_middle)
  refine ⟨h.pageSize, h.word, hheld.freed (h.pages _ hp), h.length,
    fun index r flat hr hflat => ?_, fun q hq => ?_⟩
  · refine (h.regions index r flat hr hflat).congr rfl fun handle hh => ?_
    apply s.arena.getElem?_freed_ne
    rintro rfl
    exact h.apart_page hp hr hh
  · obtain ⟨hq, hne⟩ := List.mem_filter.mp hq
    obtain ⟨hpage, hlength⟩ := h.pages q hq
    refine ⟨(s.arena.getElem?_freed_ne ?_ page).trans hpage, hlength⟩
    rintro rfl
    simp at hne

/-! ### Any calls -/

section Go

variable {α : Type} {step : StorageStep α}
  {next : α → StorageReply × List Region} {a : Arena}

/-- A step that succeeds. -/
theorem go_ok {v : α} (h : exec step s.arena = (.ok v, a)) :
    s.go step next = (.ok (next v).1, ⟨a, (next v).2⟩) := by
  rw [go, h]

/-- A step that fails leaves the regions alone. -/
theorem go_error {e : StorageFault} (h : exec step s.arena = (.error e, a)) :
    s.go step next = (.error e, ⟨a, s.regions⟩) := by
  rw [go, h]

end Go

/-- A call answers as flat storage does, and leaves it as flat storage is left.
A call that fails leaves the session alone. -/
def Answers (s : StorageSession) (f : FlatStorage)
    (call : StorageCall) : Prop :=
  ∃ f', f.Step call (s.perform call).1 f' ∧ (s.perform call).2.Shows f' ∧
    ∀ e, (s.perform call).1 = .error e → (s.perform call).2 = s

/-- A call that succeeds. -/
theorem answers_ok {f' : FlatStorage} {call : StorageCall}
    {reply : StorageReply} {s' : StorageSession}
    (hperform : s.perform call = (.ok reply, s'))
    (hstep : f.Step call (.ok reply) f') (hshows : s'.Shows f') :
    s.Answers f call := by
  refine ⟨f', ?_, ?_, fun e he => ?_⟩
  · rw [hperform]
    exact hstep
  · rw [hperform]
    exact hshows
  · simp [hperform] at he

/-- A call that fails. -/
theorem answers_error {call : StorageCall} {e : StorageFault}
    (h : s.Shows f) (hperform : s.perform call = (.error e, s))
    (hstep : f.Step call (.error e) f) :
    s.Answers f call := by
  refine ⟨f, ?_, ?_, fun _ _ => ?_⟩
  · rw [hperform]
    exact hstep
  · rw [hperform]
    exact h
  · rw [hperform]

/-- **Every call answers as flat storage does.** -/
theorem Shows.answers (h : s.Shows f) {call : StorageCall}
    (hallow : s.Allows call) :
    s.Answers f call := by
  cases call with
  | new size =>
      obtain ⟨r, a', hrun, hshows⟩ := h.new hallow
      exact answers_ok (go_ok hrun) (.new size) hshows
  | write index offset data =>
      by_cases hin : (f.region index).Reaches offset.toInt data.length
      · obtain ⟨a', hrun, -, hframe, hshows⟩ := (h.region index).write hin
        exact answers_ok (go_ok hrun) (.write hin) (h.inRegion hframe hshows)
      · obtain ⟨e, hrun⟩ := (h.region index).write_refused hallow hin
        exact answers_error h (go_error hrun) (.writeOutside e hin)
  | read index offset length =>
      by_cases hin : (f.region index).Reaches offset.toInt length.toInt
      · have hrun := (h.region index).read hin
        exact answers_ok (go_ok hrun) (.read hin) h
      · obtain ⟨e, hrun⟩ := (h.region index).read_refused hin
        exact answers_error h (go_error hrun) (.readOutside e hin)
  | giveBack index =>
      obtain ⟨a', hrun, hshows⟩ := h.giveBack index
      exact answers_ok (go_ok hrun) (.giveBack index) hshows
  | acquire =>
      obtain ⟨hfresh, hshows⟩ := h.acquire
      have hperform : s.perform .acquire =
          (.ok (.acquired s.arena.acquired.1),
            ⟨s.arena.acquired.2, s.regions⟩) := rfl
      exact answers_ok hperform (.acquire _ hfresh) hshows
  | store handle start data =>
      cases hpage : f.page? handle with
      | some page =>
          obtain ⟨n, rfl, hp⟩ := exists_of_page? hpage
          have hholds := h.pages _ hp
          have hnew : (Arena.overlay start data page).length =
              s.arena.pageSize := by
            rw [Arena.length_overlay]
            exact hholds.2
          exact answers_ok (go_ok (Arena.exec_store hholds start data))
            (.store hpage) (h.inPage hp hnew)
      | none =>
          obtain ⟨e, hread⟩ := h.page_refused hpage hallow.2
          have hrun : exec (Arena.store handle start data) s.arena =
              (.error e, s.arena) :=
            exec_bind_error hread
          exact answers_error h (go_error hrun) (.storeNowhere e hpage)
  | page handle =>
      cases hpage : f.page? handle with
      | some page =>
          obtain ⟨n, rfl, hp⟩ := exists_of_page? hpage
          exact answers_ok (go_ok (Arena.exec_page (h.pages _ hp)))
            (.page hpage) h
      | none =>
          obtain ⟨e, hrun⟩ := h.page_refused hpage hallow
          exact answers_error h (go_error hrun) (.pageNowhere e hpage)
  | release handle =>
      cases hpage : f.page? handle with
      | some page =>
          obtain ⟨n, rfl, hp⟩ := exists_of_page? hpage
          exact answers_ok (go_ok (Arena.exec_freed (h.pages _ hp)))
            (.release hpage) (h.release hp)
      | none =>
          obtain ⟨e, hrun⟩ := h.release_refused hpage hallow
          exact answers_error h (go_error hrun) (.releaseNowhere e hpage)

/-- Calls made one after the other. -/
theorem Shows.run (h : s.Shows f) {calls : List StorageCall}
    (hallow : s.AllowsAll calls) :
    ∃ f', f.Run calls (s.run calls).1 f' ∧ (s.run calls).2.Shows f' := by
  induction calls generalizing s f with
  | nil => exact ⟨f, .nil f, h⟩
  | cons call rest ih =>
      obtain ⟨hcall, hrest⟩ := hallow
      obtain ⟨f', hstep, hshows, -⟩ := h.answers hcall
      obtain ⟨f'', hrun, hlast⟩ := ih hshows hrest
      exact ⟨f'', .cons hstep hrun, hlast⟩

/-- Storage begins empty on both sides. -/
theorem shows_start (pageSize : Int64) :
    (start pageSize).Shows (FlatStorage.start pageSize) := by
  have hsize : 0 < (Arena.ofPageSize pageSize.toInt).pageSize ∧
      (Arena.ofPageSize pageSize.toInt).pageSize < 2 ^ 63 := by
    have hlt := pageSize.toInt_lt
    simp only [Arena.ofPageSize, Arena.defaultPageSize]
    split <;> omega
  refine ⟨rfl, hsize.2, ⟨⟨hsize.1, ?_, ?_, ?_⟩, ?_, ?_⟩, rfl, ?_, ?_⟩
  all_goals simp [start, FlatStorage.start, Arena.ofPageSize]

/-- The pages in use are those that the regions and the users hold. -/
theorem Shows.inUse (h : s.Shows f) : s.arena.inUse = f.handles := by
  have hregions : ∀ (regions : List Region) (flats : List FlatRegion),
      regions.length = flats.length →
      (∀ (index : Nat) r flat,
        regions[index]? = some r → flats[index]? = some flat →
        r.pages.length = flat.pageCount f.pageSize) →
      (regions.flatMap (·.pages)).length =
        flats.foldr (fun r count => r.pageCount f.pageSize + count) 0 := by
    intro regions
    induction regions with
    | nil =>
        intro flats hlength _
        rw [List.length_nil, eq_comm, List.length_eq_zero_iff] at hlength
        subst hlength
        rfl
    | cons r rest ih =>
        intro flats hlength hcount
        cases flats with
        | nil => simp at hlength
        | cons flat others =>
            have hrest :=
              ih others (by simpa using hlength) fun index r' flat' hr hflat =>
                hcount (index + 1) r' flat' (by simpa using hr)
                  (by simpa using hflat)
            rw [List.flatMap_cons, List.length_append, hrest,
              hcount 0 r flat rfl rfl, List.foldr_cons]
  rw [h.held.inUse, List.length_append, List.length_map, FlatStorage.handles,
    hregions s.regions f.regions h.length fun index r flat hr hflat => ?_]
  rw [← h.pageSize]
  exact (h.regions index r flat hr hflat).count

/-- **Shared storage is flat storage.**  Whatever calls are made on a new arena,
they are answered as by regions and pages that have nothing in common: a region
is all zero when it is made, a write replaces the octets it covers, a read gives
the octets that are there, and what is done to one region or page changes no
other.  The pages in use are those that somebody holds, and a call that fails
changes nothing at all. -/
theorem run_flat (pageSize : Int64)
    (calls : List StorageCall) (h : (start pageSize).AllowsAll calls) :
    ∃ f,
    (FlatStorage.start pageSize).Run calls ((start pageSize).run calls).1 f ∧
      ((start pageSize).run calls).2.arena.inUse = f.handles ∧
      ∀ call e, ((start pageSize).run calls).2.Allows call →
        (((start pageSize).run calls).2.perform call).1 = .error e →
        (((start pageSize).run calls).2.perform call).2 =
          ((start pageSize).run calls).2 := by
  obtain ⟨f, hrun, hshows⟩ := (shows_start pageSize).run h
  refine ⟨f, hrun, hshows.inUse, fun call e hallow herror => ?_⟩
  obtain ⟨f', -, -, hkeeps⟩ := hshows.answers hallow
  exact hkeeps e herror

/-- Pages of four octets: a region of two of them is written across both and
given back.  One of its pages is taken by itself, the other goes to the next
region. -/
def recycling : List StorageCall :=
  [.new 6, .write 0 2 [1, 2, 3, 4], .read 0 1 5, .giveBack 0, .acquire,
    .store 1 3 [9, 9],
    .new 5, .read 1 0 5, .write 1 4 [7, 7], .page 1, .release 1, .page 1]

/-- **A page that is used again** is zero, and what its neighbours hold is not
touched. -/
theorem run_flat_recycling :
    (start 4).AllowsAll recycling ∧
      ((start 4).run recycling).1 =
        [.ok .done, .ok .done, .ok (.octets [0, 1, 2, 3, 4]), .ok .done,
        .ok (.acquired 1), .ok .done, .ok .done, .ok (.octets [0, 0, 0, 0, 0]),
        .error (.outside 4 6 5), .ok (.octets [0, 0, 0, 9]), .ok .done,
        .error (.unusedAccess 1)] ∧
      ∃ f, (FlatStorage.start 4).Run recycling ((start 4).run recycling).1 f ∧
        ((start 4).run recycling).2.arena.inUse = f.handles := by
  have hallows : (start 4).AllowsAll recycling := by decide +kernel
  refine ⟨hallows, by decide +kernel, ?_⟩
  obtain ⟨f, hrun, huse, -⟩ := run_flat 4 recycling hallows
  exact ⟨f, hrun, huse⟩

end StorageSession

end System370
