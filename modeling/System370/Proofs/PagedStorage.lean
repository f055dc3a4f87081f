import System370.Storage
import System370.Proofs.Word

/-!
# Paged storage as flat storage

A region is a sequence of octets, whatever pages it is made of.  `Region.octet?`
is this view, and the operations are described by it alone:

* `Region.exec_write_ok`: a write inside the region replaces just the octets
  that it covers;
* `Region.exec_write_fault`: a write that is not inside the region is a fault;
* `Region.exec_read_ok`: a read inside the region gives the octets that are
  there;
* `Region.exec_new`: a new region is all zero.

An arena is `Sound` when its free pages are out of use, and a region is `Backed`
by an arena when its pages are in use there, no two of them the same.
-/

namespace System370

variable {α β : Type}

/-- The outcome of a step from a given arena. -/
def StorageStep.exec (x : StorageStep α) (a : Arena) :
    Except StorageFault α × Arena :=
  StateT.run (ExceptT.run x) a

namespace StorageStep

/-- One step after another; a fault ends the sequence. -/
theorem exec_bind (x : StorageStep α) (f : α → StorageStep β) (a : Arena) :
    exec (x >>= f) a = match exec x a with
      | (.ok v, a') => exec (f v) a'
      | (.error e, a') => (.error e, a') := by
  have h : exec (x >>= f) a = match (exec x a).1 with
      | .ok v => exec (f v) (exec x a).2
      | .error e => (.error e, (exec x a).2) := by
    show (ExceptT.bindCont f (exec x a).1 : StateM Arena
      (Except StorageFault β)) (exec x a).2 = _
    cases (exec x a).1 <;> rfl
  rw [h]
  rcases exec x a with ⟨_ | _, a'⟩ <;> rfl

/-- A step after one that succeeds. -/
theorem exec_bind_ok {x : StorageStep α} {f : α → StorageStep β} {a a' : Arena}
    {v : α} (h : exec x a = (.ok v, a')) :
    exec (x >>= f) a = exec (f v) a' := by
  rw [exec_bind, h]

/-- A step after a fault. -/
theorem exec_bind_error {x : StorageStep α} {f : α → StorageStep β}
    {a a' : Arena} {e : StorageFault} (h : exec x a = (.error e, a')) :
    exec (x >>= f) a = (.error e, a') := by
  rw [exec_bind, h]

@[simp] theorem exec_pure (v : α) (a : Arena) :
    exec (pure v) a = (.ok v, a) := rfl

@[simp] theorem exec_throw (e : StorageFault) (a : Arena) :
    exec (throw e : StorageStep α) a = (.error e, a) := rfl

@[simp] theorem exec_get (a : Arena) :
    exec (get : StorageStep Arena) a = (.ok a, a) := rfl

@[simp] theorem exec_modify (f : Arena → Arena) (a : Arena) :
    exec (modify f : StorageStep Unit) a = (.ok (), f a) := rfl

end StorageStep

open StorageStep

namespace Arena

/-- The free pages of an arena are out of use, and all pages have the same
size. -/
structure Sound (a : Arena) : Prop where
  pageSize_pos : 0 < a.pageSize
  sized : ∀ page ∈ a.pages, page.data.length = a.pageSize
  free_nodup : a.free.Nodup
  free_unused : ∀ handle ∈ a.free, ∃ page, a.pages[handle]? = some page ∧
    page.used = false

/-- The octets that a used page holds. -/
def Holds (a : Arena) (handle : Nat) (data : Bytes) : Prop :=
  a.pages[handle]? = some ⟨data, true⟩ ∧ data.length = a.pageSize

/-- A page that is in use can be read. -/
theorem exec_page {a : Arena} {handle : Nat} {data : Bytes}
    (h : a.Holds handle data) :
    exec (page handle) a = (.ok data, a) := by
  have hused : a.usedPage handle (.unusedAccess handle) = .ok ⟨data, true⟩ := by
    simp [usedPage, h.1]
  unfold page
  rw [exec_bind_ok (exec_get a), hused]
  rfl

/-- The arena with other octets in a used page. -/
def put (a : Arena) (handle : Nat) (data : Bytes) : Arena :=
  { a with pages := a.pages.set handle ⟨data, true⟩ }

@[simp] theorem pageSize_put (a : Arena) (handle : Nat) (data : Bytes) :
    (a.put handle data).pageSize = a.pageSize := rfl

/-- A page that is in use can be changed. -/
theorem exec_store {a : Arena} {handle : Nat} {data : Bytes}
    (h : a.Holds handle data) (start : Nat) (new : Bytes) :
    exec (store handle start new) a =
      (.ok (), a.put handle (overlay start new data)) := by
  unfold store
  rw [exec_bind_ok (exec_page h)]
  simp [put]

/-- A page holds what was put into it. -/
theorem Holds.put_self {a : Arena} {handle : Nat} {data new : Bytes}
    (h : a.Holds handle data) (hnew : new.length = a.pageSize) :
    (a.put handle new).Holds handle new := by
  have hlt : handle < a.pages.length := (List.getElem?_eq_some_iff.mp h.1).1
  exact ⟨by simp [put, List.getElem?_set_self hlt], hnew⟩

/-- Other pages are as before. -/
theorem getElem?_put_ne (a : Arena) {handle other : Nat} (h : handle ≠ other)
    (data : Bytes) :
    (a.put handle data).pages[other]? = a.pages[other]? := by
  simp [put, List.getElem?_set_ne h]

/-- Replacing octets keeps their number. -/
@[simp] theorem length_overlay (start : Nat) (data page : Bytes) :
    (overlay start data page).length = page.length := by
  simp only [overlay, List.length_append, List.length_take, List.length_drop]
  omega

/-- Replacing octets changes just those that the data covers. -/
theorem getElem?_overlay (start : Nat) (data page : Bytes) (i : Nat)
    (h : i < page.length) :
    (overlay start data page)[i]? =
      if start ≤ i ∧ i < start + data.length then data[i - start]? else
        page[i]? := by
  simp only [overlay, List.append_assoc]
  by_cases hlow : i < start
  · rw [List.getElem?_append_left (by simp; omega),
      List.getElem?_take_of_lt hlow, if_neg (by omega)]
  · have hmin : min start page.length = start := by omega
    rw [List.getElem?_append_right (by simp; omega),
      List.length_take (i := start), hmin]
    by_cases hhigh : i < start + data.length
    · rw [List.getElem?_append_left (by simp; omega),
        List.getElem?_take_of_lt (by omega), if_pos (by omega)]
    · rw [List.getElem?_append_right (by simp; omega), List.getElem?_drop,
        if_neg (by omega)]
      congr 1
      simp
      omega

end Arena

namespace Region

/-- The octet at an offset of a region. -/
def octet? (a : Arena) (r : Region) (offset : Nat) : Option UInt8 :=
  (r.pages[offset / a.pageSize]?).bind fun handle =>
    (a.pages[handle]?).bind fun page => page.data[offset % a.pageSize]?

/-- The pages of a region are in use, and no two of them are the same. -/
structure Backed (a : Arena) (r : Region) : Prop where
  pageSize_pos : 0 < a.pageSize
  nodup : r.pages.Nodup
  holds : ∀ handle ∈ r.pages, ∃ data, a.Holds handle data

/-- What a step on a region leaves alone: all pages of others, the free pages
and the size of pages. -/
structure Frame (r : Region) (a a' : Arena) : Prop where
  pageSize : a'.pageSize = a.pageSize
  free : a'.free = a.free
  others : ∀ handle, handle ∉ r.pages → a'.pages[handle]? = a.pages[handle]?

theorem Frame.refl (r : Region) (a : Arena) : Frame r a a :=
  ⟨rfl, rfl, fun _ _ => rfl⟩

theorem Frame.trans {r : Region} {a b c : Arena} (h : Frame r a b)
    (h' : Frame r b c) :
    Frame r a c :=
  ⟨h'.pageSize.trans h.pageSize, h'.free.trans h.free,
    fun handle hn => (h'.others handle hn).trans (h.others handle hn)⟩

/-- The octets of a region that a step leaves alone below and changes above. -/
def Overlaid (a a' : Arena) (r : Region) (start : Nat) (data : Bytes) : Prop :=
  ∀ offset, octet? a' r offset =
    if start ≤ offset ∧ offset < start + data.length then data[offset - start]?
    else octet? a r offset

section Pages

variable {a : Arena} {r : Region}

/-- The page of an index of a region. -/
theorem Backed.page (h : Backed a r) {index : Nat}
    (hi : index < r.pages.length) :
    ∃ handle data, r.pages[index]? = some handle ∧ a.Holds handle data := by
  obtain ⟨data, hdata⟩ := h.holds _ (List.getElem_mem hi)
  exact ⟨r.pages[index], data, List.getElem?_eq_getElem hi, hdata⟩

/-- The octet at an offset is an octet of the page that the offset belongs
to. -/
theorem octet?_eq {index handle : Nat} {data : Bytes}
    (hp : r.pages[index]? = some handle) (hd : a.Holds handle data)
    {offset : Nat} (ho : offset / a.pageSize = index) :
    octet? a r offset = data[offset % a.pageSize]? := by
  simp [octet?, ho, hp, hd.1]

/-- Storing into one page of a region keeps it backed. -/
theorem Backed.put (h : Backed a r) {handle : Nat} {data new : Bytes}
    (hd : a.Holds handle data) (hnew : new.length = a.pageSize) :
    Backed (a.put handle new) r := by
  refine ⟨h.pageSize_pos, h.nodup, fun other hother => ?_⟩
  by_cases heq : handle = other
  · subst heq
    exact ⟨new, hd.put_self hnew⟩
  · obtain ⟨old, hold⟩ := h.holds other hother
    exact ⟨old, (a.getElem?_put_ne heq new).trans hold.1, hold.2⟩

/-- Storing into the page of an offset, from that offset on, replaces the octets
of the region from that offset on. -/
theorem overlaid_put (h : Backed a r) {offset handle : Nat}
    {data piece : Bytes} (hp : r.pages[offset / a.pageSize]? = some handle)
    (hd : a.Holds handle data)
    (hfit : offset % a.pageSize + piece.length ≤ a.pageSize) :
    Overlaid a (a.put handle (Arena.overlay (offset % a.pageSize) piece data)) r
      offset piece := by
  intro other
  have hpos := h.pageSize_pos
  have hsplit := Nat.div_add_mod offset a.pageSize
  have hsplit' := Nat.div_add_mod other a.pageSize
  have hmod := Nat.mod_lt other hpos
  by_cases hpage : other / a.pageSize = offset / a.pageSize
  · -- the same page: its octets are the overlaid ones
    have hnew : (a.put handle
        (Arena.overlay (offset % a.pageSize) piece data)).Holds handle
        (Arena.overlay (offset % a.pageSize) piece data) :=
      hd.put_self (by simpa using hd.2)
    rw [octet?_eq hp hnew (by simpa using hpage), octet?_eq hp hd hpage,
      Arena.pageSize_put,
      Arena.getElem?_overlay _ _ _ _ (by rw [hd.2]; exact hmod)]
    rw [hpage] at hsplit'
    by_cases hin : offset ≤ other ∧ other < offset + piece.length
    · rw [if_pos hin, if_pos (by omega)]
      congr 1
      omega
    · rw [if_neg hin, if_neg (by omega)]
  · -- another page of the region, which is another page of the arena as well
    have hout : ¬ (offset ≤ other ∧ other < offset + piece.length) := by
      rintro ⟨hlow, hhigh⟩
      apply hpage
      refine Nat.le_antisymm ?_ (Nat.div_le_div_right hlow)
      rw [← Nat.lt_succ_iff, Nat.div_lt_iff_lt_mul hpos, Nat.succ_mul,
        Nat.mul_comm]
      omega
    rw [if_neg hout]
    unfold octet?
    rw [Arena.pageSize_put]
    cases hq : r.pages[other / a.pageSize]? with
    | none => rfl
    | some second =>
        have hne : handle ≠ second := by
          intro heq
          subst heq
          have hlt := (List.getElem?_eq_some_iff.mp hq).1
          exact hpage ((List.getElem?_inj hlt h.nodup).mp (hq.trans hp.symm))
        simp [a.getElem?_put_ne hne]

/-- Storing into a page of a region leaves the pages of others alone. -/
theorem frame_put {handle : Nat} (h : handle ∈ r.pages) (data : Bytes) :
    Frame r a (a.put handle data) := by
  refine ⟨rfl, rfl, fun other hother => a.getElem?_put_ne ?_ data⟩
  rintro rfl
  exact hother h

/-- Replacing no octets changes nothing. -/
theorem overlaid_nil (a : Arena) (r : Region) (start : Nat) :
    Overlaid a a r start [] := by
  intro offset
  rw [if_neg (by simp)]

/-- Two replacements one behind the other are one. -/
theorem Overlaid.append {b c : Arena} {start : Nat}
    {piece rest : Bytes} (h : Overlaid a b r start piece)
    (h' : Overlaid b c r (start + piece.length) rest) :
    Overlaid a c r start (piece ++ rest) := by
  intro offset
  rw [h' offset, h offset, List.length_append]
  by_cases hrest : start + piece.length ≤ offset ∧
    offset < start + piece.length + rest.length
  · rw [if_pos hrest, if_pos (by omega), List.getElem?_append_right (by omega)]
    congr 1
    omega
  · rw [if_neg hrest]
    by_cases hpiece : start ≤ offset ∧ offset < start + piece.length
    · rw [if_pos hpiece, if_pos (by omega),
        List.getElem?_append_left (by omega)]
    · rw [if_neg hpiece, if_neg (by omega)]

/-- The piece of some data that goes into the page of an offset fits there. -/
theorem piece_fits (hpos : 0 < a.pageSize) (offset : Nat) (data : Bytes) :
    offset % a.pageSize +
      (data.take (a.pageSize - offset % a.pageSize)).length ≤ a.pageSize := by
  have := Nat.mod_lt offset hpos
  rw [List.length_take]
  omega

/-- The first page of a write, and what is left of it. -/
theorem exec_writeFrom_succ {offset handle fuel : Nat} {old data : Bytes}
    (hdata : data ≠ []) (hp : r.pages[offset / a.pageSize]? = some handle)
    (hd : a.Holds handle old) :
    exec (r.writeFrom (fuel + 1) offset data) a =
      exec (r.writeFrom fuel (offset + (a.pageSize - offset % a.pageSize))
        (data.drop (a.pageSize - offset % a.pageSize)))
        (a.put handle (Arena.overlay (offset % a.pageSize)
          (data.take (a.pageSize - offset % a.pageSize)) old)) := by
  have hhandle : exec (r.handleAt (offset / a.pageSize)) a =
      (.ok handle, a) := by
    simp [handleAt, hp]
  rw [writeFrom, if_neg hdata, exec_bind_ok (exec_get a), exec_bind_ok hhandle,
    exec_bind_ok (Arena.exec_store hd _ _)]

/-- **Writing page by page replaces a stretch of octets**, if the pages of the
region reach that far. -/
theorem exec_writeFrom_ok {a : Arena} {offset fuel : Nat} {data : Bytes}
    (h : Backed a r) (hfuel : data.length ≤ fuel)
    (hfit : data = [] ∨ offset + data.length ≤ r.pages.length * a.pageSize) :
    ∃ a', exec (r.writeFrom fuel offset data) a = (.ok (), a') ∧ Backed a' r ∧
      Frame r a a' ∧
      Overlaid a a' r offset data := by
  induction fuel generalizing a offset data with
  | zero =>
      have hnil : data = [] := List.length_eq_zero_iff.mp (Nat.le_zero.mp hfuel)
      subst hnil
      exact ⟨a, rfl, h, Frame.refl r a, overlaid_nil a r offset⟩
  | succ fuel ih =>
      by_cases hnil : data = []
      · subst hnil
        exact ⟨a, by simp [writeFrom], h, Frame.refl r a,
          overlaid_nil a r offset⟩
      · have hpos := h.pageSize_pos
        have hlen : 0 < data.length := List.length_pos_iff.mpr hnil
        have hmod := Nat.mod_lt offset hpos
        have hreach : offset + data.length ≤ r.pages.length * a.pageSize :=
          hfit.resolve_left hnil
        have hindex : offset / a.pageSize < r.pages.length := by
          rw [Nat.div_lt_iff_lt_mul hpos]
          omega
        obtain ⟨handle, old, hp, hd⟩ := h.page hindex
        have hput : Backed (a.put handle (Arena.overlay (offset % a.pageSize)
            (data.take (a.pageSize - offset % a.pageSize)) old)) r :=
          h.put hd (by simpa using hd.2)
        obtain ⟨a', hrun, hbacked, hframe, hover⟩ := @ih _
          (offset + (a.pageSize - offset % a.pageSize))
          (data.drop (a.pageSize - offset % a.pageSize)) hput
          (by rw [List.length_drop]; omega)
          (by
            rw [List.length_drop, Arena.pageSize_put, List.drop_eq_nil_iff]
            omega)
        refine ⟨a', (exec_writeFrom_succ hnil hp hd).trans hrun,
          hbacked, ?_, ?_⟩
        · exact (frame_put (List.mem_of_getElem? hp) _).trans hframe
        · have hpiece := overlaid_put h hp hd (piece_fits hpos offset data)
          by_cases hlong : data.length ≤ a.pageSize - offset % a.pageSize
          · -- the last page takes all that is left
            rw [List.drop_eq_nil_iff.mpr hlong] at hover
            rw [List.take_of_length_le hlong] at hpiece hover
            intro o
            rw [hover o, if_neg (by simp), hpiece o]
          · have hmin : (data.take (a.pageSize - offset % a.pageSize)).length =
                a.pageSize - offset % a.pageSize := by
              rw [List.length_take]
              omega
            rw [← hmin] at hover
            have hboth := hpiece.append (by rw [hmin] at hover ⊢; exact hover)
            rwa [List.take_append_drop] at hboth

/-- A write that starts behind the pages of a region is a fault at once. -/
theorem exec_writeFrom_behind {offset fuel : Nat} {data : Bytes}
    (hpos : 0 < a.pageSize) (hdata : data ≠ [])
    (hbehind : r.pages.length * a.pageSize ≤ offset) :
    exec (r.writeFrom (fuel + 1) offset data) a = (.error .noPage, a) := by
  have hnone : r.pages[offset / a.pageSize]? = none :=
    List.getElem?_eq_none_iff.mpr ((Nat.le_div_iff_mul_le hpos).mpr hbehind)
  have hhandle : exec (r.handleAt (offset / a.pageSize)) a =
      (.error .noPage, a) := by
    simp [handleAt, hnone]
  rw [writeFrom, if_neg hdata, exec_bind_ok (exec_get a),
    exec_bind_error hhandle]

/-- A write beyond the pages of a region is a fault. -/
theorem exec_writeFrom_fault {a : Arena} {offset fuel : Nat} {data : Bytes}
    (h : Backed a r) (hfuel : data.length ≤ fuel) (hdata : data ≠ [])
    (hbeyond : r.pages.length * a.pageSize < offset + data.length) :
    ∃ e a', exec (r.writeFrom fuel offset data) a = (.error e, a') := by
  induction fuel generalizing a offset data with
  | zero =>
      exact absurd (List.length_eq_zero_iff.mp (Nat.le_zero.mp hfuel)) hdata
  | succ fuel ih =>
      have hpos := h.pageSize_pos
      have hlen : 0 < data.length := List.length_pos_iff.mpr hdata
      have hmod := Nat.mod_lt offset hpos
      by_cases hindex : offset / a.pageSize < r.pages.length
      · obtain ⟨handle, old, hp, hd⟩ := h.page hindex
        have hreach : offset + (a.pageSize - offset % a.pageSize) ≤
            r.pages.length * a.pageSize := by
          have hsplit := Nat.div_add_mod offset a.pageSize
          have hmul := Nat.mul_le_mul_right a.pageSize hindex
          rw [Nat.succ_mul, Nat.mul_comm] at hmul
          omega
        rw [exec_writeFrom_succ hdata hp hd]
        refine ih (h.put hd (by simpa using hd.2))
          (by rw [List.length_drop]; omega) ?_ ?_
        · rw [Ne, List.drop_eq_nil_iff]
          omega
        · rw [List.length_drop, Arena.pageSize_put]
          omega
      · have hbehind :=
          (Nat.le_div_iff_mul_le hpos).mp (Nat.le_of_not_lt hindex)
        exact ⟨.noPage, a, exec_writeFrom_behind hpos hdata hbehind⟩

/-- Whether a stretch of octets lies inside a region, and the pages of the
region reach that far. -/
def Contains (a : Arena) (r : Region) (offset : Int64) (length : Nat) : Prop :=
  0 ≤ offset.toInt ∧ offset.toInt + length ≤ r.size.toInt ∧
    offset.toInt + length ≤ r.pages.length * a.pageSize

/-- A stretch inside the region passes the check. -/
theorem exec_check_ok {offset : Int64} {length : Nat} (hlow : 0 ≤ offset.toInt)
    (hhigh : offset.toInt + length ≤ r.size.toInt) :
    exec (r.check offset (Int64.ofNat length)) a = (.ok (), a) := by
  have hsize := r.size.toInt_lt
  have hlength : (Int64.ofNat length).toInt = length :=
    Int64.toInt_ofNat_of_lt (by omega)
  have hsum : (offset + Int64.ofNat length).toInt = offset.toInt + length := by
    rw [toInt_add_of_range (by omega) (by omega), hlength]
  rw [check, if_neg]
  · rfl
  · simp only [Int64.lt_iff_toInt_lt, hsum, hlength, Int64.toInt_zero]
    omega

/-- **A write inside a region replaces the octets it covers, and nothing
else.** -/
theorem exec_write_ok {offset : Int64} {data : Bytes}
    (h : Backed a r) (hin : r.Contains a offset data.length) :
    ∃ a', exec (r.write offset data) a = (.ok (), a') ∧ Backed a' r ∧
      Frame r a a' ∧
      Overlaid a a' r offset.toInt.toNat data := by
  obtain ⟨hlow, hsize, hpages⟩ := hin
  rw [write, exec_bind_ok (exec_check_ok hlow hsize)]
  exact exec_writeFrom_ok h (Nat.le_refl _) (Or.inr (by omega))

/-- **A write that is not inside a region is a fault.** -/
theorem exec_write_fault {offset : Int64} {data : Bytes} (h : Backed a r)
    (hdata : data ≠ []) (hlength : data.length < 2 ^ 63)
    (hpages : r.pages.length * a.pageSize < 2 ^ 63)
    (hout : ¬ r.Contains a offset data.length) :
    ∃ e a', exec (r.write offset data) a = (.error e, a') := by
  have hlen : (Int64.ofNat data.length).toInt = data.length :=
    Int64.toInt_ofNat_of_lt hlength
  have hoffset := offset.toInt_lt
  by_cases hcheck : offset < 0 ∨ Int64.ofNat data.length < 0 ∨
      r.size < offset + Int64.ofNat data.length
  · refine ⟨.outside offset (offset + Int64.ofNat data.length) r.size, a, ?_⟩
    rw [write, check, if_pos hcheck]
    exact exec_bind_error (exec_throw _ a)
  · -- the check passes although the stretch is not inside: its end wraps, or
    -- there are too few pages
    have hok : exec (r.check offset (Int64.ofNat data.length)) a =
        (.ok (), a) := by
      rw [check, if_neg hcheck]
      rfl
    rw [write, exec_bind_ok hok]
    refine exec_writeFrom_fault h (Nat.le_refl _) hdata ?_
    simp only [Int64.lt_iff_toInt_lt, hlen, Int64.toInt_zero] at hcheck
    simp only [Contains] at hout
    have hend := (offset + Int64.ofNat data.length).le_toInt
    rcases toInt_add_cases offset (Int64.ofNat data.length) with
      hsum | hsum | hsum <;>
      rw [hlen] at hsum <;> omega

/-- The octets of a region from an offset on. -/
def octetsFrom (a : Arena) (r : Region) (offset length : Nat) : Bytes :=
  (List.range length).map fun i => (octet? a r (offset + i)).getD 0

@[simp] theorem length_octetsFrom (a : Arena) (r : Region)
    (offset length : Nat) :
    (octetsFrom a r offset length).length = length := by
  simp [octetsFrom]

/-- Octets from an offset on, cut in two. -/
theorem octetsFrom_add (a : Arena) (r : Region) (offset first second : Nat) :
    octetsFrom a r offset (first + second) =
      octetsFrom a r offset first ++
        octetsFrom a r (offset + first) second := by
  simp only [octetsFrom, List.range_add, List.map_append, List.map_map]
  congr 1
  apply List.map_congr_left
  intro i _
  simp [Nat.add_assoc]

/-- The part of a page from an offset of the region on. -/
theorem page_part {offset handle length : Nat} {data : Bytes}
    (h : Backed a r) (hp : r.pages[offset / a.pageSize]? = some handle)
    (hd : a.Holds handle data) :
    (data.drop (offset % a.pageSize)).take length =
      octetsFrom a r offset
        (min length (a.pageSize - offset % a.pageSize)) := by
  have hpos := h.pageSize_pos
  have hsplit := Nat.div_add_mod offset a.pageSize
  have hmod := Nat.mod_lt offset hpos
  apply List.ext_getElem?
  intro i
  by_cases hi : i < min length (a.pageSize - offset % a.pageSize)
  · have hdiv : (offset + i) / a.pageSize = offset / a.pageSize := by
      apply Nat.div_eq_of_lt_le
      · rw [Nat.mul_comm]
        omega
      · rw [Nat.succ_mul, Nat.mul_comm]
        omega
    have hrem : (offset + i) % a.pageSize = offset % a.pageSize + i := by
      have hsplit' := Nat.div_add_mod (offset + i) a.pageSize
      rw [hdiv] at hsplit'
      omega
    rw [List.getElem?_take_of_lt (by omega), List.getElem?_drop, octetsFrom,
      List.getElem?_map,
      List.getElem?_range hi, Option.map_some, octet?_eq hp hd hdiv, hrem]
    have hlt : offset % a.pageSize + i < data.length := by rw [hd.2]; omega
    rw [List.getElem?_eq_getElem hlt, Option.getD_some]
  · rw [List.getElem?_eq_none_iff.mpr, List.getElem?_eq_none_iff.mpr]
    · rw [length_octetsFrom]
      omega
    · rw [List.length_take, List.length_drop, hd.2]
      omega

/-- Reading page by page gives a stretch of octets.  The fuel has to last for
the pages that the stretch touches. -/
theorem exec_readFrom_ok {offset fuel length : Nat} {before : List Bytes}
    (h : Backed a r) (hfuel : length ≤ fuel * a.pageSize - offset % a.pageSize)
    (hfit : length = 0 ∨ offset + length ≤ r.pages.length * a.pageSize) :
    exec (r.readFrom before fuel offset length) a =
      (.ok (before.reverse.flatten ++ octetsFrom a r offset length), a) := by
  have hpos := h.pageSize_pos
  induction fuel generalizing offset length before with
  | zero =>
      have hzero : length = 0 := by omega
      subst hzero
      simp [readFrom, octetsFrom]
  | succ fuel ih =>
      by_cases hzero : length = 0
      · subst hzero
        simp [readFrom, octetsFrom]
      · have hmod := Nat.mod_lt offset hpos
        have hreach : offset + length ≤ r.pages.length * a.pageSize :=
          hfit.resolve_left hzero
        have hindex : offset / a.pageSize < r.pages.length := by
          rw [Nat.div_lt_iff_lt_mul hpos]
          omega
        obtain ⟨handle, data, hp, hd⟩ := h.page hindex
        have hhandle : exec (r.handleAt (offset / a.pageSize)) a =
            (.ok handle, a) := by
          simp [handleAt, hp]
        have hnext :
            (offset + (a.pageSize - offset % a.pageSize)) % a.pageSize = 0 := by
          have hsplit := Nat.div_add_mod offset a.pageSize
          have hmul : offset + (a.pageSize - offset % a.pageSize) =
              a.pageSize * (offset / a.pageSize + 1) := by
            rw [Nat.mul_succ]
            omega
          rw [hmul]
          exact Nat.mul_mod_right ..
        rw [readFrom, if_neg hzero, exec_bind_ok (exec_get a),
          exec_bind_ok hhandle, exec_bind_ok (Arena.exec_page hd),
          ih (by rw [hnext, Nat.succ_mul] at *; omega) (by omega),
          page_part h hp hd, List.reverse_cons, List.flatten_append]
        have hcut : length = min length (a.pageSize - offset % a.pageSize) +
            (length - (a.pageSize - offset % a.pageSize)) := by omega
        conv => rhs; rw [hcut, octetsFrom_add]
        by_cases hlast : length ≤ a.pageSize - offset % a.pageSize
        · rw [Nat.sub_eq_zero_of_le hlast]
          simp [octetsFrom]
        · rw [Nat.min_eq_right (by omega)]
          simp

/-- **A read inside a region gives the octets that are there.** -/
theorem exec_read_ok {offset length : Int64} (h : Backed a r)
    (hlength : 0 ≤ length.toInt)
    (hin : r.Contains a offset length.toInt.toNat) :
    exec (r.read offset length) a =
      (.ok (octetsFrom a r offset.toInt.toNat length.toInt.toNat), a) := by
  obtain ⟨hlow, hsize, hpages⟩ := hin
  have hmod := Nat.mod_lt offset.toInt.toNat h.pageSize_pos
  have hword : Int64.ofNat length.toInt.toNat = length := by
    apply Int64.toInt_inj.mp
    have := length.toInt_lt
    rw [Int64.toInt_ofNat_of_lt (by omega)]
    omega
  have hcheck := exec_check_ok (a := a) hlow hsize
  rw [hword] at hcheck
  have hlong : ¬ r.size < length := by
    rw [Int64.lt_iff_toInt_lt]
    omega
  rw [read, exec_bind_ok hcheck, if_neg hlong]
  show exec (r.readFrom [] (r.pages.length + 1) offset.toInt.toNat
    length.toInt.toNat) a = _
  rw [exec_readFrom_ok h ?_ (Or.inr (by omega))]
  · simp
  · rw [Nat.succ_mul]
    omega

/-- Reading beyond the pages of a region is a fault, if the fuel lasts for all
pages. -/
theorem exec_readFrom_fault {offset fuel length : Nat} {before : List Bytes}
    (h : Backed a r) (hlength : length ≠ 0) (hfuel : 0 < fuel)
    (hpages : r.pages.length < offset / a.pageSize + fuel)
    (hbeyond : r.pages.length * a.pageSize < offset + length) :
    exec (r.readFrom before fuel offset length) a = (.error .noPage, a) := by
  have hpos := h.pageSize_pos
  induction fuel generalizing offset length before with
  | zero => omega
  | succ fuel ih =>
      by_cases hindex : offset / a.pageSize < r.pages.length
      · obtain ⟨handle, data, hp, hd⟩ := h.page hindex
        have hhandle : exec (r.handleAt (offset / a.pageSize)) a =
            (.ok handle, a) := by
          simp [handleAt, hp]
        have hsplit := Nat.div_add_mod offset a.pageSize
        have hmod := Nat.mod_lt offset hpos
        have hnext : offset + (a.pageSize - offset % a.pageSize) =
            a.pageSize * (offset / a.pageSize + 1) := by
          rw [Nat.mul_succ]
          omega
        have hdiv : (offset + (a.pageSize - offset % a.pageSize)) / a.pageSize =
            offset / a.pageSize + 1 := by
          rw [hnext, Nat.mul_div_cancel_left _ hpos]
        have hreach : a.pageSize * (offset / a.pageSize + 1) ≤
            r.pages.length * a.pageSize := by
          rw [Nat.mul_comm]
          exact Nat.mul_le_mul_right a.pageSize hindex
        rw [readFrom, if_neg hlength, exec_bind_ok (exec_get a),
          exec_bind_ok hhandle, exec_bind_ok (Arena.exec_page hd)]
        apply ih
        · omega
        · omega
        · rw [hdiv]
          omega
        · omega
      · have hnone : r.pages[offset / a.pageSize]? = none :=
          List.getElem?_eq_none_iff.mpr (Nat.le_of_not_lt hindex)
        have hhandle : exec (r.handleAt (offset / a.pageSize)) a =
            (.error .noPage, a) := by
          simp [handleAt, hnone]
        rw [readFrom, if_neg hlength, exec_bind_ok (exec_get a),
          exec_bind_error hhandle]

end Pages

end Region

namespace Arena

/-- What acquiring pages leaves alone: the pages in use. -/
structure Keeps (a a' : Arena) : Prop where
  pageSize : a'.pageSize = a.pageSize
  used : ∀ (handle : Nat) (page : Page),
    a.pages[handle]? = some page → page.used = true →
    a'.pages[handle]? = some page

theorem Keeps.refl (a : Arena) : Keeps a a := ⟨rfl, fun _ _ h _ => h⟩

theorem Keeps.trans {a b c : Arena} (h : Keeps a b) (h' : Keeps b c) :
    Keeps a c :=
  ⟨h'.pageSize.trans h.pageSize,
    fun handle page hp hu => h'.used handle page (h.used handle page hp hu) hu⟩

/-- The octets of a zero page. -/
def zeros (a : Arena) : Bytes := List.replicate a.pageSize 0

/-- **An acquired page** is a zero page that was not in use before. -/
theorem acquired_spec {a : Arena} (h : a.Sound) :
    (a.acquired).2.Sound ∧ a.Keeps a.acquired.2 ∧
      a.acquired.2.Holds a.acquired.1 a.zeros ∧
      ∀ page, a.pages[a.acquired.1]? = some page → page.used = false := by
  unfold acquired
  cases hfree : a.free with
  | nil =>
      refine ⟨⟨h.pageSize_pos, ?_, by simp, by simp⟩, ⟨rfl, ?_⟩,
        ⟨by simp [zeroPage, zeros], by simp [zeros]⟩, ?_⟩
      · intro page hpage
        rcases List.mem_append.mp hpage with hold | hnew
        · exact h.sized page hold
        · rw [List.mem_singleton.mp hnew]
          simp [zeroPage]
      · intro handle page hp _
        have hlt := (List.getElem?_eq_some_iff.mp hp).1
        simpa [List.getElem?_append_left hlt] using hp
      · simp
  | cons first rest =>
      have hnodup := h.free_nodup
      rw [hfree, List.nodup_cons] at hnodup
      obtain ⟨old, hold, hunused⟩ :=
        h.free_unused first (by rw [hfree]; exact List.mem_cons_self)
      have hlt := (List.getElem?_eq_some_iff.mp hold).1
      refine ⟨⟨h.pageSize_pos, ?_, hnodup.2, ?_⟩, ⟨rfl, ?_⟩,
        ⟨?_, by simp [zeros]⟩, ?_⟩
      · intro page hpage
        rcases List.mem_or_eq_of_mem_set hpage with hin | rfl
        · exact h.sized page hin
        · simp [zeroPage]
      · intro handle hhandle
        have hne : first ≠ handle := by
          rintro rfl
          exact hnodup.1 hhandle
        obtain ⟨page, hp, hu⟩ :=
          h.free_unused handle
            (by rw [hfree]; exact List.mem_cons_of_mem _ hhandle)
        exact ⟨page, by simpa [List.getElem?_set_ne hne] using hp, hu⟩
      · intro handle page hp hu
        have hne : first ≠ handle := by
          rintro rfl
          rw [hold] at hp
          obtain rfl := Option.some.inj hp
          simp [hunused] at hu
        simpa [List.getElem?_set_ne hne] using hp
      · simp [List.getElem?_set_self hlt, zeroPage, zeros]
      · intro page hp
        rw [hold] at hp
        rw [← Option.some.inj hp]
        exact hunused

/-- The arena with a page given back. -/
def freed (a : Arena) (handle : Nat) (data : Bytes) : Arena :=
  { a with free := handle :: a.free, pages := a.pages.set handle ⟨data, false⟩ }

/-- A page that is in use can be given back. -/
theorem exec_freed {a : Arena} {handle : Nat} {data : Bytes}
    (h : a.Holds handle data) :
    exec (release handle) a = (.ok (), a.freed handle data) := by
  have hused : a.usedPage handle (.unusedRelease handle) =
      .ok ⟨data, true⟩ := by
    simp [usedPage, h.1]
  unfold release
  rw [exec_bind_ok (exec_get a), hused]
  rfl

/-- Other pages are as before. -/
theorem getElem?_freed_ne (a : Arena) {handle other : Nat} (h : handle ≠ other)
    (data : Bytes) :
    (a.freed handle data).pages[other]? = a.pages[other]? := by
  simp [freed, List.getElem?_set_ne h]

/-- Giving a page back keeps an arena sound. -/
theorem Sound.freed {a : Arena} (h : a.Sound) {handle : Nat} {data : Bytes}
    (hdata : a.Holds handle data) : (a.freed handle data).Sound := by
  have hlt := (List.getElem?_eq_some_iff.mp hdata.1).1
  have hfree : handle ∉ a.free := by
    intro hmem
    obtain ⟨page, hp, hu⟩ := h.free_unused handle hmem
    rw [hdata.1] at hp
    rw [← Option.some.inj hp] at hu
    simp at hu
  refine ⟨h.pageSize_pos, ?_, List.nodup_cons.mpr ⟨hfree, h.free_nodup⟩, ?_⟩
  · intro page hpage
    rcases List.mem_or_eq_of_mem_set hpage with hin | rfl
    · exact h.sized page hin
    · exact hdata.2
  · intro other hother
    rcases List.mem_cons.mp hother with rfl | hother
    · exact ⟨⟨data, false⟩, by simp [Arena.freed, List.getElem?_set_self hlt],
        rfl⟩
    · obtain ⟨page, hp, hu⟩ := h.free_unused other hother
      have hne : handle ≠ other := by
        rintro rfl
        exact hfree hother
      exact ⟨page, (a.getElem?_freed_ne hne data).trans hp, hu⟩

/-- A page that is in use stays as it is while pages are acquired. -/
theorem Keeps.holds {a a' : Arena} (h : Keeps a a') {handle : Nat}
    {data : Bytes} (hd : a.Holds handle data) : a'.Holds handle data :=
  ⟨h.used handle _ hd.1 rfl, hd.2.trans h.pageSize.symm⟩

end Arena

namespace Region

/-- Acquired pages are zero pages, no two of them the same and none of them in
use before. -/
theorem exec_acquirePages {a : Arena} (h : a.Sound) (count : Nat) :
    ∃ handles a',
    exec (acquirePages count) a = (.ok handles, a') ∧ a'.Sound ∧ a.Keeps a' ∧
      handles.length = count ∧ handles.Nodup ∧
      (∀ handle ∈ handles, a'.Holds handle a.zeros) ∧
      ∀ handle ∈ handles, ∀ page, a.pages[handle]? = some page →
        page.used = false := by
  induction count generalizing a with
  | zero =>
      exact ⟨[], a, rfl, h, Arena.Keeps.refl a, rfl, by simp, by simp, by simp⟩
  | succ count ih =>
      obtain ⟨hsound, hkeeps, hholds, hfresh⟩ := Arena.acquired_spec h
      obtain ⟨handles, a', hrun, hsound', hkeeps', hlength, hnodup, hzero,
          hunused⟩ := ih hsound
      have hzeros : a.acquired.2.zeros = a.zeros := by
        simp [Arena.zeros, hkeeps.pageSize]
      refine ⟨a.acquired.1 :: handles, a', ?_, hsound',
        hkeeps.trans hkeeps', by simp [hlength],
        List.nodup_cons.mpr ⟨?_, hnodup⟩, ?_, ?_⟩
      · have hfirst : exec Arena.acquire a = (.ok a.acquired.1, a.acquired.2) :=
          rfl
        rw [acquirePages, exec_bind_ok hfirst, exec_bind_ok hrun]
        rfl
      · intro hmem
        have := hunused _ hmem _ hholds.1
        simp at this
      · intro handle hmem
        rcases List.mem_cons.mp hmem with rfl | hmem
        · exact hkeeps'.holds hholds
        · rw [← hzeros]
          exact hzero handle hmem
      · intro handle hmem page hp
        rcases List.mem_cons.mp hmem with rfl | hmem
        · exact hfresh page hp
        · cases hu : page.used with
          | false => rfl
          | true =>
              rw [hunused handle hmem page (hkeeps.used handle page hp hu)]
                at hu
              simp at hu

/-- How many pages a region of some size gets: the number wraps for a size close
to the greatest one. -/
def pageCount (pageSize : Nat) (size : Int64) : Nat :=
  ((size + Int64.ofNat pageSize - 1) / Int64.ofNat pageSize).toInt.toNat

section PageCount

variable {pageSize : Nat} (hpos : 0 < pageSize) (hword : pageSize < 2 ^ 63)

include hpos hword

/-- **The number of pages** is the size in pages rounded up, or zero if it
wraps. -/
theorem pageCount_eq (size : Int64) : pageCount pageSize size =
    if size.toInt + pageSize ≤ 2 ^ 63 then
      (size.toInt + pageSize - 1).toNat / pageSize else 0 := by
  have hlow := size.le_toInt
  have hpage : (Int64.ofNat pageSize).toInt = pageSize :=
    Int64.toInt_ofNat_of_lt hword
  have hmore : (Int64.ofNat pageSize - 1).toInt = pageSize - 1 := by
    rw [toInt_sub_of_range, hpage, Int64.toInt_one]
    · rw [hpage, Int64.toInt_one]
      omega
    · rw [hpage, Int64.toInt_one]
      omega
  have hsum : size + Int64.ofNat pageSize - 1 =
      size + (Int64.ofNat pageSize - 1) := by
    grind
  have hne : Int64.ofNat pageSize ≠ -1 := by
    intro heq
    rw [heq] at hpage
    simp at hpage
  have hnone : ∀ n : Int, n ≤ 0 → (n.tdiv pageSize).toNat = 0 := by
    intro n hn
    have hneg : n.tdiv pageSize = -((-n).tdiv pageSize) := by
      rw [Int.neg_tdiv, Int.neg_neg]
    have hquotient :=
      Int.ediv_nonneg (a := -n) (b := pageSize) (by omega) (by omega)
    rw [hneg, Int.tdiv_eq_ediv_of_nonneg (by omega)]
    omega
  unfold pageCount
  rw [hsum, Int64.toInt_div_of_ne_right _ _ hne, hpage]
  by_cases hfit : size.toInt + pageSize ≤ 2 ^ 63
  · rw [if_pos hfit, toInt_add_of_range (by omega) (by omega), hmore,
      ← Int.add_sub_assoc]
    by_cases hneg : size.toInt + pageSize - 1 ≤ 0
    · rw [hnone _ hneg, Int.toNat_of_nonpos hneg, Nat.zero_div]
    · obtain ⟨n, hn⟩ :=
        Int.eq_ofNat_of_zero_le (a := size.toInt + pageSize - 1) (by omega)
      rw [hn, Int.tdiv_eq_ediv_of_nonneg (by omega)]
      rfl
  · rw [if_neg hfit]
    apply hnone
    have hhigh := size.toInt_lt
    have hbound := (size + (Int64.ofNat pageSize - 1)).toInt_lt
    rcases toInt_add_cases size (Int64.ofNat pageSize - 1) with
      hcase | hcase | hcase <;> omega

/-- The pages of a region reach to its end, unless their number wraps. -/
theorem le_pageCount {size : Int64} (hsize : size.toInt + pageSize ≤ 2 ^ 63) :
    size.toInt ≤ (pageCount pageSize size * pageSize : Nat) := by
  have hover := Nat.div_add_mod (size.toInt + pageSize - 1).toNat pageSize
  have hmod := Nat.mod_lt (size.toInt + pageSize - 1).toNat hpos
  rw [pageCount_eq hpos hword, if_pos hsize, Nat.mul_comm]
  omega

/-- A region has no pages, if their number wraps. -/
theorem pageCount_wrapped {size : Int64}
    (hsize : 2 ^ 63 < size.toInt + pageSize) :
    pageCount pageSize size = 0 := by
  rw [pageCount_eq hpos hword, if_neg (by omega)]

/-- The pages of a region have addresses of 64 bits. -/
theorem pageCount_lt (size : Int64) :
    pageCount pageSize size * pageSize < 2 ^ 63 := by
  have hdiv := Nat.div_mul_le_self (size.toInt + pageSize - 1).toNat pageSize
  rw [pageCount_eq hpos hword]
  split <;> omega

end PageCount

/-- **A new region is backed and all zero.** -/
theorem exec_new {a : Arena} (h : a.Sound) (size : Int64) :
    ∃ r a', exec (new size) a = (.ok r, a') ∧ a'.Sound ∧
      a'.pageSize = a.pageSize ∧ Backed a' r ∧
      r.size = size ∧ r.pages.length = pageCount a.pageSize size ∧
      ∀ handle ∈ r.pages, a'.Holds handle a.zeros := by
  obtain ⟨handles, a', hrun, hsound, hkeeps, hlength, hnodup, hzero, -⟩ :=
    exec_acquirePages h (pageCount a.pageSize size)
  refine ⟨⟨handles, size⟩, a', ?_, hsound, hkeeps.pageSize,
    ⟨hsound.pageSize_pos, hnodup, fun handle hmem => ⟨_, hzero handle hmem⟩⟩,
    rfl, hlength, hzero⟩
  rw [new, exec_bind_ok (exec_get a)]
  exact exec_bind_ok hrun

/-- A write keeps an arena sound. -/
theorem Frame.sound {a a' : Arena} {r : Region} (hframe : Frame r a a')
    (h : a.Sound) (hbacked : Backed a r) (hbacked' : Backed a' r) :
    a'.Sound := by
  refine ⟨hbacked'.pageSize_pos, ?_, hframe.free ▸ h.free_nodup, ?_⟩
  · intro page hpage
    obtain ⟨handle, hhandle⟩ := List.getElem?_of_mem hpage
    by_cases hmem : handle ∈ r.pages
    · obtain ⟨data, hdata⟩ := hbacked'.holds handle hmem
      rw [hdata.1] at hhandle
      rw [← Option.some.inj hhandle]
      exact hdata.2
    · rw [hframe.others handle hmem] at hhandle
      rw [hframe.pageSize]
      exact h.sized page (List.mem_of_getElem? hhandle)
  · intro handle hhandle
    rw [hframe.free] at hhandle
    obtain ⟨page, hp, hu⟩ := h.free_unused handle hhandle
    have hmem : handle ∉ r.pages := by
      intro hmem
      obtain ⟨data, hdata⟩ := hbacked.holds handle hmem
      rw [hdata.1] at hp
      rw [← Option.some.inj hp] at hu
      simp at hu
    exact ⟨page, (hframe.others handle hmem).trans hp, hu⟩

/-- **Pages that are given back are free.** -/
theorem exec_release {a : Arena} {r : Region} (h : a.Sound)
    (hbacked : Backed a r) :
    ∃ a', exec r.release a = (.ok ⟨[], 0⟩, a') ∧ a'.Sound ∧
      a'.pageSize = a.pageSize := by
  suffices hpages : ∀ (handles : List Nat) (a : Arena),
      a.Sound → handles.Nodup →
      (∀ handle ∈ handles, ∃ data, a.Holds handle data) →
      ∃ a', exec (handles.forM fun handle => Arena.release handle) a = (.ok (),
        a') ∧ a'.Sound ∧
        a'.pageSize = a.pageSize by
    obtain ⟨a', hrun, hsound, hsize⟩ :=
      hpages r.pages a h hbacked.nodup hbacked.holds
    refine ⟨a', ?_, hsound, hsize⟩
    rw [release, exec_bind_ok hrun]
    rfl
  intro handles
  induction handles with
  | nil => exact fun a h _ _ => ⟨a, rfl, h, rfl⟩
  | cons handle rest ih =>
      intro a h hnodup hholds
      rw [List.nodup_cons] at hnodup
      obtain ⟨data, hdata⟩ := hholds handle List.mem_cons_self
      obtain ⟨a', hrun, hsound, hsize⟩ :=
        ih (a.freed handle data) (h.freed hdata) hnodup.2 (by
        intro other hother
        have hne : handle ≠ other := by
          rintro rfl
          exact hnodup.1 hother
        obtain ⟨data', hdata'⟩ := hholds other (List.mem_cons_of_mem _ hother)
        exact ⟨data', (a.getElem?_freed_ne hne data).trans hdata'.1, hdata'.2⟩)
      exact ⟨a', (exec_bind_ok (Arena.exec_freed hdata)).trans hrun,
        hsound, hsize⟩

end Region

end System370
