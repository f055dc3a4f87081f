import System370.Assembly
import System370.Proofs.PagedStorage

/-!
# Storage that was used before

Two regions of the same size may lie in quite different arenas: one in a new
arena, the other on pages that earlier programs have left behind.  They are
`Alike` if their pages hold the same octets, whatever the handles of the pages
are.

A step on a region is `Blind` to the arena if it gives the same outcome for two
regions that are alike, also the same fault, and leaves them alike.  Storing
runs and reading texts are steps of this kind, since handles only serve to find
a page.  And new regions are alike, since acquired pages are zero.
-/

namespace System370

open StorageStep

namespace Region

/-- Two regions, each in an arena of its own, that hold the same octets. -/
structure Alike (r r' : Region) (a a' : Arena) : Prop where
  backed : r.Backed a
  backed' : r'.Backed a'
  pageSize : a'.pageSize = a.pageSize
  size : r'.size = r.size
  count : r'.pages.length = r.pages.length
  contents : ∀ (index : Nat) (handle handle' : Nat),
    r.pages[index]? = some handle →
    r'.pages[index]? = some handle' → ∃ data, a.Holds handle data ∧
      a'.Holds handle' data

variable {r r' : Region} {a a' : Arena}

/-- A region is like itself. -/
theorem Alike.self (h : r.Backed a) : r.Alike r a a := by
  refine ⟨h, h, rfl, rfl, rfl, fun index handle handle' hp hp' => ?_⟩
  obtain rfl := Option.some.inj (hp.symm.trans hp')
  obtain ⟨data, hdata⟩ := h.holds handle (List.mem_of_getElem? hp)
  exact ⟨data, hdata, hdata⟩

/-- Regions that are alike have no page at an index, or pages of the same
octets. -/
theorem Alike.page (h : r.Alike r' a a') (index : Nat) :
    (r.pages[index]? = none ∧ r'.pages[index]? = none) ∨
      ∃ handle handle' data,
      r.pages[index]? = some handle ∧ r'.pages[index]? = some handle' ∧
        a.Holds handle data ∧ a'.Holds handle' data := by
  by_cases hindex : index < r.pages.length
  · obtain ⟨handle, -, hp, -⟩ := h.backed.page hindex
    obtain ⟨handle', -, hp', -⟩ := h.backed'.page (h.count ▸ hindex)
    obtain ⟨data, hdata, hdata'⟩ := h.contents index handle handle' hp hp'
    exact Or.inr ⟨handle, handle', data, hp, hp', hdata, hdata'⟩
  · exact Or.inl ⟨List.getElem?_eq_none (Nat.le_of_not_lt hindex),
      List.getElem?_eq_none (h.count ▸ Nat.le_of_not_lt hindex)⟩

/-- Storing the same octets into pages of the same index leaves regions
alike. -/
theorem Alike.put (h : r.Alike r' a a') {index handle handle' : Nat}
    {data new : Bytes} (hp : r.pages[index]? = some handle)
    (hp' : r'.pages[index]? = some handle') (hdata : a.Holds handle data)
    (hdata' : a'.Holds handle' data) (hnew : new.length = a.pageSize) :
    r.Alike r' (a.put handle new) (a'.put handle' new) := by
  have hnew' : new.length = a'.pageSize := hnew.trans h.pageSize.symm
  refine ⟨h.backed.put hdata hnew, h.backed'.put hdata' hnew', h.pageSize,
    h.size, h.count, fun other second second' hq hq' => ?_⟩
  by_cases heq : other = index
  · subst heq
    obtain rfl := Option.some.inj (hp.symm.trans hq)
    obtain rfl := Option.some.inj (hp'.symm.trans hq')
    exact ⟨new, hdata.put_self hnew, hdata'.put_self hnew'⟩
  · -- pages of other indices have other handles, in both regions
    have hne : ∀ {pages : List Nat} {p q : Nat},
        pages.Nodup → pages[index]? = some p →
        pages[other]? = some q → p ≠ q := by
      intro pages p q hnodup hp hq hsame
      have hlt := (List.getElem?_eq_some_iff.mp hp).1
      exact heq
        ((List.getElem?_inj hlt hnodup).mp (hp.trans (hsame ▸ hq.symm))).symm
    obtain ⟨old, hold, hold'⟩ := h.contents other second second' hq hq'
    exact ⟨old,
      ⟨(a.getElem?_put_ne (hne h.backed.nodup hp hq) new).trans hold.1, hold.2⟩,
      ⟨(a'.getElem?_put_ne (hne h.backed'.nodup hp' hq') new).trans hold'.1,
        hold'.2⟩⟩

/-- Two steps, one on each of two regions, with the same outcome on regions that
are alike.  They leave the rest of their arenas alone. -/
def Blind (r r' : Region) {α : Type} (x x' : StorageStep α) : Prop :=
  ∀ a a', r.Alike r' a a' → (exec x a).1 = (exec x' a').1 ∧
    r.Alike r' (exec x a).2 (exec x' a').2 ∧ r.Frame a (exec x a).2 ∧
      r'.Frame a' (exec x' a').2

section Steps

variable {α β : Type}

theorem blind_pure (v : α) : Blind r r' (pure v) (pure v) :=
  fun a a' h => ⟨rfl, h, Frame.refl r a, Frame.refl r' a'⟩

theorem blind_throw (e : StorageFault) :
    Blind r r' (throw e : StorageStep α) (throw e) :=
  fun a a' h => ⟨rfl, h, Frame.refl r a, Frame.refl r' a'⟩

theorem blind_bind {x x' : StorageStep α} {f f' : α → StorageStep β}
    (hx : Blind r r' x x') (hf : ∀ v, Blind r r' (f v) (f' v)) :
    Blind r r' (x >>= f) (x' >>= f') := by
  intro a a' h
  obtain ⟨hsame, halike, hframe, hframe'⟩ := hx a a' h
  rw [exec_bind, exec_bind]
  generalize exec x a = out at hsame halike hframe
  generalize exec x' a' = out' at hsame halike hframe'
  obtain ⟨outcome, b⟩ := out
  obtain ⟨outcome', b'⟩ := out'
  obtain rfl : outcome = outcome' := hsame
  cases outcome with
  | error e => exact ⟨rfl, halike, hframe, hframe'⟩
  | ok v =>
      obtain ⟨hsame, halike', hnext, hnext'⟩ := hf v b b' halike
      exact ⟨hsame, halike', hframe.trans hnext, hframe'.trans hnext'⟩

/-- Looking at the arena for the size of its pages. -/
theorem blind_get {f f' : Arena → StorageStep α}
    (hf : ∀ b b', b'.pageSize = b.pageSize → Blind r r' (f b) (f' b')) :
    Blind r r' (get >>= f) (get >>= f') := by
  intro a a' h
  rw [exec_bind_ok (exec_get a), exec_bind_ok (exec_get a')]
  exact hf a a' h.pageSize a a' h

theorem blind_forM {items : List β}
    {f f' : β → StorageStep Unit} (hf : ∀ item, Blind r r' (f item) (f' item)) :
    Blind r r' (items.forM f) (items.forM f') := by
  induction items with
  | nil => exact blind_pure ()
  | cons item rest ih => exact blind_bind (hf item) fun _ => ih

theorem blind_mapM {items : List β}
    {f f' : β → StorageStep α} (hf : ∀ item, Blind r r' (f item) (f' item)) :
    Blind r r' (items.mapM f) (items.mapM f') := by
  induction items with
  | nil => exact blind_pure []
  | cons item rest ih =>
      rw [List.mapM_cons, List.mapM_cons]
      exact blind_bind (hf item) fun _ => blind_bind ih fun _ => blind_pure _

end Steps

/-! ### Writing and reading -/

/-- Storing into the page of an index. -/
theorem blind_store (index start : Nat) (data : Bytes) :
    Blind r r' (do Arena.store (← r.handleAt index) start data)
      (do Arena.store (← r'.handleAt index) start data) := by
  intro a a' h
  rcases h.page index with
    ⟨hnone, hnone'⟩ | ⟨handle, handle', old, hp, hp', hold, hold'⟩
  · have hfault : ∀ {s : Region} {b : Arena}, s.pages[index]? = none →
        exec (do Arena.store (← s.handleAt index) start data)
          b = (.error .noPage, b) :=
      fun hs => exec_bind_error (by simp [handleAt, hs])
    rw [hfault hnone, hfault hnone']
    exact ⟨rfl, h, Frame.refl r a, Frame.refl r' a'⟩
  · have hstore : ∀ {s : Region} {b : Arena} {p : Nat},
        s.pages[index]? = some p → b.Holds p old →
        exec (do Arena.store (← s.handleAt index) start data) b =
          (.ok (), b.put p (Arena.overlay start data old)) := by
      intro s b p hs hb
      have hhandle : exec (s.handleAt index) b = (.ok p, b) := by
        simp [handleAt, hs]
      rw [exec_bind_ok hhandle, Arena.exec_store hb]
    rw [hstore hp hold, hstore hp' hold']
    exact ⟨rfl, h.put hp hp' hold hold' (by simpa using hold.2),
      frame_put (List.mem_of_getElem? hp) _,
      frame_put (List.mem_of_getElem? hp') _⟩

/-- Reading the page of an index. -/
theorem blind_page (index : Nat) :
    Blind r r' (do Arena.page (← r.handleAt index))
      (do Arena.page (← r'.handleAt index)) := by
  intro a a' h
  rcases h.page index with
    ⟨hnone, hnone'⟩ | ⟨handle, handle', old, hp, hp', hold, hold'⟩
  · have hfault : ∀ {s : Region} {b : Arena}, s.pages[index]? = none →
        exec (do Arena.page (← s.handleAt index)) b = (.error .noPage, b) :=
      fun hs => exec_bind_error (by simp [handleAt, hs])
    rw [hfault hnone, hfault hnone']
    exact ⟨rfl, h, Frame.refl r a, Frame.refl r' a'⟩
  · have hpage : ∀ {s : Region} {b : Arena} {p : Nat},
        s.pages[index]? = some p → b.Holds p old →
        exec (do Arena.page (← s.handleAt index)) b = (.ok old, b) := by
      intro s b p hs hb
      have hhandle : exec (s.handleAt index) b = (.ok p, b) := by
        simp [handleAt, hs]
      rw [exec_bind_ok hhandle, Arena.exec_page hb]
    rw [hpage hp hold, hpage hp' hold']
    exact ⟨rfl, h, Frame.refl r a, Frame.refl r' a'⟩

/-- Octets are written alike, whichever pages hold them. -/
theorem blind_writeFrom (fuel offset : Nat) (data : Bytes) :
    Blind r r' (r.writeFrom fuel offset data)
      (r'.writeFrom fuel offset data) := by
  induction fuel generalizing offset data with
  | zero => exact blind_pure ()
  | succ fuel ih =>
      unfold writeFrom
      split
      · exact blind_pure ()
      · refine blind_get fun b b' hsize => ?_
        have hfirst :=
          @blind_store r r' (offset / b.pageSize) (offset % b.pageSize)
            (data.take (b.pageSize - offset % b.pageSize))
        have hboth := blind_bind hfirst fun _ =>
          ih (offset + (b.pageSize - offset % b.pageSize))
          (data.drop (b.pageSize - offset % b.pageSize))
        simpa only [hsize, bind_assoc] using hboth

/-- Bounds are checked alike. -/
theorem blind_check (h : r'.size = r.size) (offset length : Int64) :
    Blind r r' (r.check offset length) (r'.check offset length) := by
  unfold check
  rw [h]
  split
  · exact blind_throw _
  · exact blind_pure ()

/-- **Writing does not depend on the arena.** -/
theorem blind_write (h : r'.size = r.size) (offset : Int64) (data : Bytes) :
    Blind r r' (r.write offset data) (r'.write offset data) :=
  blind_bind (blind_check h _ _) fun _ => blind_writeFrom _ _ _

/-- What has been written is read alike. -/
theorem blind_readFrom (before : List Bytes) (fuel offset length : Nat) :
    Blind r r' (r.readFrom before fuel offset length)
      (r'.readFrom before fuel offset length) := by
  induction fuel generalizing before offset length with
  | zero => exact blind_pure _
  | succ fuel ih =>
      unfold readFrom
      split
      · exact blind_pure _
      · refine blind_get fun b b' hsize => ?_
        have hfirst := @blind_page r r' (offset / b.pageSize)
        have hboth := blind_bind hfirst fun data =>
          ih (((data.drop (offset % b.pageSize)).take length) :: before)
            (offset + (b.pageSize - offset % b.pageSize))
              (length - (b.pageSize - offset % b.pageSize))
        simpa only [hsize, bind_assoc] using hboth

/-- **Reading does not depend on the arena.** -/
theorem blind_read (hsize : r'.size = r.size)
    (hcount : r'.pages.length = r.pages.length) (offset length : Int64) :
    Blind r r' (r.read offset length) (r'.read offset length) := by
  refine blind_bind (blind_check hsize _ _) fun _ => ?_
  rw [hsize, hcount]
  split
  · exact blind_throw _
  · exact blind_readFrom _ _ _ _

/-- **New regions are alike**: their pages are zero, whatever was on them. -/
theorem alike_new (h : a.Sound) (h' : a'.Sound)
    (hpage : a'.pageSize = a.pageSize) (size : Int64) :
    ∃ r r' b b',
    exec (new size) a = (.ok r, b) ∧ exec (new size) a' = (.ok r', b') ∧
      r.Alike r' b b' ∧ b.Sound ∧ b'.Sound := by
  obtain ⟨r, b, hnew, hsound, hb, hbacked, hsize, hcount, hzero⟩ :=
    exec_new h size
  obtain ⟨r', b', hnew', hsound', hb', hbacked', hsize', hcount', hzero'⟩ :=
    exec_new h' size
  refine ⟨r, r', b, b', hnew, hnew',
    ⟨hbacked, hbacked', ?_, hsize'.trans hsize.symm, ?_, ?_⟩,
    hsound, hsound'⟩
  · rw [hb, hb', hpage]
  · rw [hcount, hcount', hpage]
  · intro index handle handle' hp hp'
    have hzeros : a'.zeros = a.zeros := by simp [Arena.zeros, hpage]
    exact ⟨a.zeros, hzero handle (List.mem_of_getElem? hp),
      hzeros ▸ hzero' handle' (List.mem_of_getElem? hp')⟩

end Region

namespace Workspace

variable {region region' : Region} {a a' : Arena}

/-- The octets are stored, and the texts read if there was no fault and no
error. -/
theorem collect_eq (region : Region) (g : Generation) (isClean : Bool) :
    collect region g isClean = (do
      storeRuns region g.runs
      match g.fault with
      | some e => throw e
      | none =>
          if isClean then readTexts region (Extent.ofRuns g.runs) else
              pure []) := by
  unfold collect
  cases g.fault with
  | none => cases isClean <;> rfl
  | some e => cases isClean <;> rfl

/-- **Collecting the code of a program does not depend on the arena.** -/
theorem blind_collect (hsize : region'.size = region.size)
    (hcount : region'.pages.length = region.pages.length) (g : Generation)
    (isClean : Bool) :
    region.Blind region' (collect region g isClean)
      (collect region' g isClean) := by
  have hread : region.Blind region'
      (if isClean then readTexts region (Extent.ofRuns g.runs) else pure [])
      (if isClean then readTexts region' (Extent.ofRuns g.runs) else
        pure []) := by
    split
    · exact Region.blind_mapM fun e =>
        Region.blind_bind (Region.blind_read hsize hcount _ _)
        fun _ => Region.blind_pure _
    · exact Region.blind_pure _
  rw [collect_eq, collect_eq]
  refine Region.blind_bind
    (Region.blind_forM fun run => Region.blind_write hsize _ _) fun _ => ?_
  split
  · exact Region.blind_throw _
  · exact hread

/-- Collecting leaves the arena in order, also if it ends in a fault. -/
theorem sound_collect (hsound : a.Sound) (hbacked : region.Backed a)
    (g : Generation) (isClean : Bool) :
    (exec (collect region g isClean) a).2.Sound ∧
    (exec (collect region g isClean) a).2.pageSize = a.pageSize ∧
    region.Backed (exec (collect region g isClean) a).2 := by
  obtain ⟨-, halike, hframe, -⟩ :=
    blind_collect rfl rfl g isClean a a (Region.Alike.self hbacked)
  exact ⟨hframe.sound hsound hbacked halike.backed, hframe.pageSize,
    halike.backed⟩

end Workspace

end System370
