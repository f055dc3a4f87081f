import System370.Bytes

/-!
# Paged storage

Object code is collected in regions of storage.  A region owns pages of an
arena, which keeps released pages for later use; every page is zero when it is
acquired.

Storage is accessed by handle and by offset, and an access that is not allowed
is a fault: a page that is not in use, an offset outside the region, an index to
which no page or no octet belongs.  What was done before the fault stays done.

* `Arena.acquire`, `Arena.release`, `Arena.page` and `Arena.store` handle single
  pages;
* `Region.new`, `Region.write`, `Region.read` and `Region.release` handle
  regions.
-/

namespace System370

/-- One page of storage. -/
structure Page where
  data : Bytes
  used : Bool
  deriving DecidableEq, Repr

/-- Pages, and which of them are free. -/
structure Arena where
  pageSize : Nat
  pages : List Page := []
  /-- The released pages, the last one first. -/
  free : List Nat := []
  deriving DecidableEq, Repr

/-- An access that is not allowed. -/
inductive StorageFault where
  | unusedRelease (handle : Int)
  | unusedAccess (handle : Int)
  | outside (start stop size : Int64)
  /-- There is no such page at all. -/
  | noPage
  /-- There is no such octet in the code of a statement. -/
  | noOctet
  deriving DecidableEq, Repr

/-- The text of a fault. -/
def StorageFault.message : StorageFault → Bytes
  | unusedRelease handle => bytes "region: release of unused page " ++
    decimal handle
  | unusedAccess handle => bytes "region: access to unused page " ++
    decimal handle
  | outside start stop size =>
    bytes "region: access [" ++ hexMarked start.toInt ++ bytes ", " ++
      hexMarked stop.toInt ++
      bytes ") outside of " ++ hexMarked size.toInt ++ bytes " bytes"
  | noPage => bytes "no such page"
  | noOctet => bytes "no such octet"

/-- A step on an arena, which keeps what it did before a fault. -/
abbrev StorageStep := ExceptT StorageFault (StateM Arena)

namespace Arena

/-- The octets of a page unless another size is asked for. -/
def defaultPageSize : Nat := 4096

/-- An arena without pages. -/
def ofPageSize (size : Int) : Arena :=
  { pageSize := if size ≤ 0 then defaultPageSize else size.toNat }

/-- A zero page. -/
def zeroPage (a : Arena) : Page := ⟨List.replicate a.pageSize 0, true⟩

/-- Takes the page released last, or a new one if none is free. -/
def acquired (a : Arena) : Nat × Arena :=
  match a.free with
  | handle :: free => (handle,
    { a with free, pages := a.pages.set handle a.zeroPage })
  | [] => (a.pages.length, { a with pages := a.pages ++ [a.zeroPage] })

/-- Acquires a zero page. -/
def acquire : StorageStep Nat := modifyGet acquired

/-- How many pages are in use. -/
def inUse (a : Arena) : Int := a.pages.length - a.free.length

/-- The used page of a handle, or the fault of an access to it. -/
def usedPage (a : Arena) (handle : Int) (unused : StorageFault) :
    Except StorageFault Page :=
  if handle < 0 then .error .noPage
  else match a.pages[handle.toNat]? with
    | some page => if page.used then .ok page else .error unused
    | none => .error unused

/-- Gives a page back. -/
def release (handle : Int) : StorageStep Unit := do
  match (← get).usedPage handle (.unusedRelease handle) with
  | .error e => throw e
  | .ok page =>
    modify fun a =>
      { a with
        free := handle.toNat :: a.free
        pages := a.pages.set handle.toNat { page with used := false } }

/-- The octets of a page. -/
def page (handle : Int) : StorageStep Bytes := do
  match (← get).usedPage handle (.unusedAccess handle) with
  | .ok page => pure page.data
  | .error e => throw e

/-- Replaces octets from `start` on, as far as the data and the page go. -/
def overlay (start : Nat) (data page : Bytes) : Bytes :=
  let data := data.take (page.length - start)
  page.take start ++ data ++ page.drop (start + data.length)

/-- Stores octets into a page. -/
def store (handle : Int) (start : Nat) (data : Bytes) : StorageStep Unit := do
  let before ← page handle
  modify fun a =>
    { a with pages :=
      a.pages.set handle.toNat ⟨overlay start data before, true⟩ }

end Arena

/-- A range of storage made of pages. -/
structure Region where
  pages : List Nat
  size : Int64
  deriving DecidableEq, Repr

namespace Region

/-- Acquires `count` pages. -/
def acquirePages : Nat → StorageStep (List Nat)
  | 0 => pure []
  | count + 1 => do
    let handle ← Arena.acquire
    return handle :: (← acquirePages count)

/-- A region of a given size, all zero. -/
def new (size : Int64) : StorageStep Region := do
  let pageSize := Int64.ofNat (← get).pageSize
  let count := (size + pageSize - 1) / pageSize
  return ⟨← acquirePages count.toInt.toNat, size⟩

/-- Faults unless a range is inside the region.  The end of the range wraps at
64 bits. -/
def check (r : Region) (offset length : Int64) : StorageStep Unit :=
  if offset < 0 ∨ length < 0 ∨ r.size < offset + length then
    throw (.outside offset (offset + length) r.size)
  else pure ()

/-- The handle of the page at an index. -/
def handleAt (r : Region) (index : Nat) : StorageStep Nat :=
  match r.pages[index]? with
  | some handle => pure handle
  | none => throw .noPage

/-- Writes data page by page; every page takes at least one octet of it. -/
def writeFrom (r : Region) : Nat → Nat → Bytes → StorageStep Unit
  | 0, _, _ => pure ()
  | fuel + 1, offset, data =>
    if data = [] then pure ()
    else do
      let pageSize := (← get).pageSize
      let start := offset % pageSize
      let handle ← r.handleAt (offset / pageSize)
      Arena.store handle start (data.take (pageSize - start))
      r.writeFrom fuel (offset + (pageSize - start))
        (data.drop (pageSize - start))

/-- Writes data at an offset. -/
def write (r : Region) (offset : Int64) (data : Bytes) : StorageStep Unit := do
  r.check offset (Int64.ofNat data.length)
  r.writeFrom data.length offset.toInt.toNat data

/-- Reads octets page by page; every page gives at least one of them.  `before`
holds what was read so far, the last page first. -/
def readFrom (r : Region) (before : List Bytes) :
    Nat → Nat → Nat → StorageStep Bytes
  | 0, _, _ => pure before.reverse.flatten
  | fuel + 1, offset, length =>
    if length = 0 then pure before.reverse.flatten
    else do
      let pageSize := (← get).pageSize
      let start := offset % pageSize
      let data ← Arena.page (← r.handleAt (offset / pageSize))
      let part := (data.drop start).take length
      r.readFrom (part :: before) fuel (offset + (pageSize - start))
        (length - (pageSize - start))

/-- Reads octets from an offset on.  A range longer than the region, whose end
wraps, has no pages. -/
def read (r : Region) (offset length : Int64) : StorageStep Bytes := do
  r.check offset length
  if r.size < length then throw .noPage
  r.readFrom [] (r.pages.length + 1) offset.toInt.toNat length.toInt.toNat

/-- Gives all pages back and leaves an empty region. -/
def release (r : Region) : StorageStep Region := do
  r.pages.forM fun handle => Arena.release handle
  return ⟨[], 0⟩

end Region

end System370
