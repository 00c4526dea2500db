import ModernC.Alloc.Addresses
import ModernC.Framework.ListUpdates

/-!
# The heap

A heap gives out blocks of a range of addresses, first from the list of free blocks and else at a
frontier.  A block that is given back is joined with the free blocks next to it and with what is
behind the frontier.  Whatever traps has no result.
-/

namespace ModernC.Alloc

open Framework

def heapFreeSlots : ℕ := 64

def heapLiveSlots : ℕ := 256

/-- A `FreeBlock` or `LiveBlock`.  Its end was computed by a checked addition. -/
structure HeapBlock where
  start : ℕ
  len : ℕ
  stop_lt : start + len < 2 ^ 64
deriving DecidableEq

def HeapBlock.stop (block : HeapBlock) : ℕ := block.start + block.len

/-- A block whose end is an address. -/
def mkBlock (start len : ℕ) : Option HeapBlock :=
  if h : start + len < 2 ^ 64 then some ⟨start, len, h⟩ else none

/-- A heap, with its slots up to `free_count` and `live_count`. -/
structure Heap where
  range : PhysRange
  next : ℕ
  free : List HeapBlock
  live : List HeapBlock
  trackLive : Bool
  droppedFreeBytes : ℕ

/-- `phys_range` -/
def physRange (start len : ℕ) : Option PhysRange := do
  let last ← paOffset start len
  return ⟨start, last⟩

def heapInit (range : PhysRange) : Heap :=
  { range := range, next := range.start, free := [], live := [], trackLive := true,
    droppedFreeBytes := 0 }

def heapInitUntracked (range : PhysRange) : Heap := { heapInit range with trackLive := false }

/-! ## Free blocks -/

def flAppend (h : Heap) (block : HeapBlock) : Heap :=
  if heapFreeSlots ≤ h.free.length then
    { h with
      droppedFreeBytes :=
        if h.droppedFreeBytes > 2 ^ 64 - 1 - block.len then 2 ^ 64 - 1
        else h.droppedFreeBytes + block.len }
  else { h with free := h.free ++ [block] }

/-- The pass over the free blocks: from an index on, the block is joined with its neighbours.  Each
step goes on to the next index or takes a block out. -/
def coalesce : ℕ → ℕ → List HeapBlock → HeapBlock → Option (List HeapBlock × HeapBlock)
  | 0, _, free, block => some (free, block)
  | fuel + 1, i, free, block =>
    match free[i]? with
    | none => some (free, block)
    | some other =>
      if block.start < other.stop ∧ other.start < block.stop then none
      else if other.stop = block.start then do
        let joined ← mkBlock other.start (block.len + other.len)
        coalesce fuel i (swapRemove free i) joined
      else if block.stop = other.start then do
        let joined ← mkBlock block.start (block.len + other.len)
        coalesce fuel i (swapRemove free i) joined
      else coalesce fuel (i + 1) free block

/-- The free blocks that end at the frontier are behind it from now on. -/
def absorb : ℕ → List HeapBlock → ℕ → List HeapBlock × ℕ
  | 0, free, next => (free, next)
  | fuel + 1, free, next =>
    match free.findIdx? fun other => other.stop == next with
    | none => (free, next)
    | some j => absorb fuel (swapRemove free j) ((free[j]?.map HeapBlock.start).getD next)

/-- `heap_release_compact`, which `heap_release` is. -/
def heapRelease (h : Heap) (start len : ℕ) : Option Heap :=
  if len = 0 then some h
  else do
    let block ← mkBlock start len
    let (free, joined) ← coalesce h.free.length 0 h.free block
    if joined.stop = h.next then
      let (free, next) := absorb free.length free joined.start
      return { h with free := free, next := next }
    else return flAppend { h with free := free } joined

/-! ## Live blocks -/

def heapLiveOverlaps (h : Heap) (start len : ℕ) (skip : ℕ) : Option Bool :=
  if len = 0 then some false
  else do
    let stop ← paOffset start len
    return h.live.zipIdx.any fun entry =>
      entry.2 ≠ skip && (start < entry.1.stop && entry.1.start < stop)

def heapRecordLive (h : Heap) (start len : ℕ) : Option Heap :=
  if !h.trackLive then some h
  else if len = 0 then some h
  else if heapLiveSlots ≤ h.live.length then none
  else do
    let overlaps ← heapLiveOverlaps h start len heapLiveSlots
    if overlaps then none
    else
      let block ← mkBlock start len
      return { h with live := h.live ++ [block] }

def heapFindLive (h : Heap) (start len : ℕ) : Option ℕ :=
  h.live.findIdx? fun block => block.start == start && block.len == len

def heapTakeLive (h : Heap) (start len : ℕ) : Option Heap :=
  if !h.trackLive then some h
  else if len = 0 then some h
  else do
    let i ← heapFindLive h start len
    return { h with live := swapRemove h.live i }

def heapResizeLive (h : Heap) (start oldLen newLen : ℕ) : Option Heap :=
  if !h.trackLive then some h
  else if oldLen = newLen then some h
  else if oldLen = 0 ∨ newLen = 0 then none
  else do
    let i ← heapFindLive h start oldLen
    let overlaps ← heapLiveOverlaps h start newLen i
    if overlaps then none
    else
      let block ← mkBlock start newLen
      return { h with live := h.live.set i block }

/-! ## Allocation -/

inductive HeapError where
  | exhausted
deriving DecidableEq

/-- A place in a free block. -/
structure Fit where
  index : ℕ
  block : HeapBlock
  astart : ℕ
  aend : ℕ

/-- The first free block from an index on that leaves room behind its aligned start. -/
def firstFit (size align : ℕ) : List HeapBlock → ℕ → Option (Option Fit)
  | [], _ => some none
  | block :: free, i =>
    if block.len ≠ 0 then do
      let astart ← paAlignUp block.start align
      if astart ≤ block.stop then do
        let aend ← paOffset astart size
        if aend ≤ block.stop then return some ⟨i, block, astart, aend⟩
        else firstFit size align free (i + 1)
      else firstFit size align free (i + 1)
    else firstFit size align free (i + 1)

/-- A gap is released if there is one. -/
def releaseGap (h : Heap) (start stop : ℕ) : Option Heap :=
  if start < stop then heapRelease h start (stop - start) else some h

def heapTryAllocRaw (h : Heap) (size align : ℕ) : Option (Except HeapError ℕ × Heap) := do
  match ← firstFit size align h.free 0 with
  | some fit =>
    let h := { h with free := swapRemove h.free fit.index }
    let h ← releaseGap h fit.block.start fit.astart
    let h ← releaseGap h fit.aend fit.block.stop
    return (.ok fit.astart, h)
  | none =>
    let start ← paAlignUp h.next align
    let next ← paOffset start size
    if h.range.last < next then return (.error .exhausted, h)
    else
      let h' ← releaseGap { h with next := next } h.next start
      return (.ok start, h')

def heapTryAlloc (h : Heap) (size align : ℕ) : Option (Except HeapError ℕ × Heap) :=
  if h.trackLive ∧ size ≠ 0 ∧ heapLiveSlots ≤ h.live.length then some (.error .exhausted, h)
  else do
    match ← heapTryAllocRaw h size align with
    | (.ok p, h) =>
      let h ← heapRecordLive h p size
      return (.ok p, h)
    | (.error e, h) => return (.error e, h)

/-- The allocator that traps where `heapTryAlloc` reports exhaustion. -/
def heapAlloc (h : Heap) (size align : ℕ) : Option (ℕ × Heap) :=
  if h.trackLive ∧ size ≠ 0 ∧ heapLiveSlots ≤ h.live.length then none
  else do
    match ← heapTryAllocRaw h size align with
    | (.ok p, h) =>
      let h ← heapRecordLive h p size
      return (p, h)
    | (.error _, _) => none

def heapFree (h : Heap) (addr size : ℕ) : Option Heap :=
  if size = 0 then some h
  else do
    let h ← heapTakeLive h addr size
    let length ← paDiff h.range.start h.range.last
    let stop ← paOffset addr size
    if addr < h.range.start ∨ h.range.last ≤ addr ∨ length < size ∨ h.range.last < stop ∨
        h.next < stop then none
    else heapRelease h addr size

def heapTryGrowInPlace (h : Heap) (addr oldLen newLen : ℕ) : Option (Bool × Heap) :=
  if newLen ≤ oldLen then some (true, h)
  else do
    let stop ← paOffset addr oldLen
    if stop ≠ h.next then return (false, h)
    else
      let newStop ← paOffset addr newLen
      if h.range.last < newStop then return (false, h)
      else
        let h ← heapResizeLive h addr oldLen newLen
        return (true, { h with next := newStop })

def heapAvailable (h : Heap) : Option ℕ := do
  let tail ← paDiff h.next h.range.last
  h.free.foldlM (fun total block => checkedAdd 64 total block.len) tail

end ModernC.Alloc
