import ModernC.Alloc.LiveTable
import ModernC.Libc.MemCopy

/-!
# The C allocator

`malloc` and its relatives work on a heap over a static arena.  In front of each payload is a header
with the size of its block.  The work is done on addresses, where zero stands for the null pointer,
and only the exports make pointers of them.  To make or to read a null pointer traps.
-/

namespace ModernC.Libc

open Framework Alloc

/-- `ARENA_BYTES` -/
def arenaBytes : ℕ := 1048576

/-- `HEADER` -/
def header : ℕ := 16

/-- The globals of the allocator, and the memory. -/
structure LibcState where
  heap : Heap
  inited : Bool
  mem : Memory

/-- The globals before the first call. -/
def LibcState.start (mem : Memory) : LibcState :=
  { heap := heapInitUntracked ⟨0, 0⟩, inited := false, mem := mem }

section

-- the address of `g_arena`
variable (base : ℕ)

def ensureInit (s : LibcState) : Option LibcState :=
  if s.inited then some s
  else do
    let range ← physRange base arenaBytes
    return { s with heap := heapInitUntracked range, inited := true }

def inArena (user : ℕ) : Option Bool :=
  if user < base then some false
  else do
    let last ← checkedAdd 64 base arenaBytes
    return !(last ≤ user)

def mallocAddr (s : LibcState) (size : ℕ) : Option (ℕ × LibcState) := do
  let s ← ensureInit base s
  if size = 0 then return (0, s)
  else
    let total ← checkedAdd 64 size header
    match ← heapTryAlloc s.heap total header with
    | (.ok block, h) =>
      let user ← paOffset block header
      return (user, { s with heap := h, mem := storeWord s.mem block total })
    | (.error _, h) => return (0, { s with heap := h })

def freeAddr (s : LibcState) (user : ℕ) : Option LibcState :=
  if user = 0 then some s
  else do
    let block ← checkedSub user header
    let total := loadWord s.mem block
    if ← inArena base user then
      let h ← heapFree s.heap block total
      return { s with heap := h }
    else return s

/-- The block of a payload is made longer where it is, if it can be. -/
def growInPlace (s : LibcState) (old block oldTotal newTotal : ℕ) : Option (Bool × Heap) := do
  if ← inArena base old then heapTryGrowInPlace s.heap block oldTotal newTotal
  else return (false, s.heap)

/-- The payload is copied and the old one is freed. -/
def replaceAddr (s : LibcState) (newAddr old oldPayload : ℕ) : Option LibcState := do
  let mem ← memCopy s.mem newAddr old oldPayload
  freeAddr base { s with mem := mem } old

/-- The payload is moved to a new block, if there is one. -/
def moveAddr (s : LibcState) (old oldPayload size : ℕ) : Option (ℕ × LibcState) := do
  let (newAddr, s) ← mallocAddr base s size
  if newAddr = 0 then return (0, s)
  else
    let s ← replaceAddr base s newAddr old oldPayload
    return (newAddr, s)

def reallocAddr (s : LibcState) (old size : ℕ) : Option (ℕ × LibcState) :=
  if old = 0 then mallocAddr base s size
  else if size = 0 then do
    let s ← freeAddr base s old
    return (0, s)
  else do
    let block ← checkedSub old header
    let oldTotal := loadWord s.mem block
    let oldPayload ← checkedSub oldTotal header
    if size ≤ oldPayload then return (old, s)
    else
      let newTotal ← checkedAdd 64 size header
      let (grown, h) ← growInPlace base s old block oldTotal newTotal
      if grown then
        return (old, { s with heap := h, mem := storeWord s.mem block newTotal })
      else moveAddr base { s with heap := h } old oldPayload size

/-- What `calloc` does before it makes a pointer of the address. -/
def callocAddr (s : LibcState) (count size : ℕ) : Option (ℕ × LibcState) :=
  if size ≠ 0 ∧ (2 ^ 64 - 1) / size < count then some (0, s)
  else do
    let total ← checkedMul 64 count size
    let (addr, s) ← mallocAddr base s total
    if addr ≠ 0 then
      let mem ← memSet s.mem addr 0 total
      return (addr, { s with mem := mem })
    else return (addr, s)

/-! ## The exports -/

/-- `lc_as_ptr` of the address that a call answers. -/
def asPtr (answer : Option (ℕ × LibcState)) : Option (ℕ × LibcState) := do
  let (addr, s) ← answer
  let p ← nonNull addr
  return (p, s)

def malloc (s : LibcState) (size : ℕ) : Option (ℕ × LibcState) := asPtr (mallocAddr base s size)

/-- `mc_free`, which is `free` for C.  `lc_ptr_addr` reads the pointer. -/
def mcFree (s : LibcState) (p : ℕ) : Option LibcState := do
  let user ← nonNull p
  freeAddr base s user

def calloc (s : LibcState) (count size : ℕ) : Option (ℕ × LibcState) :=
  asPtr (callocAddr base s count size)

def realloc (s : LibcState) (p size : ℕ) : Option (ℕ × LibcState) := do
  let old ← nonNull p
  asPtr (reallocAddr base s old size)

end

end ModernC.Libc

/-!
## Payloads and their headers

The blocks of the live payloads are what the heap holds, and the header of each says how long its
block is.  Each operation keeps this, whatever the memory holds elsewhere.
-/

namespace ModernC.Libc

open Framework Alloc

variable {base : ℕ} {s s' : LibcState} {h h' : Heap} {m m' : Memory} {owned : List HeapBlock}

/-! ## A heap without a table -/

lemma heapRecordLive_of_untracked (huntracked : h.trackLive = false) (start len : ℕ) :
    heapRecordLive h start len = some h := by
  rw [heapRecordLive, huntracked]
  rfl

lemma heapTryAlloc_of_untracked (hown : h.Owns owned) (huntracked : h.trackLive = false)
    (size align : ℕ) : heapTryAlloc h size align = heapTryAllocRaw h size align := by
  rw [heapTryAlloc, if_neg (by simp [huntracked])]
  rcases hraw : heapTryAllocRaw h size align with _ | ⟨answer, h'⟩
  · rfl
  · rcases hown.tryAllocRaw hraw with ⟨rfl, rfl⟩ | ⟨p, rfl, hgives⟩
    · rfl
    · have hrecord : heapRecordLive h' p size = some h' :=
        heapRecordLive_of_untracked (hgives.frame.trackLive.trans huntracked) p size
      simp only [Option.bind_eq_bind, Option.bind_some, hrecord]
      rfl

/-! ## The invariant -/

/-- A live payload, with what was asked for and the size of its block. -/
structure Payload where
  addr : ℕ
  size : ℕ
  total : ℕ
deriving DecidableEq

def Payload.block (p : Payload) : Allocation := ⟨p.addr - header, p.total, header⟩

/-- The header of a payload says how long its block is. -/
structure Payload.Sound (p : Payload) (m : Memory) : Prop where
  size_pos : 0 < p.size
  header_le : header ≤ p.addr
  size_le : p.size + header ≤ p.total
  loadWord_eq : loadWord m (p.addr - header) = p.total

/-- The arena. -/
def arena (base : ℕ) : PhysRange := ⟨base, base + arenaBytes⟩

/-- The globals as a call finds them after `ensureInit`. -/
def LibcState.ready (base : ℕ) (s : LibcState) : LibcState :=
  if s.inited then s
  else { s with heap := heapInitUntracked (arena base), inited := true }

/-- The heap holds the blocks of what is live. -/
structure LibcState.Tracks (base : ℕ) (s : LibcState) (live : List Payload) : Prop where
  holds : (s.ready base).heap.Holds (arena base) (live.map Payload.block)
  untracked : (s.ready base).heap.trackLive = false
  fresh : s.inited = false → live = []
  sound : ∀ p ∈ live, p.Sound s.mem

@[simp] lemma ready_mem (base : ℕ) (s : LibcState) : (s.ready base).mem = s.mem := by
  rw [LibcState.ready]
  split <;> rfl

@[simp] lemma ready_inited (base : ℕ) (s : LibcState) : (s.ready base).inited = true := by
  rw [LibcState.ready]
  split
  · assumption
  · rfl

lemma ready_of_inited (hinited : s.inited = true) : s.ready base = s := by
  rw [LibcState.ready, if_pos hinited]

lemma ensureInit_eq (hbase : base + arenaBytes < 2 ^ 64) (s : LibcState) :
    ensureInit base s = some (s.ready base) := by
  have hrange : physRange base arenaBytes = some (arena base) := by
    rw [physRange, paOffset_eq_some.mpr ⟨hbase, rfl⟩]
    rfl
  rw [ensureInit, LibcState.ready]
  split
  · rfl
  · rw [hrange]
    rfl

variable {live live' : List Payload} {p q : Payload}

lemma tracks_start (hbase : base + arenaBytes < 2 ^ 64) (m : Memory) :
    (LibcState.start m).Tracks base [] := by
  refine ⟨?_, rfl, fun _ => rfl, nofun⟩
  have hle : (arena base).start ≤ (arena base).last := Nat.le_add_right base arenaBytes
  obtain ⟨howns, -, haligned, hstops⟩ := holds_heapInit hle hbase
  exact ⟨⟨howns.start_le, howns.next_le, howns.last_lt, howns.len_pos, howns.above, howns.free_lt,
    howns.owned_le, howns.apart, howns.nonAdjacent, howns.length_le, howns.account⟩, rfl, haligned,
    hstops⟩

/-- A state that a call has prepared. -/
lemma LibcState.Tracks.of_inited (hinited : s.inited = true)
    (hholds : s.heap.Holds (arena base) (live.map Payload.block))
    (huntracked : s.heap.trackLive = false) (hsound : ∀ p ∈ live, p.Sound s.mem) :
    s.Tracks base live := by
  refine ⟨?_, ?_, fun hfresh => absurd (hinited.symm.trans hfresh) nofun, hsound⟩
  · rwa [ready_of_inited hinited]
  · rwa [ready_of_inited hinited]

lemma LibcState.Tracks.ready (htracks : s.Tracks base live) : (s.ready base).Tracks base live :=
  .of_inited (ready_inited base s) htracks.holds htracks.untracked fun p hp =>
    (ready_mem base s).symm ▸ htracks.sound p hp

lemma LibcState.Tracks.perm (htracks : s.Tracks base live) (hperm : live.Perm live') :
    s.Tracks base live' :=
  ⟨htracks.holds.perm (hperm.map _), htracks.untracked,
    fun hfresh => (htracks.fresh hfresh ▸ hperm).symm.eq_nil,
    fun p hp => htracks.sound p (hperm.mem_iff.mpr hp)⟩

lemma LibcState.Tracks.inited (htracks : s.Tracks base live) (hp : p ∈ live) :
    s.inited = true := by
  by_contra hfresh
  rw [htracks.fresh (Bool.not_eq_true _ ▸ hfresh)] at hp
  exact List.not_mem_nil hp

/-! ## What the memory holds -/

/-- The bytes of a header are in its block. -/
lemma Payload.Sound.mem_block (hsound : p.Sound m) {k : ℕ} (hk : k < header) :
    p.addr - header + k ∈ p.block.bytes := by
  have hsize := hsound.size_le
  refine ⟨Nat.le_add_right _ _, Nat.add_lt_add_left ?_ _⟩
  dsimp only [Payload.block]
  omega

lemma Payload.Sound.of_agree (hsound : p.Sound m) (hagree : ∀ b ∈ p.block.bytes, m' b = m b) :
    p.Sound m' := by
  refine ⟨hsound.size_pos, hsound.header_le, hsound.size_le, ?_⟩
  rw [← hsound.loadWord_eq]
  exact loadBytes_congr fun k hk => hagree _ (hsound.mem_block (hk.trans (by decide)))

/-- What one block has, no other has. -/
lemma LibcState.Tracks.disjoint (htracks : s.Tracks base (p :: live)) :
    ∀ q ∈ live, ∀ b ∈ q.block.bytes, b ∉ p.block.bytes := by
  intro q hq b hb hbp
  have hpairwise := List.pairwise_cons.mp (List.map_cons ▸ htracks.holds.pairwise_disjoint)
  exact Set.disjoint_left.mp (hpairwise.1 q.block (List.mem_map_of_mem hq)) hbp hb

/-- Only the block of one payload is written to. -/
lemma LibcState.Tracks.withMem (htracks : s.Tracks base (p :: live)) (hsound : p.Sound m')
    (hagree : ∀ b, b ∉ p.block.bytes → m' b = s.mem b) :
    ({ s with mem := m' } : LibcState).Tracks base (p :: live) := by
  have hinited := htracks.inited List.mem_cons_self
  have hholds := htracks.holds
  have huntracked := htracks.untracked
  rw [ready_of_inited hinited] at hholds huntracked
  refine .of_inited hinited hholds huntracked fun q hq => ?_
  rcases List.mem_cons.mp hq with rfl | hq'
  · exact hsound
  · refine (htracks.sound q hq).of_agree fun b hb => hagree b ?_
    exact htracks.disjoint q hq' b hb

/-- Nothing is written to the header. -/
lemma LibcState.Tracks.withPayload (htracks : s.Tracks base (p :: live))
    (hagree : ∀ b, b < p.addr ∨ p.block.stop ≤ b → m' b = s.mem b) :
    ({ s with mem := m' } : LibcState).Tracks base (p :: live) := by
  have hsound := htracks.sound p List.mem_cons_self
  refine htracks.withMem ⟨hsound.size_pos, hsound.header_le, hsound.size_le, ?_⟩
    fun b hb => hagree b ?_
  · rw [← hsound.loadWord_eq]
    refine loadBytes_congr fun k hk => hagree _ (.inl ?_)
    have hheader := hsound.header_le
    simp only [header] at hheader ⊢
    omega
  · simp only [Allocation.bytes, Payload.block, Set.mem_Ico, not_and_or, not_lt, not_le] at hb ⊢
    omega

/-! ## Allocating -/

/-- A call that found no room. -/
def Refused (base : ℕ) (s : LibcState) (answer : ℕ) (s' : LibcState) : Prop :=
  answer = 0 ∧ s' = s.ready base

/-- A call that gave out a payload. -/
structure Granted (base : ℕ) (s : LibcState) (live : List Payload) (size answer : ℕ)
    (s' : LibcState) : Prop where
  ne_zero : answer ≠ 0
  tracks : s'.Tracks base (⟨answer, size, size + header⟩ :: live)
  mem_eq : ∀ b, b ∉ (Payload.block ⟨answer, size, size + header⟩).bytes → s'.mem b = s.mem b

lemma LibcState.Tracks.granted {block size : ℕ} (hinited : s.inited = true)
    (htracks : s.Tracks base live) (hpos : 0 < size) (hlt : size + header < 2 ^ 64)
    (hgives : s.heap.Gives (liveBlocks (live.map Payload.block)) block (size + header) header h') :
    Granted base s live size (block + header)
      { s with heap := h', mem := storeWord s.mem block (size + header) } := by
  have hholds := htracks.holds
  have huntracked := htracks.untracked
  rw [ready_of_inited hinited] at hholds huntracked
  have hsub : block + header - header = block := Nat.add_sub_cancel block header
  have hnew : (Payload.block ⟨block + header, size, size + header⟩) =
      ⟨block, size + header, header⟩ := by rw [Payload.block, hsub]
  have hholds' : h'.Holds (arena base)
      ((⟨block + header, size, size + header⟩ :: live).map Payload.block) := by
    rw [List.map_cons, hnew]
    exact hholds.gives hgives
  have hpairwise := List.pairwise_cons.mp (List.map_cons ▸ hholds'.pairwise_disjoint)
  have hagree : ∀ b, b ∉ (Payload.block ⟨block + header, size, size + header⟩).bytes →
      storeWord s.mem block (size + header) b = s.mem b := by
    intro b hb
    refine storeWord_outside ?_
    rw [hnew] at hb
    simp only [Allocation.bytes, Allocation.stop, Set.mem_Ico, header] at hb
    omega
  refine ⟨by simp [header], .of_inited hinited hholds'
    (hgives.frame.trackLive.trans huntracked) fun p hp => ?_, hagree⟩
  rcases List.mem_cons.mp hp with rfl | hp
  · refine ⟨hpos, Nat.le_add_left _ _, Nat.le_refl _, ?_⟩
    rw [hsub]
    exact loadWord_storeWord hlt
  · refine (htracks.sound p hp).of_agree fun b hb => hagree b ?_
    exact fun hbnew =>
      Set.disjoint_left.mp (hpairwise.1 p.block (List.mem_map_of_mem hp)) hbnew hb

/-- **A call of `malloc`** gives out a payload or changes nothing. -/
theorem LibcState.Tracks.malloc (hbase : base + arenaBytes < 2 ^ 64)
    (htracks : s.Tracks base live) {size answer : ℕ}
    (heq : mallocAddr base s size = some (answer, s')) :
    Refused base s answer s' ∨ Granted base s live size answer s' := by
  rw [mallocAddr, ensureInit_eq hbase] at heq
  simp only [Option.bind_eq_bind, Option.bind_some] at heq
  split at heq
  · obtain ⟨rfl, rfl⟩ := Prod.mk.inj (Option.some.inj heq)
    exact .inl ⟨rfl, rfl⟩
  · next hsize =>
    obtain ⟨total, htotal, heq⟩ := Option.bind_eq_some_iff.mp heq
    obtain ⟨hlt, rfl⟩ := checkedAdd_eq_some.mp htotal
    obtain ⟨⟨raw, h'⟩, hraw, hrest⟩ := Option.bind_eq_some_iff.mp heq
    rw [heapTryAlloc_of_untracked htracks.holds.owns htracks.untracked] at hraw
    rcases htracks.holds.owns.tryAllocRaw hraw with ⟨rfl, rfl⟩ | ⟨block, rfl, hgives⟩
    · obtain ⟨rfl, rfl⟩ := Prod.mk.inj (Option.some.inj hrest)
      exact .inl ⟨rfl, rfl⟩
    · obtain ⟨user, huser, hanswer⟩ := Option.bind_eq_some_iff.mp hrest
      obtain ⟨-, rfl⟩ := paOffset_eq_some.mp huser
      obtain ⟨rfl, rfl⟩ := Prod.mk.inj (Option.some.inj hanswer)
      obtain ⟨hne, htracks', hagree⟩ :=
        htracks.ready.granted (ready_inited base s) (Nat.pos_of_ne_zero hsize) hlt hgives
      exact .inr ⟨hne, htracks', fun b hb => (hagree b hb).trans (congrFun (ready_mem base s) b)⟩

/-! ## Freeing -/

/-- Where a live payload lies. -/
lemma LibcState.Tracks.inside (htracks : s.Tracks base live) (hp : p ∈ live) :
    base + header ≤ p.addr ∧ p.addr - header + p.total ≤ base + arenaBytes := by
  have hsound := htracks.sound p hp
  have hpos := hsound.size_pos
  have hsize := hsound.size_le
  have hheader := hsound.header_le
  have hmem : p.block ∈ live.map Payload.block := List.mem_map_of_mem hp
  have hstop : p.block.stop ≤ base + arenaBytes := htracks.holds.stop_le p.block hmem
  have hfirst : p.block.start ∈ p.block.bytes :=
    ⟨Nat.le_refl _, Nat.lt_add_of_pos_right (by dsimp only [Payload.block]; omega)⟩
  have habove : base ≤ p.addr - header := (htracks.holds.bytes_subset hmem hfirst).1
  exact ⟨by omega, hstop⟩

lemma LibcState.Tracks.inArena (hbase : base + arenaBytes < 2 ^ 64)
    (htracks : s.Tracks base live) (hp : p ∈ live) : Libc.inArena base p.addr = some true := by
  have hsound := htracks.sound p hp
  have hpos := hsound.size_pos
  have hsize := hsound.size_le
  have hinside := htracks.inside hp
  have hlast : checkedAdd 64 base arenaBytes = some (base + arenaBytes) :=
    checkedAdd_eq_some.mpr ⟨hbase, rfl⟩
  have hbelow : ¬base + arenaBytes ≤ p.addr := by
    have hheader := hsound.header_le
    omega
  rw [Libc.inArena, if_neg (by omega), hlast]
  exact congrArg some (by rw [decide_eq_false hbelow]; rfl)

/-- The header of a live payload is in front of it. -/
lemma LibcState.Tracks.checkedSub_header (htracks : s.Tracks base live) (hp : p ∈ live) :
    checkedSub p.addr header = some (p.addr - header) :=
  checkedSub_eq_some.mpr ⟨(htracks.sound p hp).header_le, rfl⟩

lemma LibcState.Tracks.addr_ne_zero (htracks : s.Tracks base live) (hp : p ∈ live) :
    p.addr ≠ 0 := by
  have hheader := (htracks.sound p hp).header_le
  simp only [header] at hheader
  omega

/-- **A call of `free`** for what is live never traps. -/
theorem LibcState.Tracks.free (hbase : base + arenaBytes < 2 ^ 64) (htracks : s.Tracks base live)
    (hp : p ∈ live) :
    ∃ s', freeAddr base s p.addr = some s' ∧ s'.Tracks base (live.erase p) ∧ s'.mem = s.mem := by
  have hinited := htracks.inited hp
  have hcons := htracks.perm (List.perm_cons_erase hp)
  have hsound := htracks.sound p hp
  have hholds := hcons.holds
  have huntracked := hcons.untracked
  rw [ready_of_inited hinited] at hholds huntracked
  rw [List.map_cons] at hholds
  have hlen : p.block.len ≠ 0 := by
    have hpos := hsound.size_pos
    have hsize := hsound.size_le
    dsimp only [Payload.block]
    omega
  obtain ⟨block, hstart, hblockLen, hblocks⟩ := hholds.exists_block hlen
  have htake : heapTakeLive s.heap block.start block.len = some s.heap := by
    rw [heapTakeLive, huntracked]
    rfl
  obtain ⟨h', hfree, howns, hframe⟩ := (hblocks ▸ hholds.owns).heapFree htake
  rw [hstart, hblockLen] at hfree
  have hload : loadWord s.mem (p.addr - header) = p.block.len := hsound.loadWord_eq
  refine ⟨{ s with heap := h' }, ?_, .of_inited hinited ⟨howns, ?_, ?_, ?_⟩ ?_ ?_, rfl⟩
  · rw [freeAddr, if_neg (htracks.addr_ne_zero hp), htracks.checkedSub_header hp]
    simp only [Option.bind_eq_bind, Option.bind_some, htracks.inArena hbase hp, hload, if_true]
    exact Option.bind_eq_some_iff.mpr ⟨h', hfree, rfl⟩
  · exact hframe.range.trans hholds.range_eq
  · exact fun a ha => hholds.aligned a (List.mem_cons_of_mem _ ha)
  · exact fun a ha => hholds.stop_le a (List.mem_cons_of_mem _ ha)
  · exact hframe.trackLive.trans huntracked
  · exact fun q hq => htracks.sound q (List.mem_of_mem_erase hq)

end ModernC.Libc
