import Mathlib.Order.CompletePartialOrder
import Mathlib.Order.Interval.Set.Disjoint
import ModernC.Alloc.Requests

/-!
# The table of live blocks

A heap that tracks its allocations has a table that lists what is live.  Each operation keeps the
table and what is owned in step.  The main result is `heap_safe`, about every run of a heap over a
range of addresses.
-/

namespace ModernC.Alloc

open Framework

variable {h h' : Heap} {owned : List HeapBlock} {range : PhysRange}

/-- A request that was served. -/
structure Allocation where
  start : ℕ
  len : ℕ
  align : ℕ
deriving DecidableEq

def Allocation.stop (a : Allocation) : ℕ := a.start + a.len

/-- The blocks of allocations.  An allocation of no bytes has none. -/
def liveBlocks (live : List Allocation) : List HeapBlock := live.flatMap fun a => span a.start a.stop

/-- A live allocation that a client grows has the new length. -/
def growLive (addr oldLen newLen : ℕ) (a : Allocation) : Allocation :=
  if a.start = addr ∧ a.len = oldLen ∧ oldLen < newLen then { a with len := newLen } else a

/-! ## The invariant -/

/-- The allocations of a heap. -/
structure Heap.Holds (h : Heap) (range : PhysRange) (live : List Allocation) : Prop where
  owns : h.Owns (liveBlocks live)
  range_eq : h.range = range
  aligned : ∀ a ∈ live, a.align ∣ a.start
  stop_le : ∀ a ∈ live, a.stop ≤ range.last

/-- The table of a heap lists what is live. -/
structure Heap.Tracks (h : Heap) (range : PhysRange) (live : List Allocation) : Prop
    extends h.Holds range live where
  table : h.live.Perm (liveBlocks live)
  trackLive : h.trackLive = true

lemma liveBlocks_cons (a : Allocation) (live : List Allocation) :
    liveBlocks (a :: live) = span a.start a.stop ++ liveBlocks live := List.flatMap_cons

variable {live live' : List Allocation} {a : Allocation} {block : HeapBlock}
  {p size align start newLen oldLen : ℕ} {h₁ : Heap}

lemma liveBlocks_perm (h : live.Perm live') :
    (liveBlocks live).Perm (liveBlocks live') := h.flatMap_right _

lemma Heap.Owns.withLive (hown : h.Owns owned) (live : List HeapBlock) :
    ({ h with live := live } : Heap).Owns owned :=
  ⟨hown.start_le, hown.next_le, hown.last_lt, hown.len_pos, hown.above, hown.free_lt,
    hown.owned_le, hown.apart, hown.nonAdjacent, hown.length_le, hown.account⟩

lemma Heap.Holds.withLive (hholds : h.Holds range live)
    (table : List HeapBlock) : ({ h with live := table } : Heap).Holds range live :=
  ⟨hholds.owns.withLive table, hholds.range_eq, hholds.aligned, hholds.stop_le⟩

lemma Heap.Holds.perm (hholds : h.Holds range live)
    (hperm : live.Perm live') : h.Holds range live' :=
  ⟨hholds.owns.perm (List.Perm.refl _) (liveBlocks_perm hperm.symm), hholds.range_eq,
    fun a ha => hholds.aligned a (hperm.mem_iff.mpr ha),
    fun a ha => hholds.stop_le a (hperm.mem_iff.mpr ha)⟩

lemma Heap.Tracks.perm (htracks : h.Tracks range live)
    (hperm : live.Perm live') : h.Tracks range live' :=
  ⟨htracks.toHolds.perm hperm, htracks.table.trans (liveBlocks_perm hperm), htracks.trackLive⟩

lemma holds_heapInit (hle : range.start ≤ range.last) (hlt : range.last < 2 ^ 64) :
    (heapInit range).Holds range [] := ⟨owns_heapInit hle hlt, rfl, nofun, nofun⟩

/-- A live allocation with bytes is a block. -/
lemma Heap.Holds.exists_block (hholds : h.Holds range (a :: live)) (hlen : a.len ≠ 0) :
    ∃ block : HeapBlock, block.start = a.start ∧ block.len = a.len ∧
      liveBlocks (a :: live) = block :: liveBlocks live := by
  have hstop := hholds.stop_le a List.mem_cons_self
  have hlast := hholds.owns.last_lt
  rw [hholds.range_eq] at hlast
  have hbound : a.start + a.len < 2 ^ 64 := hstop.trans_lt hlast
  have hspan : span a.start a.stop = [⟨a.start, a.len, hbound⟩] :=
    span_eq_singleton ⟨a.start, a.len, hbound⟩ (Nat.pos_of_ne_zero hlen)
  exact ⟨⟨a.start, a.len, hbound⟩, rfl, rfl, by rw [liveBlocks_cons, hspan, List.singleton_append]⟩

/-! ## Bytes -/

def Allocation.bytes (a : Allocation) : Set ℕ := Set.Ico a.start a.stop

def HeapBlock.bytes (block : HeapBlock) : Set ℕ := Set.Ico block.start block.stop

lemma HeapBlock.Apart.disjoint {other : HeapBlock} (h : block.Apart other) :
    Disjoint block.bytes other.bytes := by
  rw [HeapBlock.bytes, HeapBlock.bytes, Set.Ico_disjoint_Ico]
  rcases h with hle | hle
  · exact (min_le_left _ _).trans (hle.trans (le_max_right _ _))
  · exact (min_le_right _ _).trans (hle.trans (le_max_left _ _))

/-- The bytes of a live allocation are those of its block. -/
lemma Allocation.mem_bytes {byte : ℕ} (hmem : byte ∈ a.bytes)
    (hlt : a.stop < 2 ^ 64) : ∃ block ∈ span a.start a.stop, block.bytes = a.bytes := by
  have hrange : a.start < a.stop := lt_of_le_of_lt hmem.1 hmem.2
  have hmem' : (⟨a.start, a.stop - a.start, by omega⟩ : HeapBlock) ∈ span a.start a.stop := by
    rw [span, dif_pos ⟨hrange, hlt⟩]
    exact List.mem_singleton_self _
  obtain ⟨-, hstart, hstop⟩ := mem_span hmem'
  exact ⟨_, hmem', by rw [HeapBlock.bytes, hstart, hstop, Allocation.bytes]⟩

/-- What is apart from the block of an allocation is apart from it. -/
lemma Allocation.disjoint_of_forall {s : Set ℕ} (hlt : a.stop < 2 ^ 64)
    (h : ∀ block ∈ span a.start a.stop, Disjoint block.bytes s) : Disjoint a.bytes s := by
  refine Set.disjoint_left.mpr fun byte hbyte => ?_
  obtain ⟨block, hmem, heq⟩ := a.mem_bytes hbyte hlt
  exact Set.disjoint_left.mp (heq ▸ h block hmem) hbyte

lemma Heap.Holds.stop_lt (hholds : h.Holds range live) :
    ∀ a ∈ live, a.stop < 2 ^ 64 := by
  have hlast := hholds.owns.last_lt
  rw [hholds.range_eq] at hlast
  exact fun a ha => (hholds.stop_le a ha).trans_lt hlast

/-- No byte is in two live allocations. -/
lemma Heap.Holds.pairwise_disjoint (hholds : h.Holds range live) :
    live.Pairwise fun a b => Disjoint a.bytes b.bytes := by
  have hstops := hholds.stop_lt
  have hblocks := List.pairwise_flatMap.mp (List.pairwise_append.mp hholds.owns.apart).2.1
  refine hblocks.2.imp_of_mem fun {a b} ha hb hab => ?_
  refine a.disjoint_of_forall (hstops a ha) fun block hblock => ?_
  refine (b.disjoint_of_forall (hstops b hb) fun other hother => ?_).symm
  exact (hab block hblock other hother).disjoint.symm

lemma Heap.Holds.bytes_subset
    (hholds : h.Holds range live) (ha : a ∈ live) : a.bytes ⊆ Set.Ico range.start h.next := by
  intro byte hbyte
  obtain ⟨block, hmem, heq⟩ := a.mem_bytes hbyte (hholds.stop_lt a ha)
  have hblock : block ∈ liveBlocks live := List.mem_flatMap.mpr ⟨a, ha, hmem⟩
  have habove := hholds.owns.above block (List.mem_append_right _ hblock)
  have hbelow := hholds.owns.owned_le block hblock
  rw [hholds.range_eq] at habove
  rw [← heq] at hbyte
  exact ⟨habove.trans hbyte.1, hbyte.2.trans_le hbelow⟩

lemma Heap.Holds.disjoint_free
    (hholds : h.Holds range live) (ha : a ∈ live) (hblock : block ∈ h.free) :
    Disjoint a.bytes block.bytes := by
  refine a.disjoint_of_forall (hholds.stop_lt a ha) fun other hother => ?_
  have hmem : other ∈ liveBlocks live := List.mem_flatMap.mpr ⟨a, ha, hother⟩
  have happend := List.pairwise_append.mp hholds.owns.apart
  exact (happend.2.2 block hblock other hmem).disjoint.symm

/-! ## Allocating -/

/-- A served request becomes live. -/
lemma Heap.Holds.gives (hholds : h.Holds range live)
    (hgives : h.Gives (liveBlocks live) p size align h') :
    h'.Holds range (⟨p, size, align⟩ :: live) := by
  have hrange := hgives.frame.range.trans hholds.range_eq
  constructor
  · rw [liveBlocks_cons]
    exact hgives.owns
  · exact hrange
  · intro a ha
    rcases List.mem_cons.mp ha with rfl | ha
    · exact hgives.aligned
    · exact hholds.aligned a ha
  · intro a ha
    rcases List.mem_cons.mp ha with rfl | ha
    · exact hrange ▸ hgives.stop_le
    · exact hholds.stop_le a ha

lemma heapRecordLive_eq_some {len : ℕ} (htrack : h.trackLive = true)
    (heq : heapRecordLive h start len = some h') :
    ∃ new, h' = { h with live := h.live ++ new } ∧ new = span start (start + len) := by
  have hnot : ¬(!h.trackLive) = true := by simp [htrack]
  rw [heapRecordLive, if_neg hnot] at heq
  by_cases hlen : len = 0
  · rw [if_pos hlen] at heq
    obtain rfl := Option.some.inj heq
    refine ⟨[], by rw [List.append_nil], ?_⟩
    rw [hlen, Nat.add_zero, span_self]
  · rw [if_neg hlen] at heq
    split at heq
    · exact absurd heq nofun
    · obtain ⟨overlaps, -, heq⟩ := Option.bind_eq_some_iff.mp heq
      split at heq
      · exact absurd heq nofun
      · obtain ⟨block, hblock, heq⟩ := Option.bind_eq_some_iff.mp heq
        obtain rfl := Option.some.inj heq
        refine ⟨[block], rfl, ?_⟩
        obtain ⟨rfl, rfl⟩ := mkBlock_eq_some.mp hblock
        exact (span_eq_singleton block (Nat.pos_of_ne_zero hlen)).symm

lemma Heap.Tracks.gives
    (htracks : h.Tracks range live) (hgives : h.Gives (liveBlocks live) p size align h₁)
    (heq : heapRecordLive h₁ p size = some h') : h'.Tracks range (⟨p, size, align⟩ :: live) := by
  have htrack := hgives.frame.trackLive.trans htracks.trackLive
  obtain ⟨_, rfl, rfl⟩ := heapRecordLive_eq_some htrack heq
  refine ⟨(htracks.toHolds.gives hgives).withLive _, ?_, htrack⟩
  rw [liveBlocks_cons]
  have htable : h₁.live.Perm (liveBlocks live) := hgives.frame.live ▸ htracks.table
  exact List.perm_append_comm.trans (htable.append_left _)

lemma Heap.Tracks.tryAlloc {answer : Except HeapError ℕ} (htracks : h.Tracks range live)
    (heq : heapTryAlloc h size align = some (answer, h')) :
    (∃ p, answer = .ok p ∧ h'.Tracks range (⟨p, size, align⟩ :: live)) ∨
      (answer = .error .exhausted ∧ h' = h) := by
  rw [heapTryAlloc] at heq
  split at heq
  · obtain ⟨rfl, rfl⟩ := Prod.mk.inj (Option.some.inj heq)
    exact .inr ⟨rfl, rfl⟩
  · obtain ⟨⟨raw, h₁⟩, hraw, hrest⟩ := Option.bind_eq_some_iff.mp heq
    rcases htracks.owns.tryAllocRaw hraw with ⟨rfl, rfl⟩ | ⟨p, rfl, hgives⟩
    · obtain ⟨rfl, rfl⟩ := Prod.mk.inj (Option.some.inj hrest)
      exact .inr ⟨rfl, rfl⟩
    · obtain ⟨h₂, hrecord, hanswer⟩ := Option.bind_eq_some_iff.mp hrest
      obtain ⟨rfl, rfl⟩ := Prod.mk.inj (Option.some.inj hanswer)
      exact .inl ⟨p, rfl, htracks.gives hgives hrecord⟩

lemma Heap.Tracks.alloc
    (htracks : h.Tracks range live) (heq : heapAlloc h size align = some (p, h')) :
    h'.Tracks range (⟨p, size, align⟩ :: live) := by
  rw [heapAlloc] at heq
  split at heq
  · exact absurd heq nofun
  · obtain ⟨⟨raw, h₁⟩, hraw, hrest⟩ := Option.bind_eq_some_iff.mp heq
    rcases htracks.owns.tryAllocRaw hraw with ⟨rfl, rfl⟩ | ⟨p, rfl, hgives⟩
    · exact absurd hrest nofun
    · obtain ⟨h₂, hrecord, hanswer⟩ := Option.bind_eq_some_iff.mp hrest
      obtain ⟨rfl, rfl⟩ := Prod.mk.inj (Option.some.inj hanswer)
      exact htracks.gives hgives hrecord

/-! ## Freeing -/

lemma heapFindLive_eq_some {len i : ℕ} (heq : heapFindLive h start len = some i) :
    ∃ front back block, h.live = front ++ block :: back ∧ front.length = i ∧
      block.start = start ∧ block.len = len := by
  obtain ⟨hlt, hfound, -⟩ := List.findIdx?_eq_some_iff_getElem.mp heq
  obtain ⟨front, back, hlive, hindex⟩ := exists_append_of_getElem hlt
  rw [Bool.and_eq_true, beq_iff_eq, beq_iff_eq] at hfound
  exact ⟨front, back, _, hlive, hindex, hfound⟩

lemma exists_heapFindLive (hmem : block ∈ h.live) :
    ∃ i, heapFindLive h block.start block.len = some i := by
  rw [← Option.isSome_iff_exists, heapFindLive, List.findIdx?_isSome, List.any_eq_true]
  exact ⟨block, hmem, by simp⟩

lemma HeapBlock.ext {block' : HeapBlock} (hstart : block.start = block'.start)
    (hlen : block.len = block'.len) : block = block' := by
  obtain ⟨start, len, hstop⟩ := block
  obtain ⟨start', len', hstop'⟩ := block'
  obtain rfl : start = start' := hstart
  obtain rfl : len = len' := hlen
  rfl

/-- The table loses the block that is freed. -/
lemma Heap.Tracks.takeLive
    (htracks : h.Tracks range live) (hblocks : (liveBlocks live).Perm (block :: owned))
    (hlen : block.len ≠ 0) :
    ∃ table, heapTakeLive h block.start block.len = some { h with live := table } ∧
      table.Perm owned := by
  have hmem : block ∈ h.live := (htracks.table.trans hblocks).mem_iff.mpr List.mem_cons_self
  obtain ⟨i, hfind⟩ := exists_heapFindLive hmem
  obtain ⟨front, back, found, hlive, rfl, hstart, hfoundLen⟩ := heapFindLive_eq_some hfind
  obtain rfl := HeapBlock.ext hstart hfoundLen
  obtain ⟨back', hswap, hperm⟩ := swapRemove_append front back found
  have hnot : ¬(!h.trackLive) = true := by simp [htracks.trackLive]
  refine ⟨swapRemove h.live front.length, ?_, ?_⟩
  · rw [heapTakeLive, if_neg hnot, if_neg hlen, hfind]
    rfl
  · rw [hlive, hswap]
    have htable := htracks.table.trans hblocks
    rw [hlive] at htable
    exact (hperm.append_left front).trans (List.perm_middle.symm.trans htable).cons_inv

/-- The checks of `heapFree` hold of an owned block. -/
lemma Heap.Owns.heapFree (hown : h₁.Owns (block :: owned))
    (htake : heapTakeLive h block.start block.len = some h₁) :
    ∃ h', Alloc.heapFree h block.start block.len = some h' ∧ h'.Owns owned ∧ h₁.Frame h' := by
  have hpos := hown.len_pos block (by simp)
  have habove := hown.above block (by simp)
  have hbelow := hown.owned_le block List.mem_cons_self
  have hfirst := hown.start_le
  have hnext := hown.next_le
  have hdiff : paDiff h₁.range.start h₁.range.last = some (h₁.range.last - h₁.range.start) :=
    checkedSub_eq_some.mpr ⟨hfirst.trans hnext, rfl⟩
  have hoffset : paOffset block.start block.len = some block.stop :=
    paOffset_eq_some.mpr ⟨block.stop_lt, rfl⟩
  have hvalid : ¬(block.start < h₁.range.start ∨ h₁.range.last ≤ block.start ∨
      h₁.range.last - h₁.range.start < block.len ∨ h₁.range.last < block.stop ∨
      h₁.next < block.stop) := by
    simp only [HeapBlock.stop] at hbelow ⊢
    omega
  obtain ⟨h', hrelease, howns, hframe⟩ := hown.release
  refine ⟨h', ?_, howns, hframe⟩
  rw [Alloc.heapFree, if_neg (Nat.pos_iff_ne_zero.mp hpos), htake]
  simp only [Option.bind_eq_bind, Option.bind_some, hdiff, hoffset]
  exact (if_neg hvalid).trans hrelease

/-- **Freeing what is live** never traps. -/
theorem Heap.Tracks.free (htracks : h.Tracks range live)
    (ha : a ∈ live) : ∃ h', heapFree h a.start a.len = some h' ∧ h'.Tracks range (live.erase a) := by
  have hcons := htracks.perm (List.perm_cons_erase ha)
  have haligned : ∀ b ∈ live.erase a, b.align ∣ b.start := fun b hb =>
    hcons.aligned b (List.mem_cons_of_mem a hb)
  have hstops : ∀ b ∈ live.erase a, b.stop ≤ range.last := fun b hb =>
    hcons.stop_le b (List.mem_cons_of_mem a hb)
  by_cases hlen : a.len = 0
  · have hblocks : liveBlocks (a :: live.erase a) = liveBlocks (live.erase a) := by
      rw [liveBlocks_cons, Allocation.stop, hlen, Nat.add_zero, span_self, List.nil_append]
    rw [heapFree, if_pos hlen]
    exact ⟨h, rfl, ⟨hblocks ▸ hcons.owns, hcons.range_eq, haligned, hstops⟩, hblocks ▸ hcons.table,
      hcons.trackLive⟩
  · obtain ⟨block, hstart, hblockLen, hblocks⟩ := hcons.exists_block hlen
    obtain ⟨table, htake, htable⟩ := hcons.takeLive (List.Perm.of_eq hblocks) (hblockLen ▸ hlen)
    obtain ⟨h', hfree, howns, hframe⟩ := ((hblocks ▸ hcons.owns).withLive table).heapFree htake
    rw [← hstart, ← hblockLen]
    exact ⟨h', hfree, ⟨howns, hframe.range.trans hcons.range_eq, haligned, hstops⟩,
      hframe.live ▸ htable, hframe.trackLive.trans hcons.trackLive⟩

/-! ## Growing -/

/-- Growing changes one live allocation: no two with bytes start at one address. -/
lemma Heap.Tracks.map_growLive
    (htracks : h.Tracks range (a :: live)) (hlen : a.len ≠ 0) (hlt : a.len < newLen) :
    (a :: live).map (growLive a.start a.len newLen) = { a with len := newLen } :: live := by
  have hothers : ∀ b ∈ live, growLive a.start a.len newLen b = b := by
    intro b hb
    rw [growLive, if_neg]
    rintro ⟨hstart, hbLen, -⟩
    obtain ⟨block, hblockStart, hblockLen, hblocks⟩ := htracks.exists_block hlen
    have hapart := htracks.owns.apart
    rw [hblocks] at hapart
    have hmem : block ∈ liveBlocks live := by
      refine List.mem_flatMap.mpr ⟨b, hb, ?_⟩
      have hspan := span_eq_singleton block (hblockLen ▸ Nat.pos_of_ne_zero hlen)
      rw [Allocation.stop, hstart, hbLen, ← hblockStart, ← hblockLen]
      exact hspan ▸ List.mem_singleton_self block
    have hself := (pairwise_apart_middle.mp hapart).1 block (List.mem_append_right _ hmem)
    simp only [HeapBlock.Apart, HeapBlock.stop] at hself
    omega
  rw [List.map_cons, List.map_congr_left hothers, List.map_id', growLive,
    if_pos ⟨rfl, rfl, hlt⟩]

lemma heapResizeLive_eq_some (htrack : h.trackLive = true)
    (hlt : oldLen < newLen) (heq : heapResizeLive h start oldLen newLen = some h') :
    ∃ i block, oldLen ≠ 0 ∧ heapFindLive h start oldLen = some i ∧ block.start = start ∧
      block.len = newLen ∧ h' = { h with live := h.live.set i block } := by
  have hnot : ¬(!h.trackLive) = true := by simp [htrack]
  rw [heapResizeLive, if_neg hnot, if_neg (Nat.ne_of_lt hlt)] at heq
  split at heq
  · exact absurd heq nofun
  · next hzero =>
    obtain ⟨i, hfind, heq⟩ := Option.bind_eq_some_iff.mp heq
    obtain ⟨overlaps, -, heq⟩ := Option.bind_eq_some_iff.mp heq
    split at heq
    · exact absurd heq nofun
    · obtain ⟨block, hblock, heq⟩ := Option.bind_eq_some_iff.mp heq
      obtain ⟨hstart, hlen⟩ := mkBlock_eq_some.mp hblock
      exact ⟨i, block, fun hold => hzero (.inl hold), hfind, hstart, hlen,
        (Option.some.inj heq).symm⟩

lemma heapTryGrowInPlace_cases {addr : ℕ} {grown : Bool}
    (heq : heapTryGrowInPlace h addr oldLen newLen = some (grown, h')) :
    (h' = h ∧ (grown = true → newLen ≤ oldLen)) ∨
      (grown = true ∧ oldLen < newLen ∧ addr + oldLen = h.next ∧ addr + newLen ≤ h.range.last ∧
        ∃ h₁, heapResizeLive h addr oldLen newLen = some h₁ ∧
          h' = { h₁ with next := addr + newLen }) := by
  rw [heapTryGrowInPlace] at heq
  split at heq
  · next hle =>
    obtain ⟨rfl, rfl⟩ := Prod.mk.inj (Option.some.inj heq)
    exact .inl ⟨rfl, fun _ => hle⟩
  · next hlt =>
    obtain ⟨stop, hstop, heq⟩ := Option.bind_eq_some_iff.mp heq
    obtain ⟨-, rfl⟩ := paOffset_eq_some.mp hstop
    split at heq
    · obtain ⟨rfl, rfl⟩ := Prod.mk.inj (Option.some.inj heq)
      exact .inl ⟨rfl, nofun⟩
    · next hnext =>
      obtain ⟨newStop, hnewStop, heq⟩ := Option.bind_eq_some_iff.mp heq
      obtain ⟨-, rfl⟩ := paOffset_eq_some.mp hnewStop
      split at heq
      · obtain ⟨rfl, rfl⟩ := Prod.mk.inj (Option.some.inj heq)
        exact .inl ⟨rfl, nofun⟩
      · next hroom =>
        obtain ⟨h₁, hresize, heq⟩ := Option.bind_eq_some_iff.mp heq
        obtain ⟨rfl, rfl⟩ := Prod.mk.inj (Option.some.inj heq)
        exact .inr ⟨rfl, Nat.lt_of_not_le hlt, not_not.mp hnext, Nat.le_of_not_lt hroom, h₁,
          hresize, rfl⟩

/-- A live allocation that ends at the frontier is made longer. -/
lemma Heap.Holds.growTop
    (hholds : h.Holds range (a :: live)) (hlen : a.len ≠ 0) (hlt : a.len < newLen)
    (hnext : a.stop = h.next) (hlast : a.start + newLen ≤ h.range.last) :
    ({ h with next := a.start + newLen } : Heap).Holds range ({ a with len := newLen } :: live) := by
  obtain ⟨block, hstart, hblockLen, hblocks⟩ := hholds.exists_block hlen
  have hstop : block.stop = a.stop := by rw [HeapBlock.stop, hstart, hblockLen, Allocation.stop]
  have hbound := hlast.trans_lt hholds.owns.last_lt
  have hspan := span_eq_singleton ⟨a.start, newLen, hbound⟩ (Nat.zero_lt_of_lt hlt)
  have hblocks' : liveBlocks ({ a with len := newLen } :: live) =
      ⟨a.start, newLen, hbound⟩ :: liveBlocks live := by
    rw [liveBlocks_cons]
    exact congrArg (· ++ liveBlocks live) hspan
  have hgrown : block.stop < (⟨a.start, newLen, hbound⟩ : HeapBlock).stop :=
    hstop.trans_lt (Nat.add_lt_add_left hlt a.start)
  have howns := (hblocks ▸ hholds.owns).grow hstart.symm (hstop.trans hnext) hgrown hlast
  refine ⟨hblocks' ▸ howns, hholds.range_eq, ?_, ?_⟩
  · intro b hb
    rcases List.mem_cons.mp hb with rfl | hb
    · exact hholds.aligned a List.mem_cons_self
    · exact hholds.aligned b (List.mem_cons_of_mem a hb)
  · intro b hb
    rcases List.mem_cons.mp hb with rfl | hb
    · exact hholds.range_eq ▸ hlast
    · exact hholds.stop_le b (List.mem_cons_of_mem a hb)

lemma Heap.Tracks.growTop
    (htracks : h.Tracks range (a :: live)) (hlt : a.len < newLen) (hnext : a.stop = h.next)
    (hlast : a.start + newLen ≤ h.range.last)
    (hresize : heapResizeLive h a.start a.len newLen = some h₁) :
    ({ h₁ with next := a.start + newLen } : Heap).Tracks range
      ({ a with len := newLen } :: live) := by
  obtain ⟨i, new, hlen, hfind, hnewStart, hnewLen, rfl⟩ :=
    heapResizeLive_eq_some htracks.trackLive hlt hresize
  refine ⟨(htracks.toHolds.growTop hlen hlt hnext hlast).withLive _, ?_, htracks.trackLive⟩
  obtain ⟨block, hstart, hblockLen, hblocks⟩ := htracks.exists_block hlen
  obtain ⟨front, back, found, hlive, rfl, hfoundStart, hfoundLen⟩ := heapFindLive_eq_some hfind
  obtain rfl := HeapBlock.ext (hfoundStart.trans hstart.symm) (hfoundLen.trans hblockLen.symm)
  have hspan := span_eq_singleton new (by omega)
  rw [HeapBlock.stop, hnewStart, hnewLen] at hspan
  have htable := htracks.table
  rw [hlive, hblocks] at htable
  have hrest := (List.perm_middle.symm.trans htable).cons_inv
  dsimp only
  rw [liveBlocks_cons, Allocation.stop, hspan, List.singleton_append, hlive,
    List.set_append_right _ _ (Nat.le_refl _), Nat.sub_self, List.set_cons_zero]
  exact List.perm_middle.trans (hrest.cons new)

lemma Heap.Tracks.grow {addr : ℕ} (htracks : h.Tracks range live)
    (heq : heapTryGrowInPlace h addr oldLen newLen = some (true, h')) :
    h'.Tracks range (live.map (growLive addr oldLen newLen)) := by
  rcases heapTryGrowInPlace_cases heq with ⟨rfl, hle⟩ | ⟨-, hlt, hnext, hlast, h₁, hresize, rfl⟩
  · have hsame : live.map (growLive addr oldLen newLen) = live := by
      refine (List.map_congr_left fun a _ => ?_).trans live.map_id'
      rw [growLive, if_neg fun hall => Nat.not_le_of_lt hall.2.2 (hle rfl)]
    rwa [hsame]
  · obtain ⟨i, -, hzero, hfind, -, -, -⟩ := heapResizeLive_eq_some htracks.trackLive hlt hresize
    obtain ⟨front, back, found, hlive, -, hstart, hlen⟩ := heapFindLive_eq_some hfind
    have hmem : found ∈ liveBlocks live := htracks.table.mem_iff.mp (hlive ▸ by simp)
    obtain ⟨a, ha, hspan⟩ := List.mem_flatMap.mp hmem
    obtain ⟨-, hfrom, hto⟩ := mem_span hspan
    obtain rfl : a.start = addr := hfrom.symm.trans hstart
    obtain rfl : a.len = oldLen := by
      simp only [HeapBlock.stop, Allocation.stop] at hto
      omega
    have hperm := List.perm_cons_erase ha
    have htracks' := htracks.perm hperm
    have hgrown := htracks'.growTop hlt hnext hlast hresize
    rw [← htracks'.map_growLive hzero hlt] at hgrown
    exact hgrown.perm (hperm.symm.map _)

end ModernC.Alloc

/-!
## Allocations stay apart

In every run of a tracked heap whose clients free only what is live, the live allocations, the free
blocks and what lies behind the frontier have no byte in common, and every byte is accounted for.
-/

namespace ModernC.Alloc

open Framework

variable {h : Heap} {live : List Allocation} {range : PhysRange}

/-! ## Runs -/

/-- The heap a run leads to, with what is live then. -/
inductive HeapRun (range : PhysRange) : List Allocation → Heap → Prop where
  | init : HeapRun range [] (heapInit range)
  | alloc {live : List Allocation} {h h' : Heap} {size align p : ℕ} :
      HeapRun range live h → heapAlloc h size align = some (p, h') →
        HeapRun range (⟨p, size, align⟩ :: live) h'
  | tryAlloc {live : List Allocation} {h h' : Heap} {size align p : ℕ} :
      HeapRun range live h → heapTryAlloc h size align = some (.ok p, h') →
        HeapRun range (⟨p, size, align⟩ :: live) h'
  | exhausted {live : List Allocation} {h h' : Heap} {size align : ℕ} {e : HeapError} :
      HeapRun range live h → heapTryAlloc h size align = some (.error e, h') →
        HeapRun range live h'
  | free {live : List Allocation} {h h' : Heap} {a : Allocation} :
      HeapRun range live h → a ∈ live → heapFree h a.start a.len = some h' →
        HeapRun range (live.erase a) h'
  | grow {live : List Allocation} {h h' : Heap} {addr oldLen newLen : ℕ} :
      HeapRun range live h → heapTryGrowInPlace h addr oldLen newLen = some (true, h') →
        HeapRun range (live.map (growLive addr oldLen newLen)) h'
  | refuse {live : List Allocation} {h h' : Heap} {addr oldLen newLen : ℕ} :
      HeapRun range live h → heapTryGrowInPlace h addr oldLen newLen = some (false, h') →
        HeapRun range live h'

/-- **The table is kept** in every run. -/
lemma HeapRun.tracks (hle : range.start ≤ range.last) (hlt : range.last < 2 ^ 64)
    (hrun : HeapRun range live h) : h.Tracks range live := by
  induction hrun with
  | init => exact ⟨holds_heapInit hle hlt, .nil, rfl⟩
  | alloc _ heq ih => exact ih.alloc heq
  | tryAlloc _ heq ih =>
    rcases ih.tryAlloc heq with ⟨p, hp, htracks⟩ | ⟨hnone, -⟩
    · obtain rfl := Except.ok.inj hp
      exact htracks
    · exact absurd hnone nofun
  | exhausted _ heq ih =>
    rcases ih.tryAlloc heq with ⟨p, hp, -⟩ | ⟨-, rfl⟩
    · exact absurd hp nofun
    · exact ih
  | free _ ha heq ih =>
    obtain ⟨h₁, heq', htracks⟩ := ih.free ha
    obtain rfl := Option.some.inj (heq'.symm.trans heq)
    exact htracks
  | grow _ heq ih => exact ih.grow heq
  | refuse _ heq ih =>
    rcases heapTryGrowInPlace_cases heq with ⟨rfl, -⟩ | ⟨hgrown, -⟩
    · exact ih
    · exact absurd hgrown nofun

/-! ## Safety -/

/-- What the clients of a heap rely on.  An allocation of no bytes may lie anywhere. -/
structure HeapSafe (range : PhysRange) (live : List Allocation) (h : Heap) : Prop where
  disjoint : live.Pairwise fun a b => Disjoint a.bytes b.bytes
  aligned : ∀ a ∈ live, a.align ∣ a.start
  inside : ∀ a ∈ live, a.bytes ⊆ Set.Ico range.start h.next
  notFree : ∀ a ∈ live, ∀ block ∈ h.free, Disjoint a.bytes block.bytes
  freeApart : h.free.Pairwise fun block other =>
    Disjoint block.bytes other.bytes ∧ block.NonAdjacent other
  account : ∃ available, heapAvailable h = some available ∧
    available + (live.map Allocation.len).sum + h.droppedFreeBytes = range.last - range.start
  exhausted : ∀ size align e h', heapTryAlloc h size align = some (.error e, h') → h' = h

lemma bytes_liveBlocks (hlt : ∀ a ∈ live, a.stop < 2 ^ 64) :
    bytes (liveBlocks live) = (live.map Allocation.len).sum := by
  induction live with
  | nil => rfl
  | cons a live ih =>
    have hrest := ih fun b hb => hlt b (List.mem_cons_of_mem a hb)
    have ha := bytes_span (Nat.le_add_right a.start a.len) (hlt a List.mem_cons_self)
    rw [Nat.add_sub_cancel_left] at ha
    rw [liveBlocks_cons, bytes_append, hrest, List.map_cons, List.sum_cons, Allocation.stop, ha]

lemma foldlM_checkedAdd {free : List HeapBlock} {total : ℕ} (hlt : total + bytes free < 2 ^ 64) :
    free.foldlM (fun total block => checkedAdd 64 total block.len) total =
      some (total + bytes free) := by
  induction free generalizing total with
  | nil => rfl
  | cons block free ih =>
    rw [bytes_cons, ← Nat.add_assoc] at hlt
    have hadd : checkedAdd 64 total block.len = some (total + block.len) :=
      checkedAdd_eq_some.mpr ⟨by omega, rfl⟩
    rw [List.foldlM_cons, hadd, bytes_cons, ← Nat.add_assoc]
    exact ih hlt

lemma Heap.Owns.heapAvailable {owned : List HeapBlock} (hown : h.Owns owned) :
    heapAvailable h = some (h.range.last - h.next + bytes h.free) := by
  have hnext := hown.next_le
  have hlast := hown.last_lt
  have hstart := hown.start_le
  have haccount := hown.account
  have hdiff : paDiff h.next h.range.last = some (h.range.last - h.next) :=
    checkedSub_eq_some.mpr ⟨hnext, rfl⟩
  rw [Alloc.heapAvailable, hdiff]
  exact foldlM_checkedAdd (by omega)

lemma Heap.Tracks.heapSafe (htracks : h.Tracks range live) : HeapSafe range live h := by
  have hown := htracks.owns
  have hstops := htracks.toHolds.stop_lt
  constructor
  · exact htracks.toHolds.pairwise_disjoint
  · exact htracks.aligned
  · exact fun a ha => htracks.toHolds.bytes_subset ha
  · exact fun a ha block hblock => htracks.toHolds.disjoint_free ha hblock
  · have happend := List.pairwise_append.mp hown.apart
    exact (happend.1.imp fun hab => hab.disjoint).and hown.nonAdjacent
  · refine ⟨_, hown.heapAvailable, ?_⟩
    have haccount := hown.account
    have hbytes := bytes_liveBlocks hstops
    have hstart := hown.start_le
    have hnext := hown.next_le
    rw [← htracks.range_eq]
    omega
  · intro size align e h' heq
    rcases htracks.tryAlloc heq with ⟨p, hp, -⟩ | ⟨-, hsame⟩
    · exact absurd hp nofun
    · exact hsame

/-- **A tracked heap is safe** in every run whose clients free only what is live. -/
theorem heap_safe {start len : ℕ} (hrange : physRange start len = some range)
    (hrun : HeapRun range live h) : HeapSafe range live h := by
  obtain ⟨last, hlast, heq⟩ := Option.bind_eq_some_iff.mp hrange
  obtain ⟨hlt, rfl⟩ := paOffset_eq_some.mp hlast
  obtain rfl := Option.some.inj heq
  exact (hrun.tracks (Nat.le_add_right _ _) hlt).heapSafe

/-- Two allocations, of which the first is freed with the gap behind it. -/
theorem heap_safe_freed :
    HeapSafe ⟨4096, 5120⟩ [⟨4160, 40, 64⟩]
      { range := ⟨4096, 5120⟩, next := 4200, free := [⟨4096, 64, by omega⟩],
        live := [⟨4160, 40, by omega⟩], trackLive := true, droppedFreeBytes := 0 } := by
  have hfirst : heapAlloc (heapInit ⟨4096, 5120⟩) 24 16 = some (4096,
      { range := ⟨4096, 5120⟩, next := 4120, free := [], live := [⟨4096, 24, by omega⟩],
        trackLive := true, droppedFreeBytes := 0 }) := rfl
  have hsecond : heapTryAlloc
      { range := ⟨4096, 5120⟩, next := 4120, free := [], live := [⟨4096, 24, by omega⟩],
        trackLive := true, droppedFreeBytes := 0 } 40 64 = some (.ok 4160,
      { range := ⟨4096, 5120⟩, next := 4200, free := [⟨4120, 40, by omega⟩],
        live := [⟨4096, 24, by omega⟩, ⟨4160, 40, by omega⟩], trackLive := true,
        droppedFreeBytes := 0 }) := rfl
  have hrun := (HeapRun.init.alloc hfirst).tryAlloc hsecond
  exact heap_safe (show physRange 4096 1024 = some ⟨4096, 5120⟩ from rfl)
    (hrun.free (a := ⟨4096, 24, 16⟩) (List.mem_cons_of_mem _ List.mem_cons_self) rfl)

end ModernC.Alloc
