import Mathlib.Algebra.Order.BigOperators.Group.List
import ModernC.Alloc.Heap

/-!
# Who owns the bytes of a heap

The bytes between the start of a heap and its frontier lie in blocks that are free or owned, but for
the ones that were dropped.  Blocks can be taken, split, joined and given back.
-/

namespace ModernC.Alloc

open Framework

variable {h h' : Heap} {owned : List HeapBlock} {block other : HeapBlock}

/-! ## Blocks -/

/-- No byte is in both. -/
def HeapBlock.Apart (block other : HeapBlock) : Prop :=
  block.stop ≤ other.start ∨ other.stop ≤ block.start

/-- Neither ends where the other starts. -/
def HeapBlock.NonAdjacent (block other : HeapBlock) : Prop :=
  block.stop ≠ other.start ∧ other.stop ≠ block.start

lemma HeapBlock.Apart.symm (h : block.Apart other) : other.Apart block := Or.symm h

lemma HeapBlock.NonAdjacent.symm (h : block.NonAdjacent other) : other.NonAdjacent block :=
  And.symm h

lemma mkBlock_eq_some {start len : ℕ} :
    mkBlock start len = some block ↔ block.start = start ∧ block.len = len := by
  rw [mkBlock]
  constructor
  · intro h
    split at h
    · obtain rfl := Option.some.inj h
      exact ⟨rfl, rfl⟩
    · exact absurd h nofun
  · rintro ⟨rfl, rfl⟩
    rw [dif_pos block.stop_lt]

/-- The number of bytes in blocks. -/
def bytes (blocks : List HeapBlock) : ℕ := (blocks.map HeapBlock.len).sum

@[simp] lemma bytes_nil : bytes [] = 0 := rfl

@[simp] lemma bytes_cons (block : HeapBlock) (blocks : List HeapBlock) :
    bytes (block :: blocks) = block.len + bytes blocks := List.sum_cons

lemma bytes_append (blocks blocks' : List HeapBlock) :
    bytes (blocks ++ blocks') = bytes blocks + bytes blocks' := by
  rw [bytes, List.map_append, List.sum_append, bytes, bytes]

lemma bytes_perm {blocks blocks' : List HeapBlock} (h : blocks.Perm blocks') :
    bytes blocks = bytes blocks' := (h.map _).sum_eq

/-! ## The invariant -/

/-- The blocks of a heap, with the ones that are owned. -/
structure Heap.Owns (h : Heap) (owned : List HeapBlock) : Prop where
  start_le : h.range.start ≤ h.next
  next_le : h.next ≤ h.range.last
  last_lt : h.range.last < 2 ^ 64
  len_pos : ∀ block ∈ h.free ++ owned, 0 < block.len
  above : ∀ block ∈ h.free ++ owned, h.range.start ≤ block.start
  free_lt : ∀ block ∈ h.free, block.stop < h.next
  owned_le : ∀ block ∈ owned, block.stop ≤ h.next
  apart : (h.free ++ owned).Pairwise HeapBlock.Apart
  nonAdjacent : h.free.Pairwise HeapBlock.NonAdjacent
  length_le : h.free.length ≤ heapFreeSlots
  account : h.next - h.range.start = bytes h.free + bytes owned + h.droppedFreeBytes

lemma owns_heapInit {range : PhysRange} (hle : range.start ≤ range.last)
    (hlt : range.last < 2 ^ 64) : (heapInit range).Owns [] where
  start_le := Nat.le_refl _
  next_le := hle
  last_lt := hlt
  len_pos := nofun
  above := nofun
  free_lt := nofun
  owned_le := nofun
  apart := .nil
  nonAdjacent := .nil
  length_le := Nat.zero_le _
  account := Nat.sub_self _

/-- The order of the blocks does not matter. -/
lemma Heap.Owns.perm {free' owned' : List HeapBlock} (hown : h.Owns owned)
    (hfree : free'.Perm h.free) (howned : owned'.Perm owned) :
    ({ h with free := free' } : Heap).Owns owned' := by
  have hall : (free' ++ owned').Perm (h.free ++ owned) := hfree.append howned
  constructor
  · exact hown.start_le
  · exact hown.next_le
  · exact hown.last_lt
  · exact fun block hmem => hown.len_pos block (hall.mem_iff.mp hmem)
  · exact fun block hmem => hown.above block (hall.mem_iff.mp hmem)
  · exact fun block hmem => hown.free_lt block (hfree.mem_iff.mp hmem)
  · exact fun block hmem => hown.owned_le block (howned.mem_iff.mp hmem)
  · exact (hall.pairwise_iff fun {_ _} hab => hab.symm).mpr hown.apart
  · exact (hfree.pairwise_iff fun {_ _} hab => hab.symm).mpr hown.nonAdjacent
  · exact hfree.length_eq ▸ hown.length_le
  · have hbytes := bytes_perm hfree
    have hbytes' := bytes_perm howned
    have haccount := hown.account
    dsimp only
    omega

/-- A free block is taken. -/
lemma Heap.Owns.take {free' : List HeapBlock} (hown : h.Owns owned)
    (hfree : h.free.Perm (block :: free')) :
    ({ h with free := free' } : Heap).Owns (block :: owned) := by
  have hmem : block ∈ h.free := hfree.mem_iff.mpr List.mem_cons_self
  have hsub : ∀ other ∈ free', other ∈ h.free := fun other hother =>
    hfree.mem_iff.mpr (List.mem_cons_of_mem block hother)
  have hall : (h.free ++ owned).Perm (free' ++ block :: owned) := by
    have hcons := hfree.append_right owned
    exact hcons.trans List.perm_middle.symm
  constructor
  · exact hown.start_le
  · exact hown.next_le
  · exact hown.last_lt
  · exact fun other hother => hown.len_pos other (hall.mem_iff.mpr hother)
  · exact fun other hother => hown.above other (hall.mem_iff.mpr hother)
  · exact fun other hother => hown.free_lt other (hsub other hother)
  · intro other hother
    rcases List.mem_cons.mp hother with rfl | hother
    · exact Nat.le_of_lt (hown.free_lt other hmem)
    · exact hown.owned_le other hother
  · exact (hall.pairwise_iff fun {_ _} hab => hab.symm).mp hown.apart
  · have hpairwise := (hfree.pairwise_iff fun {_ _} hab => hab.symm).mp hown.nonAdjacent
    exact (List.pairwise_cons.mp hpairwise).2
  · have hlength := hfree.length_eq
    have hle := hown.length_le
    rw [List.length_cons] at hlength
    dsimp only
    omega
  · have hbytes := bytes_perm hfree
    have haccount := hown.account
    rw [bytes_cons] at hbytes
    dsimp only
    rw [bytes_cons]
    omega

/-! ## Exchanging blocks -/

lemma pairwise_apart_middle {blocks : List HeapBlock} :
    (blocks ++ block :: owned).Pairwise HeapBlock.Apart ↔
      (∀ other ∈ blocks ++ owned, block.Apart other) ∧
        (blocks ++ owned).Pairwise HeapBlock.Apart := by
  rw [(List.perm_middle.pairwise_iff fun {_ _} hab => hab.symm), List.pairwise_cons]

/-- Owned blocks are exchanged for others with the same bytes. -/
lemma Heap.Owns.exchange (old new : List HeapBlock) (hown : h.Owns (old ++ owned))
    (hpos : ∀ block ∈ new, 0 < block.len)
    (hinside : ∀ block ∈ new, h.range.start ≤ block.start ∧ block.stop ≤ h.next)
    (hpairwise : new.Pairwise HeapBlock.Apart) (hbytes : bytes new = bytes old)
    (hapart : ∀ block ∈ new, ∀ other, 0 < other.len → (∀ part ∈ old, part.Apart other) →
      block.Apart other) : h.Owns (new ++ owned) := by
  have hsub : ∀ other ∈ h.free ++ owned, other ∈ h.free ++ (old ++ owned) := by
    intro other hother
    simp only [List.mem_append] at hother ⊢
    tauto
  have hold : (∀ part ∈ old, ∀ other ∈ h.free ++ owned, part.Apart other) ∧
      (h.free ++ owned).Pairwise HeapBlock.Apart := by
    have hperm : (h.free ++ (old ++ owned)).Perm (old ++ (h.free ++ owned)) := by
      rw [← List.append_assoc, ← List.append_assoc]
      exact List.perm_append_comm.append_right owned
    have happend := (hperm.pairwise_iff fun {_ _} hab => hab.symm).mp hown.apart
    rw [List.pairwise_append] at happend
    exact ⟨happend.2.2, happend.2.1⟩
  -- whatever was apart from the old blocks is apart from the parts of the new ones
  constructor
  · exact hown.start_le
  · exact hown.next_le
  · exact hown.last_lt
  · intro other hother
    simp only [List.mem_append] at hother
    rcases hother with hfree | hnew | howned
    · exact hown.len_pos other (List.mem_append_left _ hfree)
    · exact hpos other hnew
    · exact hown.len_pos other (hsub other (List.mem_append_right _ howned))
  · intro other hother
    simp only [List.mem_append] at hother
    rcases hother with hfree | hnew | howned
    · exact hown.above other (List.mem_append_left _ hfree)
    · exact (hinside other hnew).1
    · exact hown.above other (hsub other (List.mem_append_right _ howned))
  · exact hown.free_lt
  · intro other hother
    rcases List.mem_append.mp hother with hnew | howned
    · exact (hinside other hnew).2
    · exact hown.owned_le other (List.mem_append_right _ howned)
  · have hperm : (h.free ++ (new ++ owned)).Perm (new ++ (h.free ++ owned)) := by
      rw [← List.append_assoc, ← List.append_assoc]
      exact List.perm_append_comm.append_right owned
    rw [hperm.pairwise_iff fun {_ _} hab => hab.symm, List.pairwise_append]
    refine ⟨hpairwise, hold.2, fun part hpart other hother => ?_⟩
    refine hapart part hpart other (hown.len_pos other (hsub other hother)) fun part' hpart' => ?_
    exact hold.1 part' hpart' other hother
  · exact hown.nonAdjacent
  · exact hown.length_le
  · have haccount := hown.account
    rw [bytes_append] at haccount ⊢
    omega

/-- Two blocks next to one another are joined. -/
lemma Heap.Owns.join {front back joined : HeapBlock} (hown : h.Owns (front :: back :: owned))
    (hmiddle : front.stop = back.start) (hstart : joined.start = front.start)
    (hlen : joined.len = front.len + back.len) : h.Owns (joined :: owned) := by
  have habove := hown.above front (by simp)
  have hbelow := hown.owned_le back (by simp)
  have hpos := hown.len_pos front (by simp)
  simp only [HeapBlock.stop] at hmiddle hbelow
  refine hown.exchange [front, back] [joined] ?_ ?_ ?_ ?_ ?_
  · simp only [List.mem_singleton, forall_eq]
    omega
  · simp only [List.mem_singleton, forall_eq, HeapBlock.stop]
    omega
  · exact List.pairwise_singleton ..
  · simp only [bytes_cons, bytes_nil]
    omega
  · intro part hpart other hother hold
    obtain rfl := List.mem_singleton.mp hpart
    have hapartFront := hold front (by simp)
    have hapartBack := hold back (by simp)
    simp only [HeapBlock.Apart, HeapBlock.stop] at hapartFront hapartBack ⊢
    omega

/-! ## The frontier -/

/-- The frontier goes up over a block. -/
lemma Heap.Owns.bump (hown : h.Owns owned) (hstart : block.start = h.next) (hpos : 0 < block.len)
    (hlast : block.stop ≤ h.range.last) :
    ({ h with next := block.stop } : Heap).Owns (block :: owned) := by
  have hstop : block.stop = h.next + block.len := by rw [HeapBlock.stop, hstart]
  have hstart_le := hown.start_le
  have hbelow : ∀ other ∈ h.free ++ owned, other.stop ≤ h.next := by
    intro other hother
    rcases List.mem_append.mp hother with hfree | howned
    · exact Nat.le_of_lt (hown.free_lt other hfree)
    · exact hown.owned_le other howned
  constructor
  · dsimp only
    omega
  · exact hlast
  · exact hown.last_lt
  · intro other hother
    rcases List.mem_cons.mp (List.perm_middle.mem_iff.mp hother) with rfl | hother
    · exact hpos
    · exact hown.len_pos other hother
  · intro other hother
    rcases List.mem_cons.mp (List.perm_middle.mem_iff.mp hother) with rfl | hother
    · dsimp only
      omega
    · exact hown.above other hother
  · intro other hother
    have hlt := hown.free_lt other hother
    dsimp only
    omega
  · intro other hother
    rcases List.mem_cons.mp hother with rfl | hother
    · exact Nat.le_refl _
    · have hle := hown.owned_le other hother
      dsimp only
      omega
  · rw [pairwise_apart_middle]
    refine ⟨fun other hother => .inr ?_, hown.apart⟩
    rw [hstart]
    exact hbelow other hother
  · exact hown.nonAdjacent
  · exact hown.length_le
  · have haccount := hown.account
    dsimp only
    rw [bytes_cons]
    omega

/-- The frontier goes down over a block that ends there. -/
lemma Heap.Owns.lower (hown : h.Owns (block :: owned)) (hstop : block.stop = h.next)
    (hfree : ∀ other ∈ h.free, other.stop ≠ block.start) :
    ({ h with next := block.start } : Heap).Owns owned := by
  have hpos := hown.len_pos block (by simp)
  have habove := hown.above block (by simp)
  obtain ⟨hapart, hpairwise⟩ := pairwise_apart_middle.mp hown.apart
  have hsub : ∀ other ∈ h.free ++ owned, other ∈ h.free ++ block :: owned := fun other hother =>
    List.perm_middle.mem_iff.mpr (List.mem_cons_of_mem block hother)
  have hbelow : ∀ other ∈ h.free ++ owned, other.stop ≤ block.start := by
    intro other hother
    have hotherPos := hown.len_pos other (hsub other hother)
    have hle : other.stop ≤ h.next := by
      rcases List.mem_append.mp hother with hfree | howned
      · exact Nat.le_of_lt (hown.free_lt other hfree)
      · exact hown.owned_le other (List.mem_cons_of_mem block howned)
    have heither := hapart other hother
    simp only [HeapBlock.Apart, HeapBlock.stop] at heither hle hstop ⊢
    omega
  have hnext : block.start + block.len = h.next := hstop
  constructor
  · exact habove
  · have hle := hown.next_le
    dsimp only
    omega
  · exact hown.last_lt
  · exact fun other hother => hown.len_pos other (hsub other hother)
  · exact fun other hother => hown.above other (hsub other hother)
  · intro other hother
    exact lt_of_le_of_ne (hbelow other (List.mem_append_left _ hother)) (hfree other hother)
  · exact fun other hother => hbelow other (List.mem_append_right _ hother)
  · exact hpairwise
  · exact hown.nonAdjacent
  · exact hown.length_le
  · have haccount := hown.account
    rw [bytes_cons] at haccount
    dsimp only
    omega

/-- A block becomes free, or is dropped where there is no slot for it. -/
lemma Heap.Owns.append (hown : h.Owns (block :: owned)) (hstop : block.stop ≠ h.next)
    (hfree : ∀ other ∈ h.free, other.NonAdjacent block) : (flAppend h block).Owns owned := by
  obtain ⟨hapart, hpairwise⟩ := pairwise_apart_middle.mp hown.apart
  have hsub : ∀ other ∈ h.free ++ owned, other ∈ h.free ++ block :: owned := fun other hother =>
    List.perm_middle.mem_iff.mpr (List.mem_cons_of_mem block hother)
  have haccount := hown.account
  have hle := hown.next_le
  have hlt := hown.last_lt
  rw [bytes_cons] at haccount
  rw [flAppend]
  -- without a slot the block is dropped, and the count of dropped bytes takes it
  split
  · have hroom : ¬h.droppedFreeBytes > 2 ^ 64 - 1 - block.len := by omega
    rw [if_neg hroom]
    constructor
    · exact hown.start_le
    · exact hown.next_le
    · exact hown.last_lt
    · exact fun other hother => hown.len_pos other (hsub other hother)
    · exact fun other hother => hown.above other (hsub other hother)
    · exact hown.free_lt
    · exact fun other hother => hown.owned_le other (List.mem_cons_of_mem block hother)
    · exact hpairwise
    · exact hown.nonAdjacent
    · exact hown.length_le
    · dsimp only
      omega
  · next hslots =>
    have hall : (h.free ++ [block] ++ owned) = h.free ++ block :: owned := by simp
    constructor
    · exact hown.start_le
    · exact hown.next_le
    · exact hown.last_lt
    · exact fun other hother => hown.len_pos other (hall ▸ hother)
    · exact fun other hother => hown.above other (hall ▸ hother)
    · intro other hother
      rcases List.mem_append.mp hother with hold | hnew
      · exact hown.free_lt other hold
      · obtain rfl := List.mem_singleton.mp hnew
        exact lt_of_le_of_ne (hown.owned_le other List.mem_cons_self) hstop
    · exact fun other hother => hown.owned_le other (List.mem_cons_of_mem block hother)
    · exact hall ▸ hown.apart
    · refine List.pairwise_append.mpr ⟨hown.nonAdjacent, List.pairwise_singleton .., ?_⟩
      intro other hother last hlast
      obtain rfl := List.mem_singleton.mp hlast
      exact hfree other hother
    · simp only [List.length_append, List.length_singleton]
      omega
    · dsimp only
      rw [bytes_append, bytes_cons, bytes_nil]
      omega

end ModernC.Alloc

/-!
## Giving blocks back

A release never traps on a block that is owned.  It joins the block with its free neighbours, so
that the free blocks stay apart with owned bytes between them.
-/

namespace ModernC.Alloc

open Framework

variable {h h' : Heap} {owned : List HeapBlock} {block : HeapBlock}

/-- What the pass over the free blocks has done so far. -/
structure Coalesced (h : Heap) (owned : List HeapBlock) (i : ℕ) (block : HeapBlock) : Prop where
  owns : h.Owns (block :: owned)
  passed : ∀ other ∈ h.free.take i, other.NonAdjacent block

/-- Two blocks next to one another become one. -/
lemma mkBlock_joined {front back : HeapBlock} {len : ℕ} (hown : h.Owns (front :: back :: owned))
    (hmiddle : front.stop = back.start) (hlen : len = front.len + back.len) :
    ∃ joined, mkBlock front.start len = some joined ∧ joined.start = front.start ∧
      joined.stop = back.stop ∧ h.Owns (joined :: owned) := by
  have hstop : front.start + len = back.stop := by
    simp only [HeapBlock.stop] at hmiddle ⊢
    omega
  have hlt : front.start + len < 2 ^ 64 := by
    rw [hstop]
    exact back.stop_lt
  refine ⟨⟨front.start, len, hlt⟩, mkBlock_eq_some.mpr ⟨rfl, rfl⟩, rfl, hstop, ?_⟩
  exact hown.join hmiddle rfl hlen

/-- A step that joins a free block with the one that is released. -/
lemma Coalesced.absorbs {front back : List HeapBlock} {other : HeapBlock}
    (hc : Coalesced h owned front.length block) (hfree : h.free = front ++ other :: back) :
    ∃ free', swapRemove h.free front.length = free' ∧ free'.length + 1 = h.free.length ∧
      free'.take front.length = front ∧
        ({ h with free := free' } : Heap).Owns (other :: block :: owned) := by
  obtain ⟨back', hswap, hperm⟩ := swapRemove_append front back other
  rw [hfree]
  refine ⟨front ++ back', hswap, ?_, List.take_left, hc.owns.take ?_⟩
  · simp [hperm.length_eq]
    omega
  · rw [hfree]
    exact List.perm_middle.trans ((hperm.symm.append_left front).cons other)

lemma Coalesced.nonAdjacent {front back : List HeapBlock} {other : HeapBlock}
    (hc : Coalesced h owned front.length block) (hfree : h.free = front ++ other :: back) :
    ∀ passed ∈ front, passed.NonAdjacent other ∧ passed.NonAdjacent block := by
  intro passed hpassed
  have hpairwise := hc.owns.nonAdjacent
  rw [hfree, List.pairwise_append] at hpairwise
  refine ⟨hpairwise.2.2 passed hpassed other List.mem_cons_self, hc.passed passed ?_⟩
  rw [hfree, List.take_left]
  exact hpassed

/-- **The pass over the free blocks** leaves a block that is next to none of them. -/
lemma Coalesced.coalesce {fuel i : ℕ} (hc : Coalesced h owned i block)
    (hfuel : h.free.length ≤ fuel + i) (hi : i ≤ h.free.length) :
    ∃ free' joined, Alloc.coalesce fuel i h.free block = some (free', joined) ∧
      Coalesced { h with free := free' } owned free'.length joined := by
  induction fuel generalizing h i block with
  | zero =>
    refine ⟨h.free, block, rfl, hc.owns, fun other hother => hc.passed other ?_⟩
    have heq : i = h.free.length := by omega
    rwa [heq]
  | succ fuel ih =>
    rw [Alloc.coalesce]
    -- a free block that was joined is removed, so the pass stays at the index
    rcases hget : h.free[i]? with _ | other
    · refine ⟨h.free, block, rfl, hc.owns, fun other hother => hc.passed other ?_⟩
      have heq : i = h.free.length := le_antisymm hi (List.getElem?_eq_none_iff.mp hget)
      rwa [heq]
    · obtain ⟨hlt, hother⟩ := List.getElem?_eq_some_iff.mp hget
      obtain ⟨front, back, hfree, rfl⟩ := exists_append_of_getElem hlt
      rw [hother] at hfree
      obtain ⟨free', hswap, hcount, htake, howns⟩ := hc.absorbs hfree
      have hnear := hc.nonAdjacent hfree
      have hotherPos := howns.len_pos other (by simp)
      have hblockPos := howns.len_pos block (by simp)
      have hapart : block.stop ≤ other.start ∨ other.stop ≤ block.start := by
        have hpairwise := (pairwise_apart_middle.mp howns.apart).1 block (by simp)
        exact hpairwise.symm
      have hnext : ∀ {joined}, ({ h with free := free' } : Heap).Owns (joined :: owned) →
          (∀ passed ∈ front, passed.NonAdjacent joined) →
          ∃ free'' joined', Alloc.coalesce fuel front.length free' joined = some (free'', joined') ∧
            Coalesced { h with free := free'' } owned free''.length joined' := by
        intro joined howns' hpassed
        have hstep : Coalesced { h with free := free' } owned front.length joined :=
          ⟨howns', fun passed hmem => hpassed passed (htake ▸ hmem)⟩
        refine ih hstep ?_ ?_
        · dsimp only
          omega
        · dsimp only
          rw [hfree, List.length_append, List.length_cons] at hcount
          omega
      dsimp only
      have hover : ¬(block.start < other.stop ∧ other.start < block.stop) := by omega
      rw [if_neg hover]
      by_cases hbefore : other.stop = block.start
      · obtain ⟨joined, hjoined, hstart, hstop, howns'⟩ :=
          mkBlock_joined howns hbefore (Nat.add_comm block.len other.len)
        rw [if_pos hbefore, hjoined, hswap]
        refine hnext howns' fun passed hpassed => ?_
        obtain ⟨hother', hblock'⟩ := hnear passed hpassed
        exact ⟨hstart ▸ hother'.1, hstop ▸ hblock'.2⟩
      · rw [if_neg hbefore]
        by_cases hbehind : block.stop = other.start
        · have howns'' : ({ h with free := free' } : Heap).Owns (block :: other :: owned) :=
            howns.perm (List.Perm.refl _) (List.Perm.swap other block owned)
          obtain ⟨joined, hjoined, hstart, hstop, howns'⟩ :=
            mkBlock_joined howns'' hbehind rfl
          rw [if_pos hbehind, hjoined, hswap]
          refine hnext howns' fun passed hpassed => ?_
          obtain ⟨hother', hblock'⟩ := hnear passed hpassed
          exact ⟨hstart ▸ hblock'.1, hstop ▸ hother'.2⟩
        · rw [if_neg hbehind]
          have hstep : Coalesced h owned (front.length + 1) block := by
            refine ⟨hc.owns, fun passed hmem => ?_⟩
            rw [hfree, List.take_append, List.take_of_length_le (Nat.le_succ _),
              Nat.add_sub_cancel_left] at hmem
            rcases List.mem_append.mp hmem with hold | hnew
            · exact (hnear passed hold).2
            · obtain rfl : passed = other := by simpa using hnew
              exact ⟨hbefore, hbehind⟩
          exact ih hstep (by omega) hlt

/-- The fields that giving blocks out and back leaves alone. -/
structure Heap.Frame (h h' : Heap) : Prop where
  range : h'.range = h.range
  live : h'.live = h.live
  trackLive : h'.trackLive = h.trackLive

lemma Heap.Frame.refl (h : Heap) : h.Frame h := ⟨rfl, rfl, rfl⟩

lemma Heap.Frame.trans {h'' : Heap} (hframe : h.Frame h') (hframe' : h'.Frame h'') : h.Frame h'' :=
  ⟨hframe'.range.trans hframe.range, hframe'.live.trans hframe.live,
    hframe'.trackLive.trans hframe.trackLive⟩

lemma absorb_of_forall_ne {fuel next : ℕ} {free : List HeapBlock}
    (hne : ∀ other ∈ free, other.stop ≠ next) : absorb fuel free next = (free, next) := by
  cases fuel with
  | zero => rfl
  | succ fuel =>
    have hnone : (free.findIdx? fun other => other.stop == next) = none := by
      rw [List.findIdx?_eq_none_iff]
      intro other hother
      simpa using hne other hother
    rw [absorb, hnone]

/-- **An owned block is given back.** -/
theorem Heap.Owns.release (hown : h.Owns (block :: owned)) :
    ∃ h', heapRelease h block.start block.len = some h' ∧ h'.Owns owned ∧ h.Frame h' := by
  have hpos := hown.len_pos block (by simp)
  have hblock : mkBlock block.start block.len = some block := mkBlock_eq_some.mpr ⟨rfl, rfl⟩
  have hstart : Coalesced h owned 0 block := ⟨hown, fun other hother => by simp at hother⟩
  obtain ⟨free', joined, hcoalesce, howns, hpassed⟩ :=
    hstart.coalesce (Nat.le_refl _) (Nat.zero_le _)
  have hfar : ∀ other ∈ free', other.NonAdjacent joined := by
    intro other hother
    exact hpassed other (by simpa using hother)
  rw [heapRelease, if_neg (by omega), hblock]
  simp only [Option.bind_eq_bind, Option.bind_some, hcoalesce]
  by_cases hnext : joined.stop = h.next
  · have habsorb : absorb free'.length free' joined.start = (free', joined.start) :=
      absorb_of_forall_ne fun other hother => (hfar other hother).1
    rw [if_pos hnext]
    simp only [habsorb]
    exact ⟨_, rfl, howns.lower hnext fun other hother => (hfar other hother).1, ⟨rfl, rfl, rfl⟩⟩
  · rw [if_neg hnext]
    refine ⟨_, rfl, howns.append hnext hfar, ?_⟩
    rw [flAppend]
    split <;> exact ⟨rfl, rfl, rfl⟩

/-! ## Gaps -/

/-- The block between two addresses, if there are bytes between them. -/
def span (start stop : ℕ) : List HeapBlock :=
  if h : start < stop ∧ stop < 2 ^ 64 then [⟨start, stop - start, by omega⟩] else []

lemma span_self (start : ℕ) : span start start = [] := by simp [span]

lemma span_eq_singleton (block : HeapBlock) (hpos : 0 < block.len) :
    span block.start block.stop = [block] := by
  have hlt : block.start < block.stop ∧ block.stop < 2 ^ 64 :=
    ⟨Nat.lt_add_of_pos_right hpos, block.stop_lt⟩
  rw [span, dif_pos hlt, List.cons.injEq]
  obtain ⟨start, len, hstop⟩ := block
  exact ⟨HeapBlock.mk.injEq .. ▸ ⟨rfl, Nat.add_sub_cancel_left start len⟩, rfl⟩

variable {start stop : ℕ}

lemma mem_span {part : HeapBlock} (hmem : part ∈ span start stop) :
    start < stop ∧ part.start = start ∧ part.stop = stop := by
  rw [span] at hmem
  split at hmem
  · next hlt =>
    obtain rfl := List.mem_singleton.mp hmem
    refine ⟨hlt.1, rfl, ?_⟩
    simp only [HeapBlock.stop]
    omega
  · exact absurd hmem List.not_mem_nil

lemma bytes_span (hle : start ≤ stop) (hlt : stop < 2 ^ 64) :
    bytes (span start stop) = stop - start := by
  rw [span]
  split
  · simp [bytes]
  · rw [bytes_nil]
    omega

lemma pairwise_span (start stop : ℕ) : (span start stop).Pairwise HeapBlock.Apart := by
  rw [span]
  split
  · exact List.pairwise_singleton ..
  · exact .nil

/-- A block is cut into three parts, of which some may be empty. -/
lemma Heap.Owns.carve (hown : h.Owns (block :: owned))
    (hstart : block.start ≤ start) (hle : start ≤ stop) (hstop : stop ≤ block.stop) :
    h.Owns (span block.start start ++ span start stop ++ span stop block.stop ++ owned) := by
  have habove := hown.above block (by simp)
  have hbelow := hown.owned_le block (by simp)
  have hnext := hown.next_le
  have hlast := hown.last_lt
  have hparts : ∀ {part}, part ∈ span block.start start ++ span start stop ++
      span stop block.stop → block.start ≤ part.start ∧ part.start < part.stop ∧
        part.stop ≤ block.stop := by
    intro part hmem
    simp only [List.mem_append] at hmem
    rcases hmem with (hmem | hmem) | hmem
    all_goals
      obtain ⟨hlt, hpartStart, hpartStop⟩ := mem_span hmem
      omega
  refine hown.exchange [block] _ ?_ ?_ ?_ ?_ ?_
  · intro part hmem
    have hpart := hparts hmem
    simp only [HeapBlock.stop] at hpart
    omega
  · intro part hmem
    have hpart := hparts hmem
    omega
  · rw [List.pairwise_append, List.pairwise_append]
    refine ⟨⟨pairwise_span _ _, pairwise_span _ _, fun part hpart part' hpart' => .inl ?_⟩,
      pairwise_span _ _, fun part hpart part' hpart' => .inl ?_⟩
    · have hfirst := mem_span hpart
      have hsecond := mem_span hpart'
      omega
    · have hsecond := mem_span hpart'
      rcases List.mem_append.mp hpart with hpart | hpart
      · have hfirst := mem_span hpart
        omega
      · have hfirst := mem_span hpart
        omega
  · rw [bytes_append, bytes_append, bytes_span hstart (by omega), bytes_span hle (by omega),
      bytes_span hstop (by omega), bytes_cons, bytes_nil]
    simp only [HeapBlock.stop] at hstop ⊢
    omega
  · intro part hmem other hother hold
    have hpart := hparts hmem
    have happart := hold block (List.mem_singleton_self block)
    simp only [HeapBlock.Apart] at happart ⊢
    omega

/-- A gap is given back. -/
lemma Heap.Owns.releaseGap (hown : h.Owns (span start stop ++ owned)) (hlt : stop < 2 ^ 64) :
    ∃ h', Alloc.releaseGap h start stop = some h' ∧ h'.Owns owned ∧ h.Frame h' := by
  rw [Alloc.releaseGap]
  by_cases hgap : start < stop
  · rw [span, dif_pos ⟨hgap, hlt⟩] at hown
    obtain ⟨h', hrelease, howns, hframe⟩ := hown.release
    exact ⟨h', by rw [if_pos hgap, hrelease], howns, hframe⟩
  · rw [span, dif_neg (by omega), List.nil_append] at hown
    exact ⟨h, by rw [if_neg hgap], hown, .refl h⟩

end ModernC.Alloc
