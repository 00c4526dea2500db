import Mathlib.Order.WithBot
import ModernC.Alloc.Ownership
import ModernC.Framework.Intervals

/-!
# The two releases

A heap can release a block in two ways.  The compact release is one pass over the free blocks, the
legacy release goes over an array with empty slots, and starts again after each block that it has
joined.  Both should leave the same bytes free, in as few blocks as there can be.
`ReleaseState.releasesAgree_iff` says when they do, for a tidy heap and a block up to its frontier.
-/

namespace ModernC.Alloc

open Framework Framework.Intervals

/-! ## The legacy release -/

def fbEmpty : HeapBlock := ⟨0, 0, by decide⟩

/-- The blocks in the slots that are not empty. -/
def freeBlocks (slots : List HeapBlock) : List HeapBlock := slots.filter fun slot => slot.len ≠ 0

/-- The slots that end at the frontier are emptied, and the search starts again after each. -/
def absorbSlots : ℕ → List HeapBlock → ℕ → List HeapBlock × ℕ
  | 0, slots, next => (slots, next)
  | fuel + 1, slots, next =>
    match slots.findIdx? fun slot => slot.len != 0 && slot.stop == next with
    | none => (slots, next)
    | some j => absorbSlots fuel (slots.set j fbEmpty) ((slots[j]?.map HeapBlock.start).getD next)

/-- The first slot that the block can be joined with, and the block that this gives. -/
def joinSlot (block : HeapBlock) : List HeapBlock → ℕ → Option (Option (ℕ × HeapBlock))
  | [], _ => some none
  | slot :: slots, i =>
    if slot.len ≠ 0 then
      if block.start < slot.stop ∧ slot.start < block.stop then none
      else if slot.stop = block.start then do
        let joined ← mkBlock slot.start (block.len + slot.len)
        return some (i, joined)
      else if block.stop = slot.start then do
        let joined ← mkBlock block.start (block.len + slot.len)
        return some (i, joined)
      else joinSlot block slots (i + 1)
    else joinSlot block slots (i + 1)

/-- The first empty slot takes the block.  It is dropped if there is none. -/
def storeSlot (slots : List HeapBlock) (block : HeapBlock) : List HeapBlock :=
  match slots.findIdx? fun slot => slot.len == 0 with
  | none => slots
  | some k => slots.set k block

/-- The loop of `heap_release_legacy`.  Each round but the last empties a slot. -/
def legacyLoop : ℕ → List HeapBlock → ℕ → HeapBlock → Option (List HeapBlock × ℕ)
  | 0, slots, next, block => some (storeSlot slots block, next)
  | fuel + 1, slots, next, block =>
    if block.stop = next then some (absorbSlots slots.length slots block.start)
    else do
      match ← joinSlot block slots 0 with
      | some (i, joined) => legacyLoop fuel (slots.set i fbEmpty) next joined
      | none => return (storeSlot slots block, next)

/-- `heap_release_legacy`, on the slots and the frontier of a heap. -/
def heapReleaseLegacy (slots : List HeapBlock) (next start len : ℕ) :
    Option (List HeapBlock × ℕ) :=
  if len = 0 then some (slots, next)
  else do
    let block ← mkBlock start len
    legacyLoop (slots.length + 1) slots next block

/-! ## Tidy free blocks -/

/-- Free blocks are not empty, no two meet or touch, and none touches the frontier. -/
structure Tidy (free : List HeapBlock) (next : ℕ) : Prop where
  pos : ∀ block ∈ free, 0 < block.len
  apart : free.Pairwise HeapBlock.Apart
  nonAdjacent : free.Pairwise HeapBlock.NonAdjacent
  below : ∀ block ∈ free, block.stop < next

/-- An address that can be given out: it is free, or behind the frontier. -/
def Covered (free : List HeapBlock) (next a : ℕ) : Prop :=
  next ≤ a ∨ ∃ block ∈ free, block.start ≤ a ∧ a < block.stop

variable {free free' free₀ slots : List HeapBlock} {next next' : ℕ} {block block₀ : HeapBlock}

/-- The intervals of addresses that can be given out. -/
def intervals (free : List HeapBlock) (next : ℕ) : List (WithTop ℕ × WithTop ℕ) :=
  (.some next, ⊤) :: free.map fun block => (.some block.start, .some block.stop)

lemma covers_intervals {a : WithTop ℕ} :
    Covers (intervals free next) a ↔ ∃ n : ℕ, a = .some n ∧ Covered free next n := by
  simp only [Covers, intervals, List.mem_cons, List.mem_map, Set.mem_Ico]
  cases a with
  | top => simp
  | coe n =>
    simp only [exists_eq_or_imp, WithTop.coe_le_coe, WithTop.coe_lt_top, and_true,
      exists_exists_and_eq_and, WithTop.coe_lt_coe, Covered]
    constructor
    · exact fun h => ⟨n, rfl, h⟩
    · rintro ⟨m, hm, h⟩
      obtain rfl : n = m := WithTop.coe_injective hm
      exact h

lemma Tidy.separated (h : Tidy free next) : Separated (intervals free next) := by
  constructor
  · intro x hx
    rcases List.mem_cons.mp hx with rfl | hx
    · exact WithTop.coe_lt_top next
    · obtain ⟨block, hblock, rfl⟩ := List.mem_map.mp hx
      have hpos := h.pos block hblock
      refine WithTop.coe_lt_coe.mpr ?_
      simp only [HeapBlock.stop]
      omega
  · refine List.pairwise_cons.mpr ⟨?_, ?_⟩
    · intro x hx
      obtain ⟨block, hblock, rfl⟩ := List.mem_map.mp hx
      exact .inr (WithTop.coe_lt_coe.mpr (h.below block hblock))
    · refine List.pairwise_map.mpr ((h.apart.and h.nonAdjacent).imp ?_)
      rintro block other ⟨hapart, hne, hne'⟩
      rcases hapart with hle | hle
      · exact .inl (WithTop.coe_lt_coe.mpr (lt_of_le_of_ne hle hne))
      · exact .inr (WithTop.coe_lt_coe.mpr (lt_of_le_of_ne hle hne'))

/-- **Tidy free blocks are determined** by the addresses that can be given out. -/
theorem Tidy.unique (h : Tidy free next) (h' : Tidy free' next')
    (hcovered : ∀ a, Covered free next a ↔ Covered free' next' a) :
    next = next' ∧ free.Perm free' := by
  have hperm : (intervals free next).Perm (intervals free' next') := by
    refine h.separated.perm_of_covers h'.separated fun a => ?_
    rw [covers_intervals, covers_intervals]
    exact exists_congr fun n => and_congr_right fun _ => hcovered n
  have hnext : next = next' := by
    have hmem : (WithTop.some next, (⊤ : WithTop ℕ)) ∈ intervals free' next' :=
      hperm.mem_iff.mp List.mem_cons_self
    rcases List.mem_cons.mp hmem with heq | hblock
    · exact WithTop.coe_injective (congrArg Prod.fst heq)
    · obtain ⟨block, -, heq⟩ := List.mem_map.mp hblock
      exact absurd (congrArg Prod.snd heq) (WithTop.coe_ne_top)
  refine ⟨hnext, ?_⟩
  subst hnext
  have hinj : Function.Injective fun block : HeapBlock =>
      (WithTop.some block.start, WithTop.some block.stop) := by
    rintro ⟨start, len, hlt⟩ ⟨start', len', hlt'⟩ heq
    obtain rfl : start = start' := WithTop.coe_injective (congrArg Prod.fst heq)
    have hstop : start + len = start + len' := WithTop.coe_injective (congrArg Prod.snd heq)
    obtain rfl : len = len' := Nat.add_left_cancel hstop
    rfl
  exact (List.map_perm_map_iff hinj).mp hperm.cons_inv

/-! ## Joining blocks -/

/-- There is no slot for the block, and it cannot be joined with anything. -/
def Homeless (free : List HeapBlock) (next : ℕ) (block : HeapBlock) : Prop :=
  heapFreeSlots ≤ free.length ∧ block.stop ≠ next ∧ ∀ other ∈ free, other.NonAdjacent block

/-- What a release should do: the bytes of the block can be given out from then on, unless the
block has to be dropped. -/
structure Released (free₀ : List HeapBlock) (next₀ : ℕ) (block₀ : HeapBlock)
    (free : List HeapBlock) (next : ℕ) : Prop where
  tidy : Tidy free next
  dropped : Homeless free₀ next₀ block₀ → free.Perm free₀ ∧ next = next₀
  joined : ¬Homeless free₀ next₀ block₀ →
    ∀ a, Covered free next a ↔ Covered (block₀ :: free₀) next₀ a

theorem Released.unique (h : Released free₀ next block₀ free next')
    {free'' : List HeapBlock} {next'' : ℕ} (h' : Released free₀ next block₀ free'' next'') :
    next' = next'' ∧ free.Perm free'' := by
  by_cases hhomeless : Homeless free₀ next block₀
  · obtain ⟨hperm, rfl⟩ := h.dropped hhomeless
    obtain ⟨hperm', rfl⟩ := h'.dropped hhomeless
    exact ⟨rfl, hperm.trans hperm'.symm⟩
  · exact h.tidy.unique h'.tidy fun a =>
      (h.joined hhomeless a).trans (h'.joined hhomeless a).symm

/-- A release so far: the free blocks that are left, and the block that they are joined with. -/
structure Joining (free₀ : List HeapBlock) (next : ℕ) (block₀ : HeapBlock)
    (free : List HeapBlock) (block : HeapBlock) : Prop where
  tidy : Tidy free next
  pos : 0 < block.len
  apart : ∀ other ∈ free, block.Apart other
  stop_le : block.stop ≤ next
  length_le : free.length ≤ heapFreeSlots
  covered : ∀ a, Covered (block :: free) next a ↔ Covered (block₀ :: free₀) next a
  /-- Either nothing is joined yet, or there is a slot for the block. -/
  room : block = block₀ ∧ free.Perm free₀ ∨
    free.length < heapFreeSlots ∧ ¬Homeless free₀ next block₀

lemma Joining.refl (htidy : Tidy free next) (hlength : free.length ≤ heapFreeSlots)
    (hpos : 0 < block.len) (hle : block.stop ≤ next) (hapart : ∀ other ∈ free, block.Apart other) :
    Joining free next block free block :=
  ⟨htidy, hpos, hapart, hle, hlength, fun _ => Iff.rfl, .inl ⟨rfl, .refl free⟩⟩

lemma Tidy.perm (h : Tidy free next) (hperm : free.Perm free') : Tidy free' next where
  pos := fun block hblock => h.pos block (hperm.mem_iff.mpr hblock)
  apart := (hperm.pairwise_iff fun {_ _} hab => hab.symm).mp h.apart
  nonAdjacent := (hperm.pairwise_iff fun {_ _} hab => hab.symm).mp h.nonAdjacent
  below := fun block hblock => h.below block (hperm.mem_iff.mpr hblock)

lemma Covered.perm {a : ℕ} (hperm : free.Perm free') :
    Covered free next a ↔ Covered free' next a := by
  simp only [Covered, hperm.mem_iff]

lemma covered_cons {a : ℕ} :
    Covered (block :: free) next a ↔ (block.start ≤ a ∧ a < block.stop) ∨ Covered free next a := by
  simp only [Covered, List.mem_cons, exists_eq_or_imp]
  exact or_left_comm

lemma Joining.perm (h : Joining free₀ next block₀ free block) (hperm : free.Perm free') :
    Joining free₀ next block₀ free' block where
  tidy := h.tidy.perm hperm
  pos := h.pos
  apart := fun other hother => h.apart other (hperm.mem_iff.mpr hother)
  stop_le := h.stop_le
  length_le := hperm.length_eq ▸ h.length_le
  covered := fun a => (Covered.perm (hperm.cons block)).symm.trans (h.covered a)
  room := by
    rw [← hperm.length_eq]
    exact h.room.imp (fun hroom => ⟨hroom.1, hperm.symm.trans hroom.2⟩) id

/-- Two blocks, one of which ends where the other starts, become one. -/
def Joins (other block joined : HeapBlock) : Prop :=
  (other.stop = block.start ∧ joined.start = other.start ∧ joined.stop = block.stop) ∨
    (block.stop = other.start ∧ joined.start = block.start ∧ joined.stop = other.stop)

variable {other : HeapBlock}

/-- Two blocks side by side are one block. -/
lemma exists_mkBlock {first second : HeapBlock} (h : first.stop = second.start) :
    ∃ joined, mkBlock first.start (first.len + second.len) = some joined ∧
      joined.start = first.start ∧ joined.stop = second.stop := by
  have hstop : first.start + (first.len + second.len) = second.stop := by
    simp only [HeapBlock.stop] at h ⊢
    omega
  have hlt : first.start + (first.len + second.len) < 2 ^ 64 := hstop ▸ second.stop_lt
  exact ⟨⟨first.start, first.len + second.len, hlt⟩, mkBlock_eq_some.mpr ⟨rfl, rfl⟩, rfl, hstop⟩

lemma exists_joins_before (h : other.stop = block.start) :
    ∃ joined, mkBlock other.start (block.len + other.len) = some joined ∧
      Joins other block joined := by
  obtain ⟨joined, hjoined, hends⟩ := exists_mkBlock h
  exact ⟨joined, Nat.add_comm block.len _ ▸ hjoined, .inl ⟨h, hends⟩⟩

lemma exists_joins_behind (h : block.stop = other.start) :
    ∃ joined, mkBlock block.start (block.len + other.len) = some joined ∧
      Joins other block joined := by
  obtain ⟨joined, hjoined, hends⟩ := exists_mkBlock h
  exact ⟨joined, hjoined, .inr ⟨h, hends⟩⟩

/-- **A joining step** keeps what can be given out. -/
lemma Joining.join {joined : HeapBlock} (h : Joining free₀ next block₀ free block)
    (hperm : free.Perm (other :: free')) (hjoins : Joins other block joined) :
    Joining free₀ next block₀ free' joined := by
  have h' := h.perm hperm
  have hpos := h.pos
  have hotherPos := h'.tidy.pos other List.mem_cons_self
  have hbelow := h'.tidy.below other List.mem_cons_self
  have hle := h.stop_le
  obtain ⟨hapart, hapart'⟩ := List.pairwise_cons.mp h'.tidy.apart
  have hsub : ∀ third ∈ free', third ∈ other :: free' := fun third hthird =>
    List.mem_cons_of_mem other hthird
  have hlength := h'.length_le
  rw [List.length_cons] at hlength
  have hadjacent : ¬other.NonAdjacent block := by
    rintro ⟨hbefore, hbehind⟩
    exact hjoins.elim (fun hj => hbefore hj.1) (fun hj => hbehind hj.1)
  constructor
  · constructor
    · exact fun third hthird => h'.tidy.pos third (hsub third hthird)
    · exact hapart'
    · exact (List.pairwise_cons.mp h'.tidy.nonAdjacent).2
    · exact fun third hthird => h'.tidy.below third (hsub third hthird)
  · simp only [Joins, HeapBlock.stop] at hjoins
    omega
  · intro third hthird
    have hthirdPos := h'.tidy.pos third (hsub third hthird)
    have hother := hapart third hthird
    have hblock := h'.apart third (hsub third hthird)
    simp only [Joins, HeapBlock.stop, HeapBlock.Apart] at hjoins hother hblock ⊢
    omega
  · simp only [Joins, HeapBlock.stop] at hjoins hle hbelow ⊢
    omega
  · omega
  · intro a
    rw [← h'.covered a]
    simp only [covered_cons, ← or_assoc]
    refine or_congr ?_ Iff.rfl
    simp only [Joins, HeapBlock.stop] at hjoins ⊢
    omega
  · refine .inr ⟨by omega, ?_⟩
    rcases h'.room with ⟨rfl, hfree⟩ | ⟨-, hroom⟩
    · rintro ⟨-, -, hfar⟩
      exact hadjacent (hfar other (hfree.mem_iff.mp List.mem_cons_self))
    · exact hroom

/-- A block that ends at the frontier is behind it from then on. -/
lemma Joining.lower (h : Joining free₀ next block₀ free block) (hstop : block.stop = next)
    (hfar : ∀ other ∈ free, other.stop ≠ block.start) :
    Released free₀ next block₀ free block.start := by
  have hpos := h.pos
  have hbelow : ∀ other ∈ free, other.stop < block.start := by
    intro other hother
    have hne := hfar other hother
    have hotherPos := h.tidy.pos other hother
    have hlt := h.tidy.below other hother
    have hapart := h.apart other hother
    simp only [HeapBlock.Apart, HeapBlock.stop] at hapart hlt hne hstop ⊢
    omega
  have hhomeless : ¬Homeless free₀ next block₀ := by
    rcases h.room with ⟨rfl, -⟩ | ⟨-, hroom⟩
    · exact fun hh => hh.2.1 hstop
    · exact hroom
  constructor
  · exact ⟨h.tidy.pos, h.tidy.apart, h.tidy.nonAdjacent, hbelow⟩
  · exact fun hh => absurd hh hhomeless
  · intro _ a
    rw [← h.covered a, covered_cons]
    simp only [Covered, ← or_assoc]
    refine or_congr ?_ Iff.rfl
    simp only [HeapBlock.stop] at hstop ⊢
    omega

/-- A block that touches nothing takes a slot. -/
lemma Joining.store (h : Joining free₀ next block₀ free block) (hstop : block.stop ≠ next)
    (hfar : ∀ other ∈ free, other.NonAdjacent block) (hroom : free.length < heapFreeSlots) :
    Released free₀ next block₀ (block :: free) next := by
  have hhomeless : ¬Homeless free₀ next block₀ := by
    rcases h.room with ⟨rfl, hperm⟩ | ⟨-, hroom'⟩
    · exact fun hh => absurd hh.1 (by rw [← hperm.length_eq]; omega)
    · exact hroom'
  constructor
  · constructor
    · exact List.forall_mem_cons.mpr ⟨h.pos, h.tidy.pos⟩
    · exact List.pairwise_cons.mpr ⟨h.apart, h.tidy.apart⟩
    · exact List.pairwise_cons.mpr ⟨fun other hother => (hfar other hother).symm,
        h.tidy.nonAdjacent⟩
    · exact List.forall_mem_cons.mpr ⟨lt_of_le_of_ne h.stop_le hstop, h.tidy.below⟩
  · exact fun hh => absurd hh hhomeless
  · exact fun _ => h.covered

/-- Without a slot the block is dropped. -/
lemma Joining.drop (h : Joining free₀ next block₀ free block) (hstop : block.stop ≠ next)
    (hfar : ∀ other ∈ free, other.NonAdjacent block) (hfull : heapFreeSlots ≤ free.length) :
    Released free₀ next block₀ free next := by
  rcases h.room with ⟨rfl, hperm⟩ | ⟨hroom, -⟩
  · have hhomeless : Homeless free₀ next block := by
      refine ⟨hperm.length_eq ▸ hfull, hstop, fun other hother => ?_⟩
      exact hfar other (hperm.mem_iff.mpr hother)
    exact ⟨h.tidy, fun _ => ⟨hperm, rfl⟩, fun hnot => absurd hhomeless hnot⟩
  · omega

end ModernC.Alloc

/-! ## The compact release -/

namespace ModernC.Alloc

open Framework

variable {free free' free₀ slots : List HeapBlock} {next : ℕ}
  {block block₀ other third joined : HeapBlock}

lemma HeapBlock.apart_iff :
    block.Apart other ↔ ¬(block.start < other.stop ∧ other.start < block.stop) := by
  rw [HeapBlock.Apart, not_and_or, not_lt, not_lt]
  exact or_comm

lemma Joins.nonAdjacent (h : Joins other block joined) (hother : third.NonAdjacent other)
    (hblock : third.NonAdjacent block) : third.NonAdjacent joined := by
  rcases h with ⟨-, hstart, hstop⟩ | ⟨-, hstart, hstop⟩
  · exact ⟨hstart ▸ hother.1, hstop ▸ hblock.2⟩
  · exact ⟨hstart ▸ hblock.1, hstop ▸ hother.2⟩

/-- What meets a block still meets it after it has been joined. -/
lemma Joins.not_apart (h : Joins other block joined) (hmeets : ¬block.Apart third) :
    ¬joined.Apart third := by
  simp only [Joins, HeapBlock.Apart, HeapBlock.stop] at h hmeets ⊢
  omega

variable {i : ℕ}

/-- The entry at an index, and the blocks that are left without it. -/
lemma exists_swapRemove (hget : free[i]? = some other) :
    ∃ front back back', free = front ++ other :: back ∧ front.length = i ∧
      swapRemove free i = front ++ back' ∧ back'.Perm back := by
  obtain ⟨hlt, hother⟩ := List.getElem?_eq_some_iff.mp hget
  obtain ⟨front, back, hfree, hlength⟩ := exists_append_of_getElem hlt
  rw [hother] at hfree
  obtain ⟨back', hswap, hperm⟩ := swapRemove_append front back other
  refine ⟨front, back, back', hfree, hlength, ?_, hperm⟩
  rw [hfree, ← hlength]
  exact hswap

/-- **The pass of the compact release** joins the block with what it touches. -/
lemma Joining.coalesce {fuel : ℕ} (h : Joining free₀ next block₀ free block)
    (hpassed : ∀ other ∈ free.take i, other.NonAdjacent block) (hfuel : free.length ≤ fuel + i) :
    ∃ free' joined, Alloc.coalesce fuel i free block = some (free', joined) ∧
      Joining free₀ next block₀ free' joined ∧ ∀ other ∈ free', other.NonAdjacent joined := by
  induction fuel generalizing i free block with
  | zero =>
    refine ⟨free, block, rfl, h, fun other hother => hpassed other ?_⟩
    rwa [List.take_of_length_le (by omega)]
  | succ fuel ih =>
    rw [Alloc.coalesce]
    rcases hget : free[i]? with _ | other
    · refine ⟨free, block, rfl, h, fun other hother => hpassed other ?_⟩
      rwa [List.take_of_length_le (List.getElem?_eq_none_iff.mp hget)]
    · obtain ⟨front, back, back', hfree, rfl, hswap, hback⟩ := exists_swapRemove hget
      have hmem : other ∈ free := List.mem_of_getElem? hget
      have hperm : free.Perm (other :: (front ++ back')) := by
        rw [hfree]
        exact List.perm_middle.trans ((hback.symm.append_left front).cons other)
      have hfront : ∀ third ∈ front, third.NonAdjacent other ∧ third.NonAdjacent block := by
        intro third hthird
        have hpairwise := h.tidy.nonAdjacent
        rw [hfree, List.pairwise_append] at hpairwise
        refine ⟨hpairwise.2.2 third hthird other List.mem_cons_self, hpassed third ?_⟩
        rwa [hfree, List.take_left]
      have hcount := hperm.length_eq
      rw [List.length_cons] at hcount
      -- a step that joins goes on at the same index, where another entry is now
      have hstep : ∀ {joined}, Joins other block joined →
          ∃ free'' joined', Alloc.coalesce fuel front.length (swapRemove free front.length) joined =
            some (free'', joined') ∧ Joining free₀ next block₀ free'' joined' ∧
              ∀ third ∈ free'', third.NonAdjacent joined' := by
        intro joined hjoins
        rw [hswap]
        refine ih (h.join hperm hjoins) ?_ (by omega)
        rw [List.take_left]
        intro third hthird
        exact hjoins.nonAdjacent (hfront third hthird).1 (hfront third hthird).2
      dsimp only
      rw [if_neg (HeapBlock.apart_iff.mp (h.apart other hmem))]
      by_cases hbefore : other.stop = block.start
      · obtain ⟨joined, hjoined, hjoins⟩ := exists_joins_before hbefore
        rw [if_pos hbefore, hjoined]
        exact hstep hjoins
      · rw [if_neg hbefore]
        by_cases hbehind : block.stop = other.start
        · obtain ⟨joined, hjoined, hjoins⟩ := exists_joins_behind hbehind
          rw [if_pos hbehind, hjoined]
          exact hstep hjoins
        · rw [if_neg hbehind]
          refine ih h ?_ (by omega)
          rw [hfree, List.take_append, List.take_of_length_le (Nat.le_succ _),
            Nat.add_sub_cancel_left]
          intro third hthird
          rcases List.mem_append.mp hthird with hold | hnew
          · exact (hfront third hold).2
          · obtain rfl : third = other := by simpa using hnew
            exact ⟨hbefore, hbehind⟩

/-- The pass does not get past a free block that the released block meets. -/
lemma coalesce_eq_none {fuel : ℕ} (hmeets : ∃ third ∈ free.drop i, ¬block.Apart third)
    (hfuel : free.length ≤ fuel + i) : Alloc.coalesce fuel i free block = none := by
  induction fuel generalizing i free block with
  | zero =>
    obtain ⟨third, hthird, -⟩ := hmeets
    rw [List.drop_of_length_le (by omega)] at hthird
    exact absurd hthird List.not_mem_nil
  | succ fuel ih =>
    obtain ⟨third, hthird, hmeets⟩ := hmeets
    rw [Alloc.coalesce]
    rcases hget : free[i]? with _ | other
    · rw [List.drop_of_length_le (List.getElem?_eq_none_iff.mp hget)] at hthird
      exact absurd hthird List.not_mem_nil
    · obtain ⟨front, back, back', hfree, rfl, hswap, hback⟩ := exists_swapRemove hget
      dsimp only
      by_cases hover : block.start < other.stop ∧ other.start < block.stop
      · rw [if_pos hover]
      · rw [hfree, List.drop_left] at hthird
        have hthird' : third ∈ back := by
          rcases List.mem_cons.mp hthird with rfl | hmem
          · exact absurd (HeapBlock.apart_iff.mpr hover) hmeets
          · exact hmem
        have hcount : free.length = front.length + back.length + 1 := by
          rw [hfree, List.length_append, List.length_cons, Nat.add_assoc]
        have hstep : ∀ {joined}, Joins other block joined →
            Alloc.coalesce fuel front.length (swapRemove free front.length) joined = none := by
          intro joined hjoins
          rw [hswap]
          refine ih ⟨third, ?_, hjoins.not_apart hmeets⟩ ?_
          · rw [List.drop_left]
            exact hback.mem_iff.mpr hthird'
          · rw [List.length_append, hback.length_eq]
            omega
        rw [if_neg hover]
        by_cases hbefore : other.stop = block.start
        · obtain ⟨joined, hjoined, hjoins⟩ := exists_joins_before hbefore
          rw [if_pos hbefore, hjoined]
          exact hstep hjoins
        · rw [if_neg hbefore]
          by_cases hbehind : block.stop = other.start
          · obtain ⟨joined, hjoined, hjoins⟩ := exists_joins_behind hbehind
            rw [if_pos hbehind, hjoined]
            exact hstep hjoins
          · rw [if_neg hbehind]
            refine ih ⟨third, ?_, hmeets⟩ (by omega)
            have hsplit : front ++ other :: back = (front ++ [other]) ++ back := by simp
            rw [hfree, hsplit, List.drop_left' (by simp)]
            exact hthird'

lemma Released.perm (h : Released free₀ next block₀ free next) (hperm : free.Perm free') :
    Released free₀ next block₀ free' next where
  tidy := h.tidy.perm hperm
  dropped := fun hh => ⟨hperm.symm.trans (h.dropped hh).1, rfl⟩
  joined := fun hh a => (Covered.perm hperm).symm.trans (h.joined hh a)

/-- **The compact release** of a block that meets no free block. -/
theorem Joining.heapRelease {h : Heap} (hjoining : Joining h.free h.next block h.free block) :
    ∃ h', Alloc.heapRelease h block.start block.len = some h' ∧
      Released h.free h.next block h'.free h'.next := by
  have hblock : mkBlock block.start block.len = some block := mkBlock_eq_some.mpr ⟨rfl, rfl⟩
  have hpassed : ∀ other ∈ h.free.take 0, other.NonAdjacent block := nofun
  obtain ⟨free', joined, hcoalesce, hjoined, hfar⟩ := hjoining.coalesce hpassed (Nat.le_refl _)
  rw [Alloc.heapRelease, if_neg (Nat.pos_iff_ne_zero.mp hjoining.pos), hblock]
  simp only [Option.bind_eq_bind, Option.bind_some, hcoalesce]
  by_cases hstop : joined.stop = h.next
  · have hne : ∀ other ∈ free', other.stop ≠ joined.start := fun other hother =>
      (hfar other hother).1
    rw [if_pos hstop, absorb_of_forall_ne hne]
    exact ⟨_, rfl, hjoined.lower hstop hne⟩
  · rw [if_neg hstop]
    refine ⟨_, rfl, ?_⟩
    rw [flAppend]
    split
    · next hfull => exact hjoined.drop hstop hfar hfull
    · next hroom =>
      have hreleased := hjoined.store hstop hfar (by simpa using hroom)
      exact hreleased.perm (List.perm_append_singleton joined free').symm

end ModernC.Alloc

/-! ## The legacy release -/

namespace ModernC.Alloc

open Framework

variable {free₀ slots : List HeapBlock} {next : ℕ} {block block₀ slot : HeapBlock} {i : ℕ}

lemma mem_freeBlocks : slot ∈ freeBlocks slots ↔ slot ∈ slots ∧ slot.len ≠ 0 := by
  simp [freeBlocks, List.mem_filter]

/-- The slot at an index, and the slots after another block is put there. -/
lemma exists_set (hget : slots[i]? = some slot) :
    ∃ front back, slots = front ++ slot :: back ∧
      ∀ block, slots.set i block = front ++ block :: back := by
  obtain ⟨hlt, hslot⟩ := List.getElem?_eq_some_iff.mp hget
  obtain ⟨front, back, hslots, rfl⟩ := exists_append_of_getElem hlt
  rw [hslot] at hslots
  refine ⟨front, back, hslots, fun block => ?_⟩
  rw [hslots, List.set_append_right _ _ (Nat.le_refl _), Nat.sub_self, List.set_cons_zero]

lemma freeBlocks_set_fbEmpty (hget : slots[i]? = some slot) (hlen : slot.len ≠ 0) :
    (freeBlocks slots).Perm (slot :: freeBlocks (slots.set i fbEmpty)) := by
  obtain ⟨front, back, hslots, hset⟩ := exists_set hget
  rw [hset, hslots]
  have hempty : freeBlocks (fbEmpty :: back) = freeBlocks back := rfl
  have hcons : freeBlocks (slot :: back) = slot :: freeBlocks back :=
    List.filter_cons_of_pos (by simpa using hlen)
  rw [freeBlocks, freeBlocks, List.filter_append, List.filter_append]
  change (_ ++ freeBlocks (slot :: back)).Perm (slot :: (_ ++ freeBlocks (fbEmpty :: back)))
  rw [hempty, hcons]
  exact List.perm_middle

variable {fuel : ℕ}

/-- **The search at the frontier** takes back the free block that ends there. -/
lemma Joining.absorbSlots (h : Joining free₀ next block₀ (freeBlocks slots) block)
    (hstop : block.stop = next) (hfuel : (freeBlocks slots).length ≤ fuel) :
    ∃ slots' next', Alloc.absorbSlots fuel slots block.start = (slots', next') ∧
      Released free₀ next block₀ (freeBlocks slots') next' := by
  induction fuel generalizing slots block with
  | zero =>
    have hnil : freeBlocks slots = [] := List.length_eq_zero_iff.mp (Nat.le_zero.mp hfuel)
    refine ⟨slots, block.start, rfl, h.lower hstop fun other hother => ?_⟩
    rw [hnil] at hother
    exact absurd hother List.not_mem_nil
  | succ fuel ih =>
    rw [Alloc.absorbSlots]
    rcases hfind : slots.findIdx? (fun slot => slot.len != 0 && slot.stop == block.start) with _ | j
    · rw [hfind]
      refine ⟨slots, block.start, rfl, h.lower hstop fun other hother heq => ?_⟩
      obtain ⟨hmem, hlen⟩ := mem_freeBlocks.mp hother
      have hnot := List.findIdx?_eq_none_iff.mp hfind other hmem
      simp [hlen, heq] at hnot
    · obtain ⟨hlt, hslot, -⟩ := List.findIdx?_eq_some_iff_getElem.mp hfind
      have hget : slots[j]? = some slots[j] := List.getElem?_eq_getElem hlt
      obtain ⟨hlen, hbefore⟩ : slots[j].len ≠ 0 ∧ slots[j].stop = block.start := by
        simpa using hslot
      have hperm := freeBlocks_set_fbEmpty hget hlen
      have hcount := hperm.length_eq
      rw [List.length_cons] at hcount
      obtain ⟨joined, -, hjoins⟩ := exists_joins_before hbefore
      have hjoined := h.join hperm hjoins
      obtain ⟨hstart, hend⟩ : joined.start = slots[j].start ∧ joined.stop = block.stop := by
        rcases hjoins with ⟨-, hstart, hend⟩ | ⟨hbehind, -, -⟩
        · exact ⟨hstart, hend⟩
        · have hlt' := h.tidy.below slots[j] (mem_freeBlocks.mpr ⟨List.getElem_mem hlt, hlen⟩)
          have hpos := h.tidy.pos slots[j] (mem_freeBlocks.mpr ⟨List.getElem_mem hlt, hlen⟩)
          simp only [HeapBlock.stop] at hstop hbehind hlt'
          omega
      have hrest := ih hjoined (hend.trans hstop) (by omega)
      rw [hstart] at hrest
      rw [hfind]
      dsimp only
      rw [hget]
      exact hrest

/-- What the pass over the slots finds. -/
lemma joinSlot_spec (block : HeapBlock) (slots : List HeapBlock) (i : ℕ) :
    match joinSlot block slots i with
    | none => ∃ slot ∈ freeBlocks slots, ¬block.Apart slot
    | some none => ∀ slot ∈ freeBlocks slots, block.Apart slot ∧ slot.NonAdjacent block
    | some (some (j, joined)) => ∃ k slot, j = i + k ∧ slots[k]? = some slot ∧ slot.len ≠ 0 ∧
        Joins slot block joined := by
  induction slots generalizing i with
  | nil => exact nofun
  | cons slot slots ih =>
    -- what is found behind the first slot is found, where the first slot is passed
    have hrest : (slot.len ≠ 0 → block.Apart slot ∧ slot.NonAdjacent block) →
        match joinSlot block slots (i + 1) with
        | none => ∃ other ∈ freeBlocks (slot :: slots), ¬block.Apart other
        | some none => ∀ other ∈ freeBlocks (slot :: slots),
            block.Apart other ∧ other.NonAdjacent block
        | some (some (j, joined)) => ∃ k other, j = i + k ∧ (slot :: slots)[k]? = some other ∧
            other.len ≠ 0 ∧ Joins other block joined := by
      intro hpassed
      have hnext := ih (i + 1)
      rcases hjoin : joinSlot block slots (i + 1) with _ | _ | ⟨j, joined⟩
      · rw [hjoin] at hnext
        obtain ⟨other, hother, hmeets⟩ := hnext
        obtain ⟨hmem, hlen⟩ := mem_freeBlocks.mp hother
        exact ⟨other, mem_freeBlocks.mpr ⟨List.mem_cons_of_mem slot hmem, hlen⟩, hmeets⟩
      · rw [hjoin] at hnext
        intro other hother
        obtain ⟨hmem, hlen⟩ := mem_freeBlocks.mp hother
        rcases List.mem_cons.mp hmem with rfl | hmem
        · exact hpassed hlen
        · exact hnext other (mem_freeBlocks.mpr ⟨hmem, hlen⟩)
      · rw [hjoin] at hnext
        obtain ⟨k, other, rfl, hget, hlen, hjoins⟩ := hnext
        exact ⟨k + 1, other, by omega, hget, hlen, hjoins⟩
    rw [joinSlot]
    by_cases hlen : slot.len ≠ 0
    · rw [if_pos hlen]
      by_cases hover : block.start < slot.stop ∧ slot.start < block.stop
      · rw [if_pos hover]
        refine ⟨slot, mem_freeBlocks.mpr ⟨List.mem_cons_self, hlen⟩, ?_⟩
        exact fun hapart => HeapBlock.apart_iff.mp hapart hover
      · rw [if_neg hover]
        by_cases hbefore : slot.stop = block.start
        · obtain ⟨joined, hjoined, hjoins⟩ := exists_joins_before hbefore
          rw [if_pos hbefore, hjoined]
          exact ⟨0, slot, rfl, rfl, hlen, hjoins⟩
        · rw [if_neg hbefore]
          by_cases hbehind : block.stop = slot.start
          · obtain ⟨joined, hjoined, hjoins⟩ := exists_joins_behind hbehind
            rw [if_pos hbehind, hjoined]
            exact ⟨0, slot, rfl, rfl, hlen, hjoins⟩
          · rw [if_neg hbehind]
            exact hrest fun _ => ⟨HeapBlock.apart_iff.mpr hover, hbefore, hbehind⟩
    · rw [if_neg hlen]
      exact hrest fun hpos => absurd hpos hlen

/-- The block is put into a slot, or no slot is empty. -/
lemma storeSlot_spec (slots : List HeapBlock) (hlen : block.len ≠ 0) :
    (freeBlocks slots).length < slots.length ∧
        (block :: freeBlocks slots).Perm (freeBlocks (storeSlot slots block)) ∨
      (freeBlocks slots).length = slots.length ∧ storeSlot slots block = slots := by
  rw [storeSlot]
  rcases hfind : slots.findIdx? (fun slot => slot.len == 0) with _ | k
  · rw [hfind]
    refine .inr ⟨?_, rfl⟩
    rw [freeBlocks, List.filter_eq_self.mpr]
    intro slot hslot
    simpa using List.findIdx?_eq_none_iff.mp hfind slot hslot
  · left
    obtain ⟨hlt, hslot, -⟩ := List.findIdx?_eq_some_iff_getElem.mp hfind
    obtain ⟨front, back, hslots, hset⟩ := exists_set (List.getElem?_eq_getElem hlt)
    generalize slots[k] = slot at hslot hslots
    have hempty : freeBlocks (slot :: back) = freeBlocks back :=
      List.filter_cons_of_neg (by simpa using hslot)
    have hcons : freeBlocks (block :: back) = block :: freeBlocks back :=
      List.filter_cons_of_pos (by simpa using hlen)
    have happend : ∀ back', freeBlocks (front ++ back') = freeBlocks front ++ freeBlocks back' :=
      fun back' => List.filter_append front back'
    rw [hfind]
    dsimp only
    rw [hset, hslots, happend, happend, hempty, hcons]
    constructor
    · have hfront : (freeBlocks front).length ≤ front.length := List.length_filter_le ..
      have hback : (freeBlocks back).length ≤ back.length := List.length_filter_le ..
      rw [List.length_append, List.length_append, List.length_cons]
      omega
    · exact List.perm_middle.symm

/-- **The loop of the legacy release**, for a block that meets no free block. -/
theorem Joining.legacyLoop (h : Joining free₀ next block₀ (freeBlocks slots) block)
    (hslots : slots.length = heapFreeSlots) (hfuel : (freeBlocks slots).length < fuel) :
    ∃ slots' next', Alloc.legacyLoop fuel slots next block = some (slots', next') ∧
      Released free₀ next block₀ (freeBlocks slots') next' := by
  induction fuel generalizing slots block with
  | zero => exact absurd hfuel (Nat.not_lt_zero _)
  | succ fuel ih =>
    rw [Alloc.legacyLoop]
    by_cases hstop : block.stop = next
    · have hlength : (freeBlocks slots).length ≤ slots.length := List.length_filter_le ..
      obtain ⟨slots', next', habsorb, hreleased⟩ := h.absorbSlots hstop hlength
      rw [if_pos hstop, habsorb]
      exact ⟨slots', next', rfl, hreleased⟩
    · rw [if_neg hstop]
      have hspec := joinSlot_spec block slots 0
      rcases hjoin : joinSlot block slots 0 with _ | _ | ⟨j, joined⟩
      · rw [hjoin] at hspec
        obtain ⟨slot, hslot, hmeets⟩ := hspec
        exact absurd (h.apart slot hslot) hmeets
      · rw [hjoin] at hspec
        refine ⟨storeSlot slots block, next, rfl, ?_⟩
        have hfar : ∀ other ∈ freeBlocks slots, other.NonAdjacent block := fun other hother =>
          (hspec other hother).2
        rcases storeSlot_spec slots (Nat.pos_iff_ne_zero.mp h.pos) with
          ⟨hroom, hperm⟩ | ⟨hfull, hstore⟩
        · exact (h.store hstop hfar (hslots ▸ hroom)).perm hperm
        · rw [hstore]
          exact h.drop hstop hfar (by omega)
      · rw [hjoin] at hspec
        obtain ⟨k, slot, rfl, hget, hlen, hjoins⟩ := hspec
        have hperm := freeBlocks_set_fbEmpty hget hlen
        have hcount := hperm.length_eq
        rw [List.length_cons] at hcount
        rw [Nat.zero_add] at hjoin ⊢
        exact ih (h.join hperm hjoins) (by rw [List.length_set, hslots]) (by omega)

/-- Away from the frontier the loop does not get past a free block that the block meets. -/
lemma legacyLoop_eq_none (hmeets : ∃ slot ∈ freeBlocks slots, ¬block.Apart slot)
    (hstop : block.stop ≠ next) (hbelow : ∀ slot ∈ freeBlocks slots, slot.stop < next)
    (hfuel : (freeBlocks slots).length < fuel) : legacyLoop fuel slots next block = none := by
  induction fuel generalizing slots block with
  | zero => exact absurd hfuel (Nat.not_lt_zero _)
  | succ fuel ih =>
    obtain ⟨third, hthird, hmeets⟩ := hmeets
    rw [legacyLoop, if_neg hstop]
    have hspec := joinSlot_spec block slots 0
    rcases hjoin : joinSlot block slots 0 with _ | _ | ⟨j, joined⟩
    · rfl
    · rw [hjoin] at hspec
      exact absurd (hspec third hthird).1 hmeets
    · rw [hjoin] at hspec
      obtain ⟨k, slot, rfl, hget, hlen, hjoins⟩ := hspec
      have hperm := freeBlocks_set_fbEmpty hget hlen
      have hcount := hperm.length_eq
      rw [List.length_cons] at hcount
      have hsub : ∀ other ∈ freeBlocks (slots.set k fbEmpty), other ∈ freeBlocks slots :=
        fun other hother => hperm.mem_iff.mpr (List.mem_cons_of_mem slot hother)
      have hslot := hbelow slot (hperm.mem_iff.mpr List.mem_cons_self)
      have hjoinedStop : joined.stop ≠ next := by
        rcases hjoins with ⟨-, -, heq⟩ | ⟨-, -, heq⟩
        · exact heq ▸ hstop
        · exact heq ▸ hslot.ne
      have hapart : slot ≠ third := by
        rintro rfl
        simp only [Joins, HeapBlock.Apart, HeapBlock.stop] at hjoins hmeets
        omega
      have hthird' : third ∈ freeBlocks (slots.set k fbEmpty) := by
        rcases List.mem_cons.mp (hperm.mem_iff.mp hthird) with heq | hmem
        · exact absurd heq.symm hapart
        · exact hmem
      rw [Nat.zero_add] at hjoin ⊢
      exact ih ⟨third, hthird', hjoins.not_apart hmeets⟩ hjoinedStop
        (fun other hother => hbelow other (hsub other hother)) (by omega)

end ModernC.Alloc

/-! ## Both releases -/

namespace ModernC.Alloc

open Framework

/-- A heap, with its free blocks as each release holds them. -/
structure ReleaseState where
  heap : Heap
  slots : List HeapBlock
  tidy : Tidy heap.free heap.next
  next_lt : heap.next < 2 ^ 64
  slots_length : slots.length = heapFreeSlots
  slots_perm : (freeBlocks slots).Perm heap.free

/-- Both releases trap, or they leave the same frontier and the same free blocks, which are tidy. -/
def ReleasesAgree (st : ReleaseState) (start len : ℕ) : Prop :=
  match heapRelease st.heap start len, heapReleaseLegacy st.slots st.heap.next start len with
  | none, none => True
  | some h, some (slots, next) =>
    next = h.next ∧ (freeBlocks slots).Perm h.free ∧ Tidy h.free h.next
  | _, _ => False

variable {st : ReleaseState} {block : HeapBlock}

lemma ReleaseState.joining (hpos : 0 < block.len) (hle : block.stop ≤ st.heap.next)
    (hapart : ∀ other ∈ st.heap.free, block.Apart other) :
    Joining st.heap.free st.heap.next block st.heap.free block := by
  refine .refl st.tidy ?_ hpos hle hapart
  rw [← st.slots_perm.length_eq, ← st.slots_length]
  exact List.length_filter_le ..

lemma heapReleaseLegacy_block {slots : List HeapBlock} {next : ℕ} (hpos : 0 < block.len) :
    heapReleaseLegacy slots next block.start block.len =
      legacyLoop (slots.length + 1) slots next block := by
  have hblock : mkBlock block.start block.len = some block := mkBlock_eq_some.mpr ⟨rfl, rfl⟩
  rw [heapReleaseLegacy, if_neg (Nat.pos_iff_ne_zero.mp hpos), hblock]
  rfl

lemma ReleaseState.agree_of_apart (hpos : 0 < block.len) (hle : block.stop ≤ st.heap.next)
    (hapart : ∀ other ∈ st.heap.free, block.Apart other) :
    ReleasesAgree st block.start block.len := by
  have hjoining := st.joining hpos hle hapart
  obtain ⟨h', hcompact, hreleased⟩ := hjoining.heapRelease
  have hlength : (freeBlocks st.slots).length ≤ st.slots.length := List.length_filter_le ..
  obtain ⟨slots', next', hlegacy, hreleased'⟩ :=
    (hjoining.perm st.slots_perm.symm).legacyLoop st.slots_length (Nat.lt_succ_of_le hlength)
  obtain ⟨hnext, hperm⟩ := hreleased'.unique hreleased
  rw [ReleasesAgree, hcompact, heapReleaseLegacy_block hpos, hlegacy]
  exact ⟨hnext, hperm, hreleased.tidy⟩

lemma ReleaseState.heapRelease_eq_none (hpos : 0 < block.len)
    (hmeets : ∃ other ∈ st.heap.free, ¬block.Apart other) :
    heapRelease st.heap block.start block.len = none := by
  have hblock : mkBlock block.start block.len = some block := mkBlock_eq_some.mpr ⟨rfl, rfl⟩
  rw [heapRelease, if_neg (Nat.pos_iff_ne_zero.mp hpos), hblock]
  simp only [Option.bind_eq_bind, Option.bind_some]
  have hnone : coalesce st.heap.free.length 0 st.heap.free block = none :=
    coalesce_eq_none (by rwa [List.drop_zero]) (Nat.le_refl _)
  rw [hnone]
  rfl

/-- **The releases agree** unless a block is released that ends at the frontier and meets a free
block: the legacy release looks at the frontier before it looks for such a block. -/
theorem ReleaseState.releasesAgree_iff (st : ReleaseState) {start len : ℕ}
    (hle : start + len ≤ st.heap.next) :
    ReleasesAgree st start len ↔
      (len ≠ 0 → start + len = st.heap.next → ∀ other ∈ st.heap.free, other.stop ≤ start) := by
  by_cases hlen : len = 0
  · refine iff_of_true ?_ fun hne => absurd hlen hne
    rw [ReleasesAgree, heapRelease, if_pos hlen, heapReleaseLegacy, if_pos hlen]
    exact ⟨rfl, st.slots_perm, st.tidy⟩
  · obtain ⟨block, rfl, rfl⟩ : ∃ block : HeapBlock, block.start = start ∧ block.len = len :=
      ⟨⟨start, len, lt_of_le_of_lt hle st.next_lt⟩, rfl, rfl⟩
    have hpos : 0 < block.len := Nat.pos_of_ne_zero hlen
    change block.stop ≤ st.heap.next at hle
    change _ ↔ (_ → block.stop = st.heap.next → _)
    by_cases hapart : ∀ other ∈ st.heap.free, block.Apart other
    · refine iff_of_true (st.agree_of_apart hpos hle hapart) fun _ hstop other hother => ?_
      have hbelow := st.tidy.below other hother
      rcases hapart other hother with hbehind | hbefore
      · have hother' : other.start ≤ other.stop := Nat.le_add_right ..
        omega
      · exact hbefore
    · simp only [not_forall] at hapart
      obtain ⟨other, hother, hmeets⟩ := hapart
      rw [ReleasesAgree, st.heapRelease_eq_none hpos ⟨other, hother, hmeets⟩,
        heapReleaseLegacy_block hpos]
      by_cases hstop : block.stop = st.heap.next
      · rw [legacyLoop, if_pos hstop]
        refine iff_of_false id fun hnot => hmeets (.inr ?_)
        exact hnot hlen hstop other hother
      · have hlength : (freeBlocks st.slots).length ≤ st.slots.length := List.length_filter_le ..
        have hbelow : ∀ slot ∈ freeBlocks st.slots, slot.stop < st.heap.next := fun slot hslot =>
          st.tidy.below slot (st.slots_perm.mem_iff.mp hslot)
        rw [legacyLoop_eq_none ⟨other, st.slots_perm.mem_iff.mpr hother, hmeets⟩ hstop hbelow
          (Nat.lt_succ_of_le hlength)]
        exact iff_of_true trivial fun _ heq => absurd heq hstop

/-- One free block of ten bytes, ten bytes in front of the frontier. -/
def freeTen : HeapBlock := ⟨10, 10, by decide⟩

/-- A heap with the free block `freeTen` and the frontier at 30. -/
def tenFree : ReleaseState where
  heap := { heapInitUntracked ⟨0, 100⟩ with next := 30, free := [freeTen] }
  slots := freeTen :: List.replicate 63 fbEmpty
  tidy := ⟨by decide, List.pairwise_singleton .., List.pairwise_singleton .., by decide⟩
  next_lt := by decide
  slots_length := rfl
  slots_perm := .refl _

/-- A block is released in front of a free block and the frontier. -/
theorem releasesAgree_tenFree : 5 + 5 ≤ tenFree.heap.next ∧ ReleasesAgree tenFree 5 5 :=
  ⟨by decide, (tenFree.releasesAgree_iff (by decide)).mpr fun _ heq => absurd heq (by decide)⟩

/-- Bytes that are free already are released with the ones up to the frontier. -/
theorem not_releasesAgree_tenFree : 15 + 15 ≤ tenFree.heap.next ∧
    heapRelease tenFree.heap 15 15 = none ∧
      heapReleaseLegacy tenFree.slots tenFree.heap.next 15 15 = some (tenFree.slots, 15) ∧
        ¬ReleasesAgree tenFree 15 15 := by
  have hcompact : heapRelease tenFree.heap 15 15 = none := rfl
  have hlegacy : heapReleaseLegacy tenFree.slots tenFree.heap.next 15 15 =
      some (tenFree.slots, 15) := rfl
  refine ⟨by decide, hcompact, hlegacy, ?_⟩
  rw [ReleasesAgree, hcompact, hlegacy]
  exact id

end ModernC.Alloc
