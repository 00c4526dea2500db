import ModernC.Alloc.Ownership

/-!
# Taking blocks from a heap

A request is served from the first free block with room for it, and else at the frontier.  What is
left of the free block, and what alignment leaves out at the frontier, is given back.
-/

namespace ModernC.Alloc

open Framework

variable {h h' : Heap} {owned : List HeapBlock} {block : HeapBlock} {size align : ℕ}

/-! ## The first fit -/

/-- A place in a free block with room for a request. -/
structure Fit.Serves (fit : Fit) (size align : ℕ) : Prop where
  isPowerOfTwo : align.isPowerOfTwo
  aligned : align ∣ fit.astart
  above : fit.block.start ≤ fit.astart
  aend_eq : fit.aend = fit.astart + size
  below : fit.aend ≤ fit.block.stop

variable {fit : Fit}

lemma firstFit_cons {free : List HeapBlock} {i : ℕ}
    (h : firstFit size align (block :: free) i = some (some fit)) :
    (fit.Serves size align ∧ fit.block = block ∧ fit.index = i) ∨
      firstFit size align free (i + 1) = some (some fit) := by
  rw [firstFit] at h
  split at h
  · obtain ⟨astart, hastart, h⟩ := Option.bind_eq_some_iff.mp h
    obtain ⟨hpower, hdvd, hle, -⟩ := paAlignUp_spec hastart
    split at h
    · obtain ⟨aend, haend, h⟩ := Option.bind_eq_some_iff.mp h
      obtain ⟨-, rfl⟩ := paOffset_eq_some.mp haend
      split at h
      · next hroom =>
        obtain rfl := Option.some.inj (Option.some.inj h)
        exact .inl ⟨⟨hpower, hdvd, hle, rfl, hroom⟩, rfl, rfl⟩
      · exact .inr h
    · exact .inr h
  · exact .inr h

lemma firstFit_spec {free : List HeapBlock} {i : ℕ}
    (h : firstFit size align free i = some (some fit)) :
    fit.Serves size align ∧
      ∃ front back, free = front ++ fit.block :: back ∧ fit.index = i + front.length := by
  induction free generalizing i with
  | nil => exact absurd h nofun
  | cons block free ih =>
    rcases firstFit_cons h with ⟨hserves, rfl, rfl⟩ | hlater
    · exact ⟨hserves, [], free, rfl, rfl⟩
    · obtain ⟨hserves, front, back, rfl, hindex⟩ := ih hlater
      refine ⟨hserves, block :: front, back, rfl, ?_⟩
      rw [hindex, List.length_cons]
      omega

/-! ## A request -/

lemma exists_block {start stop : ℕ} (hlt : start < stop) (hbound : stop < 2 ^ 64) :
    ∃ block : HeapBlock, block.start = start ∧ block.stop = stop ∧ 0 < block.len := by
  refine ⟨⟨start, stop - start, by omega⟩, rfl, ?_, Nat.sub_pos_of_lt hlt⟩
  simp only [HeapBlock.stop]
  omega

/-- A heap after a request that it served at an address. -/
structure Heap.Gives (h : Heap) (owned : List HeapBlock) (p size align : ℕ) (h' : Heap) :
    Prop where
  owns : h'.Owns (span p (p + size) ++ owned)
  frame : h.Frame h'
  isPowerOfTwo : align.isPowerOfTwo
  aligned : align ∣ p
  stop_le : p + size ≤ h'.range.last
  above : h'.range.start ≤ p

/-- **A request served from a free block.** -/
lemma Heap.Owns.gives_fit (hown : h.Owns owned) (hserves : fit.Serves size align)
    {front back : List HeapBlock} (hfree : h.free = front ++ fit.block :: back)
    (hindex : fit.index = front.length) :
    ∃ h₁ h₂, Alloc.releaseGap { h with free := swapRemove h.free fit.index } fit.block.start
        fit.astart = some h₁ ∧ Alloc.releaseGap h₁ fit.aend fit.block.stop = some h₂ ∧
      h.Gives owned fit.astart size align h₂ := by
  obtain ⟨hpower, hdvd, habove, haend, hbelow⟩ := hserves
  have hmem : fit.block ∈ h.free := by
    rw [hfree]
    simp
  have hstart := hown.above fit.block (List.mem_append_left _ hmem)
  have hstop := hown.free_lt fit.block hmem
  have hnext := hown.next_le
  have hlast := hown.last_lt
  obtain ⟨back', hswap, hperm⟩ := swapRemove_append front back fit.block
  have hblock : h.free.Perm (fit.block :: swapRemove h.free fit.index) := by
    rw [hindex, hfree, hswap]
    exact List.perm_middle.trans ((hperm.symm.append_left front).cons fit.block)
  have hparts := (hown.take hblock).carve habove (haend ▸ Nat.le_add_right _ _) hbelow
  rw [List.append_assoc, List.append_assoc] at hparts
  obtain ⟨h₁, hgap, howns, hframe⟩ := hparts.releaseGap (by omega)
  have hrest : h₁.Owns (span fit.aend fit.block.stop ++ (span fit.astart fit.aend ++ owned)) := by
    refine howns.perm (List.Perm.refl _) ?_
    rw [← List.append_assoc, ← List.append_assoc]
    exact List.perm_append_comm.append_right owned
  obtain ⟨h₂, hgap', howns', hframe'⟩ := hrest.releaseGap (by omega)
  have hrange : h₂.range = h.range := (hframe.trans hframe').range
  refine ⟨h₁, h₂, hgap, hgap', haend ▸ howns', ?_, hpower, hdvd, ?_, ?_⟩
  · exact ⟨hrange, (hframe.trans hframe').live, (hframe.trans hframe').trackLive⟩
  · rw [hrange]
    omega
  · rw [hrange]
    omega

/-- **A request served at the frontier.** -/
lemma Heap.Owns.gives_frontier (hown : h.Owns owned) {start : ℕ}
    (hstart : paAlignUp h.next align = some start) (hroom : start + size ≤ h.range.last) :
    ∃ h', Alloc.releaseGap { h with next := start + size } h.next start = some h' ∧
      h.Gives owned start size align h' := by
  obtain ⟨hpower, hdvd, habove, -⟩ := paAlignUp_spec hstart
  have hfirst := hown.start_le
  have hlast := hown.last_lt
  have hparts : ({ h with next := start + size } : Heap).Owns
      (span h.next start ++ (span start (start + size) ++ owned)) := by
    by_cases hsame : h.next = start + size
    · have hzero : start = h.next := by omega
      rw [hzero, span_self, ← hzero, ← hsame, hzero, span_self]
      exact hown
    · obtain ⟨new, hfrom, hstop, hpos⟩ := exists_block (show h.next < start + size by omega)
        (by omega)
      have hbump := hown.bump hfrom hpos (hstop.trans_le hroom)
      have hcarve := hbump.carve (hfrom.trans_le habove) (Nat.le_add_right start size) hstop.ge
      rw [hfrom, hstop, span_self, List.append_nil, List.append_assoc] at hcarve
      exact hcarve
  obtain ⟨h', hgap, howns, hframe⟩ := hparts.releaseGap (by omega)
  have hrange : h'.range = h.range := hframe.range
  refine ⟨h', hgap, howns, ⟨hframe.range, hframe.live, hframe.trackLive⟩, hpower, hdvd, ?_, ?_⟩
  · rw [hrange]
    exact hroom
  · rw [hrange]
    omega

/-- **A request** is refused without a change, or it is served. -/
theorem Heap.Owns.tryAllocRaw (hown : h.Owns owned) {answer : Except HeapError ℕ}
    (heq : heapTryAllocRaw h size align = some (answer, h')) :
    (answer = .error .exhausted ∧ h' = h) ∨
      ∃ p, answer = .ok p ∧ h.Gives owned p size align h' := by
  obtain ⟨fit?, hfit, heq⟩ := Option.bind_eq_some_iff.mp heq
  rcases fit? with _ | fit
  · obtain ⟨start, hstart, heq⟩ := Option.bind_eq_some_iff.mp heq
    obtain ⟨next, hnext, heq⟩ := Option.bind_eq_some_iff.mp heq
    obtain ⟨-, rfl⟩ := paOffset_eq_some.mp hnext
    split at heq
    · obtain ⟨rfl, rfl⟩ := Prod.mk.inj (Option.some.inj heq)
      exact .inl ⟨rfl, rfl⟩
    · next hroom =>
      obtain ⟨h₁, hgap, hgives⟩ := hown.gives_frontier hstart (Nat.le_of_not_lt hroom)
      obtain ⟨h₂, hgap', heq⟩ := Option.bind_eq_some_iff.mp heq
      obtain rfl := Option.some.inj (hgap.symm.trans hgap')
      obtain ⟨rfl, rfl⟩ := Prod.mk.inj (Option.some.inj heq)
      exact .inr ⟨start, rfl, hgives⟩
  · obtain ⟨hserves, front, back, hfree, hindex⟩ := firstFit_spec hfit
    obtain ⟨h₁, h₂, hgap₁, hgap₂, hgives⟩ :=
      hown.gives_fit hserves hfree (hindex.trans (Nat.zero_add _))
    obtain ⟨h₁', hgap₁', heq⟩ := Option.bind_eq_some_iff.mp heq
    obtain rfl := Option.some.inj (hgap₁.symm.trans hgap₁')
    obtain ⟨h₂', hgap₂', heq⟩ := Option.bind_eq_some_iff.mp heq
    obtain rfl := Option.some.inj (hgap₂.symm.trans hgap₂')
    obtain ⟨rfl, rfl⟩ := Prod.mk.inj (Option.some.inj heq)
    exact .inr ⟨fit.astart, rfl, hgives⟩

/-! ## Growing -/

/-- A block that ends at the frontier is made longer. -/
lemma Heap.Owns.grow {grown : HeapBlock} (hown : h.Owns (block :: owned))
    (hstart : grown.start = block.start) (hstop : block.stop = h.next)
    (hlt : block.stop < grown.stop) (hlast : grown.stop ≤ h.range.last) :
    ({ h with next := grown.stop } : Heap).Owns (grown :: owned) := by
  have hbound : grown.stop < 2 ^ 64 := grown.stop_lt
  obtain ⟨new, hfrom, hto, hpos⟩ := exists_block (hstop ▸ hlt) hbound
  have hbump := hown.bump hfrom hpos (hto.trans_le hlast)
  have hmiddle := hbump.perm (List.Perm.refl _) (List.Perm.swap new block owned)
  rw [← hto]
  refine hmiddle.join (hstop.trans hfrom.symm) hstart ?_
  simp only [HeapBlock.stop] at hstop hto
  omega

end ModernC.Alloc

/-!
## When a request traps

The search for a place adds addresses and lengths with checks.  A request traps exactly where one of
these sums leaves the address space.
-/

namespace ModernC.Alloc

open Framework

variable {h : Heap} {owned : List HeapBlock} {block : HeapBlock} {free : List HeapBlock}
  {size align a i : ℕ}

/-- The smallest aligned address from `a` on. -/
def alignedUp (a align : ℕ) : ℕ := a + (align - 1) - (a + (align - 1)) % align

/-- There is room in a block behind its aligned start. -/
def HeapBlock.Fits (block : HeapBlock) (size align : ℕ) : Prop :=
  alignedUp block.start align + size ≤ block.stop

instance : Decidable (block.Fits size align) := inferInstanceAs (Decidable (_ ≤ _))

/-- The sums that the search computes at a block without room are addresses. -/
def HeapBlock.Clear (block : HeapBlock) (size align : ℕ) : Prop :=
  block.start + (align - 1) < 2 ^ 64 ∧
    (alignedUp block.start align ≤ block.stop → alignedUp block.start align + size < 2 ^ 64)

/-- All sums that the search computes are addresses: at the free blocks before the first one with
room, and at the frontier if there is none. -/
def Heap.Clear (h : Heap) (size align : ℕ) : Prop :=
  (∀ block ∈ h.free.takeWhile fun block => ¬block.Fits size align, block.Clear size align) ∧
    ((∀ block ∈ h.free, ¬block.Fits size align) →
      h.next + (align - 1) < 2 ^ 64 ∧ alignedUp h.next align + size < 2 ^ 64)

/-- An alignment that `paAlignUp` takes. -/
structure IsAlignment (align : ℕ) : Prop where
  ne_zero : align ≠ 0
  and_eq_zero : align &&& (align - 1) = 0

lemma paAlignUp_of_lt (halign : IsAlignment align) (hlt : a + (align - 1) < 2 ^ 64) :
    paAlignUp a align = some (alignedUp a align) :=
  paAlignUp_eq_some.mpr ⟨halign.ne_zero, halign.and_eq_zero, hlt, rfl⟩

lemma paAlignUp_of_le (hle : 2 ^ 64 ≤ a + (align - 1)) : paAlignUp a align = none := by
  rw [Option.eq_none_iff_forall_ne_some]
  intro b hb
  have hlt := (paAlignUp_eq_some.mp hb).2.2.1
  omega

lemma lt_alignedUp_add (halign : IsAlignment align) (a : ℕ) :
    a + (align - 1) < alignedUp a align + align := by
  have hmod := Nat.mod_lt (a + (align - 1)) (Nat.pos_of_ne_zero halign.ne_zero)
  rw [alignedUp]
  omega

/-! ## The search -/

lemma firstFit_of_fits (halign : IsAlignment align) (hle : align ≤ size) (hpos : 0 < block.len)
    (hfits : block.Fits size align) :
    ∃ fit, firstFit size align (block :: free) i = some (some fit) := by
  have hbound : block.stop < 2 ^ 64 := block.stop_lt
  have hstart := lt_alignedUp_add halign block.start
  have hroom : alignedUp block.start align + size ≤ block.stop := hfits
  have hoffset : paOffset (alignedUp block.start align) size =
      some (alignedUp block.start align + size) := paOffset_eq_some.mpr ⟨by omega, rfl⟩
  rw [firstFit, if_pos (Nat.pos_iff_ne_zero.mp hpos), paAlignUp_of_lt halign (by omega)]
  simp only [Option.bind_eq_bind, Option.bind_some]
  rw [if_pos (by omega), hoffset]
  exact ⟨_, if_pos hroom⟩

lemma firstFit_of_not_fits (halign : IsAlignment align) (hpos : 0 < block.len)
    (hfits : ¬block.Fits size align) (hclear : block.Clear size align) :
    firstFit size align (block :: free) i = firstFit size align free (i + 1) := by
  obtain ⟨hlt, hsum⟩ := hclear
  rw [firstFit, if_pos (Nat.pos_iff_ne_zero.mp hpos), paAlignUp_of_lt halign hlt]
  simp only [Option.bind_eq_bind, Option.bind_some]
  by_cases hstart : alignedUp block.start align ≤ block.stop
  · have hoffset : paOffset (alignedUp block.start align) size =
        some (alignedUp block.start align + size) := paOffset_eq_some.mpr ⟨hsum hstart, rfl⟩
    rw [if_pos hstart, hoffset]
    exact if_neg hfits
  · rw [if_neg hstart]

lemma firstFit_of_not_clear (halign : IsAlignment align) (hpos : 0 < block.len)
    (hclear : ¬block.Clear size align) : firstFit size align (block :: free) i = none := by
  rw [firstFit, if_pos (Nat.pos_iff_ne_zero.mp hpos)]
  by_cases hlt : block.start + (align - 1) < 2 ^ 64
  · have hsum : alignedUp block.start align ≤ block.stop ∧
        2 ^ 64 ≤ alignedUp block.start align + size := by
      by_contra hnot
      exact hclear ⟨hlt, fun hle => by omega⟩
    have hoffset : paOffset (alignedUp block.start align) size = none :=
      checkedAdd_eq_none.mpr hsum.2
    rw [paAlignUp_of_lt halign hlt]
    simp only [Option.bind_eq_bind, Option.bind_some]
    rw [if_pos hsum.1, hoffset]
    rfl
  · rw [paAlignUp_of_le (Nat.le_of_not_lt hlt)]
    rfl

/-- **The search ends** exactly if the blocks it visits are clear. -/
lemma firstFit_cases (halign : IsAlignment align) (hle : align ≤ size)
    (hpos : ∀ block ∈ free, 0 < block.len) :
    (firstFit size align free i = none ∧
      ∃ block ∈ free.takeWhile fun block => ¬block.Fits size align, ¬block.Clear size align) ∨
    ((∀ block ∈ free.takeWhile fun block => ¬block.Fits size align, block.Clear size align) ∧
      ((∃ fit, firstFit size align free i = some (some fit) ∧
        ∃ block ∈ free, block.Fits size align) ∨
      (firstFit size align free i = some none ∧ ∀ block ∈ free, ¬block.Fits size align))) := by
  induction free generalizing i with
  | nil => exact .inr ⟨nofun, .inr ⟨rfl, nofun⟩⟩
  | cons block free ih =>
    have hfirst := hpos block List.mem_cons_self
    by_cases hfits : block.Fits size align
    · obtain ⟨fit, hfit⟩ : ∃ fit, firstFit size align (block :: free) i = some (some fit) :=
        firstFit_of_fits halign hle hfirst hfits
      rw [List.takeWhile_cons_of_neg (by simpa using hfits)]
      exact .inr ⟨nofun, .inl ⟨fit, hfit, block, List.mem_cons_self, hfits⟩⟩
    · rw [List.takeWhile_cons_of_pos (by simpa using hfits)]
      by_cases hclear : block.Clear size align
      · rw [firstFit_of_not_fits halign hfirst hfits hclear]
        rcases ih (fun other hother => hpos other (List.mem_cons_of_mem block hother)) with
          ⟨hnone, other, hother, hnot⟩ | ⟨hall, ⟨fit, hfit, other, hother, hroom⟩ | ⟨hnone, hfull⟩⟩
        · exact .inl ⟨hnone, other, List.mem_cons_of_mem block hother, hnot⟩
        · refine .inr ⟨List.forall_mem_cons.mpr ⟨hclear, hall⟩, .inl ⟨fit, hfit, other, ?_, hroom⟩⟩
          exact List.mem_cons_of_mem block hother
        · exact .inr ⟨List.forall_mem_cons.mpr ⟨hclear, hall⟩, .inr ⟨hnone,
            List.forall_mem_cons.mpr ⟨hfits, hfull⟩⟩⟩
      · exact .inl ⟨firstFit_of_not_clear halign hfirst hclear, block, List.mem_cons_self, hclear⟩

/-- Some place is long enough: a free block, or what is behind the frontier. -/
def Heap.HasRoom (h : Heap) (size align : ℕ) : Prop :=
  (∃ block ∈ h.free, block.Fits size align) ∨ alignedUp h.next align + size ≤ h.range.last

/-- **What becomes of a request:** it traps if a sum of the search is not an address, and it is
refused if there is no room. -/
theorem Heap.Owns.tryAllocRaw_cases (hown : h.Owns owned) (halign : IsAlignment align)
    (hle : align ≤ size) :
    (¬h.Clear size align ∧ heapTryAllocRaw h size align = none) ∨
    (h.Clear size align ∧ h.HasRoom size align ∧
      ∃ p h', heapTryAllocRaw h size align = some (.ok p, h')) ∨
    (¬h.HasRoom size align ∧ heapTryAllocRaw h size align = some (.error .exhausted, h)) := by
  have hpos : ∀ block ∈ h.free, 0 < block.len := fun block hblock =>
    hown.len_pos block (List.mem_append_left _ hblock)
  rw [heapTryAllocRaw]
  rcases firstFit_cases (i := 0) halign hle hpos with
    ⟨hnone, block, hblock, hclear⟩ | ⟨hall, ⟨fit, hfit, block, hblock, hroom⟩ | ⟨hnone, hfull⟩⟩
  · rw [hnone]
    exact .inl ⟨fun h => hclear (h.1 block hblock), rfl⟩
  · obtain ⟨hserves, front, back, hfree, hindex⟩ := firstFit_spec hfit
    obtain ⟨h₁, h₂, hgap₁, hgap₂, -⟩ :=
      hown.gives_fit hserves hfree (hindex.trans (Nat.zero_add _))
    rw [hfit]
    simp only [Option.bind_eq_bind, Option.bind_some, hgap₁, hgap₂]
    exact .inr (.inl ⟨⟨hall, fun hfull => absurd hroom (hfull block hblock)⟩,
      .inl ⟨block, hblock, hroom⟩, _, _, rfl⟩)
  · rw [hnone]
    simp only [Option.bind_eq_bind, Option.bind_some]
    by_cases hlt : h.next + (align - 1) < 2 ^ 64
    · by_cases hsum : alignedUp h.next align + size < 2 ^ 64
      · have hoffset : paOffset (alignedUp h.next align) size =
            some (alignedUp h.next align + size) := paOffset_eq_some.mpr ⟨hsum, rfl⟩
        have hstart := paAlignUp_of_lt halign hlt
        rw [hstart]
        simp only [Option.bind_some, hoffset]
        by_cases hroom : h.range.last < alignedUp h.next align + size
        · rw [if_pos hroom]
          refine .inr (.inr ⟨?_, rfl⟩)
          rintro (⟨block, hblock, hfits⟩ | hle)
          · exact hfull block hblock hfits
          · exact Nat.not_le_of_lt hroom hle
        · obtain ⟨h', hgap, -⟩ := hown.gives_frontier hstart (Nat.le_of_not_lt hroom)
          rw [if_neg hroom, hgap]
          exact .inr (.inl ⟨⟨hall, fun _ => ⟨hlt, hsum⟩⟩, .inr (Nat.le_of_not_lt hroom), _, _, rfl⟩)
      · have hoffset : paOffset (alignedUp h.next align) size = none :=
          checkedAdd_eq_none.mpr (Nat.le_of_not_lt hsum)
        rw [paAlignUp_of_lt halign hlt]
        simp only [Option.bind_some, hoffset]
        exact .inl ⟨fun h => hsum (h.2 hfull).2, rfl⟩
    · rw [paAlignUp_of_le (Nat.le_of_not_lt hlt)]
      exact .inl ⟨fun h => hlt (h.2 hfull).1, rfl⟩

end ModernC.Alloc
