import ModernC.Libc.MallocSafety

/-!
# Calls that trap

A call of the allocator traps exactly where a sum that the search for a place computes leaves the
address space. `answers_iff` says which requests are answered after a run; it assumes that the
arena does not reach the end of the address space and that blocks are given back that are live.
-/

namespace ModernC.Libc

open Framework Alloc

variable {base : ℕ} {s s' : LibcState} {live : List Payload} {old : Payload} {size answer : ℕ}

/-! ## Calls that answer -/

lemma isAlignment_header : IsAlignment header := ⟨by decide, by decide⟩

/-- The sums that the search for a block of a payload computes are addresses. -/
def LibcState.Clear (base : ℕ) (s : LibcState) (size : ℕ) : Prop :=
  (s.ready base).heap.Clear (size + header) header

/-- A request leaves the header room. -/
lemma lt_of_clear {h : Heap} (hclear : h.Clear (size + header) header) :
    size + header < 2 ^ 64 := by
  by_cases hfull : ∀ block ∈ h.free, ¬block.Fits (size + header) header
  · have hsum := (hclear.2 hfull).2
    omega
  · push Not at hfull
    obtain ⟨block, -, hfits⟩ := hfull
    have hbound : block.stop < 2 ^ 64 := block.stop_lt
    have hroom : alignedUp block.start header + (size + header) ≤ block.stop := hfits
    omega

/-- A place that is long enough for a payload is found. -/
def LibcState.Serves (base : ℕ) (s : LibcState) (size : ℕ) : Prop :=
  s.Clear base size ∧ (s.ready base).heap.HasRoom (size + header) header

lemma asPtr_eq_some {call : Option (ℕ × LibcState)} :
    asPtr call = some (answer, s') ↔ answer ≠ 0 ∧ call = some (answer, s') := by
  rcases call with _ | ⟨addr, s₁⟩
  · simp [asPtr]
  · rw [asPtr]
    simp only [Option.bind_eq_bind, Option.bind_some, Option.bind_eq_some_iff, nonNull_eq_some]
    constructor
    · rintro ⟨p, ⟨hne, rfl⟩, heq⟩
      obtain ⟨rfl, rfl⟩ := Prod.mk.inj (Option.some.inj heq)
      exact ⟨hne, rfl⟩
    · rintro ⟨hne, heq⟩
      obtain ⟨rfl, rfl⟩ := Prod.mk.inj (Option.some.inj heq)
      exact ⟨addr, ⟨hne, rfl⟩, rfl⟩

/-- A call that an export makes of a call that answers zero traps. -/
lemma asPtr_zero (s : LibcState) : asPtr (some (0, s)) = none := rfl

lemma asPtr_isSome (hne : answer ≠ 0) (s : LibcState) : (asPtr (some (answer, s))).isSome := by
  rw [asPtr_eq_some.mpr ⟨hne, rfl⟩]
  rfl

/-- **`malloc` answers** exactly if it finds a place.  Of no bytes it makes a null pointer. -/
lemma LibcState.Tracks.malloc_isSome (hbase : base + arenaBytes < 2 ^ 64)
    (htracks : s.Tracks base live) :
    (Libc.malloc base s size).isSome ↔ size ≠ 0 ∧ s.Serves base size := by
  have hown := htracks.holds.owns
  have hraw := heapTryAlloc_of_untracked hown htracks.untracked (size + header) header
  rw [Libc.malloc, mallocAddr, ensureInit_eq hbase]
  simp only [Option.bind_eq_bind, Option.bind_some]
  by_cases hsize : size = 0
  · rw [if_pos hsize]
    exact iff_of_false (by rw [pure, Applicative.toPure]; exact Bool.false_ne_true) fun h => h.1 hsize
  rw [if_neg hsize, and_iff_right hsize]
  by_cases hlt : size + header < 2 ^ 64
  · rw [checkedAdd_eq_some.mpr ⟨hlt, rfl⟩]
    simp only [Option.bind_some, hraw]
    rcases hown.tryAllocRaw_cases isAlignment_header (Nat.le_add_left header size) with
      ⟨hclear, htry⟩ | ⟨hclear, hroom, block, h', htry⟩ | ⟨hroom, htry⟩
    · rw [htry]
      exact iff_of_false Bool.false_ne_true fun h => hclear h.1
    · obtain ⟨p, hp, hgives⟩ := (hown.tryAllocRaw htry).resolve_left fun h => absurd h.1 (by simp)
      obtain rfl := Except.ok.inj hp
      have hstop := hgives.stop_le
      have hlast := hgives.owns.last_lt
      have huser : paOffset block header = some (block + header) :=
        paOffset_eq_some.mpr ⟨by omega, rfl⟩
      rw [htry]
      simp only [Option.bind_some, huser]
      exact iff_of_true (asPtr_isSome (by simp [header]) _) ⟨hclear, hroom⟩
    · rw [htry]
      exact iff_of_false Bool.false_ne_true fun h => hroom h.2
  · rw [checkedAdd_eq_none.mpr (Nat.le_of_not_lt hlt)]
    exact iff_of_false Bool.false_ne_true fun h => hlt (lt_of_clear h.1)

/-- A payload is resized: its block is long enough, or it can be made longer where it is, or a place
for a new block is found. -/
def LibcState.Resizes (base : ℕ) (s : LibcState) (old : Payload) (size : ℕ) : Prop :=
  size + header ≤ old.total ∨
    (old.block.stop = s.heap.next ∧ old.block.start + (size + header) ≤ s.heap.range.last) ∨
    (s.Serves base size ∧
      (old.block.stop = s.heap.next → old.block.start + (size + header) < 2 ^ 64))

/-- Moving a payload fails exactly where allocating the new block does. -/
lemma LibcState.Tracks.moveAddr_isSome (hbase : base + arenaBytes < 2 ^ 64)
    (htracks : s.Tracks base live) (hold : old ∈ live) (hlt : old.total < size + header) :
    (asPtr (moveAddr base s old.addr (old.total - header) size)).isSome ↔
      s.Serves base size := by
  have hsize : size ≠ 0 := by
    have hle := (htracks.sound old hold).size_le
    have hpos := (htracks.sound old hold).size_pos
    omega
  have hmalloc : (Libc.malloc base s size).isSome ↔ s.Serves base size :=
    (htracks.malloc_isSome hbase).trans (and_iff_right hsize)
  rw [← hmalloc, moveAddr, Libc.malloc]
  rcases hcall : mallocAddr base s size with _ | ⟨addr, s₁⟩
  · rfl
  · rcases htracks.malloc hbase hcall with ⟨rfl, rfl⟩ | hgranted
    · rfl
    · obtain ⟨s₂, hreplace, -⟩ := htracks.replace hbase hold hlt hgranted
      simp only [Option.bind_eq_bind, Option.bind_some, if_neg hgranted.ne_zero, hreplace]
      exact iff_of_true (asPtr_isSome hgranted.ne_zero _) (asPtr_isSome hgranted.ne_zero _)

/-- What trying to make a live block longer does. -/
lemma LibcState.Tracks.growInPlace_cases (hbase : base + arenaBytes < 2 ^ 64)
    (htracks : s.Tracks base live) (hold : old ∈ live) {newTotal : ℕ} (hlt : old.total < newTotal) :
    (old.block.stop = s.heap.next ∧ old.block.start + newTotal ≤ s.heap.range.last ∧
      ∃ h, growInPlace base s old.addr (old.addr - header) old.total newTotal = some (true, h)) ∨
    (¬(old.block.stop = s.heap.next ∧ old.block.start + newTotal ≤ s.heap.range.last) ∧
      (old.block.stop = s.heap.next → old.block.start + newTotal < 2 ^ 64) ∧
      growInPlace base s old.addr (old.addr - header) old.total newTotal =
        some (false, s.heap)) ∨
    (old.block.stop = s.heap.next ∧ 2 ^ 64 ≤ old.block.start + newTotal ∧
      growInPlace base s old.addr (old.addr - header) old.total newTotal = none) := by
  have hinside := htracks.inside hold
  have huntracked := htracks.untracked
  rw [ready_of_inited (htracks.inited hold)] at huntracked
  have hstop : paOffset (old.addr - header) old.total = some old.block.stop :=
    paOffset_eq_some.mpr ⟨by omega, rfl⟩
  rw [growInPlace, htracks.inArena hbase hold]
  simp only [Option.bind_eq_bind, Option.bind_some, if_true]
  rw [heapTryGrowInPlace, if_neg (Nat.not_le_of_lt hlt), hstop]
  simp only [Option.bind_eq_bind, Option.bind_some]
  by_cases hnext : old.block.stop = s.heap.next
  · rw [if_neg (not_not.mpr hnext)]
    by_cases hsum : old.block.start + newTotal < 2 ^ 64
    · have hnewStop : paOffset (old.addr - header) newTotal = some (old.block.start + newTotal) :=
        paOffset_eq_some.mpr ⟨hsum, rfl⟩
      rw [hnewStop]
      simp only [Option.bind_some]
      by_cases hlast : old.block.start + newTotal ≤ s.heap.range.last
      · have hresize : heapResizeLive s.heap (old.addr - header) old.total newTotal =
            some s.heap := by
          rw [heapResizeLive, huntracked]
          rfl
        rw [if_neg (Nat.not_lt_of_le hlast), hresize]
        exact .inl ⟨hnext, hlast, _, rfl⟩
      · rw [if_pos (Nat.lt_of_not_le hlast)]
        exact .inr (.inl ⟨fun h => hlast h.2, fun _ => hsum, rfl⟩)
    · have hnewStop : paOffset (old.addr - header) newTotal = none :=
        checkedAdd_eq_none.mpr (Nat.le_of_not_lt hsum)
      rw [hnewStop]
      exact .inr (.inr ⟨hnext, Nat.le_of_not_lt hsum, rfl⟩)
  · rw [if_pos hnext]
    exact .inr (.inl ⟨fun h => hnext h.1, fun h => absurd h hnext, rfl⟩)

/-- **`realloc` answers** exactly if it resizes the payload to at least one byte. -/
lemma LibcState.Tracks.realloc_isSome (hbase : base + arenaBytes < 2 ^ 64)
    (htracks : s.Tracks base live) (hold : old ∈ live) :
    (Libc.realloc base s old.addr size).isSome ↔ size ≠ 0 ∧ s.Resizes base old size := by
  have hinited := htracks.inited hold
  have hsound := htracks.sound old hold
  have hsize := hsound.size_le
  have hnull := htracks.addr_ne_zero hold
  have hpayload : checkedSub old.total header = some (old.total - header) :=
    checkedSub_eq_some.mpr ⟨(Nat.le_add_left header old.size).trans hsize, rfl⟩
  rw [Libc.realloc, nonNull_of_ne hnull, Option.bind_eq_bind, Option.bind_some, reallocAddr,
    if_neg hnull]
  by_cases hzero : size = 0
  · obtain ⟨s₁, hfree, -⟩ := htracks.free hbase hold
    rw [if_pos hzero, hfree]
    exact iff_of_false Bool.false_ne_true fun h => h.1 hzero
  · rw [if_neg hzero, and_iff_right hzero, htracks.checkedSub_header hold]
    simp only [Option.bind_eq_bind, Option.bind_some, hsound.loadWord_eq, hpayload]
    by_cases hle : size ≤ old.total - header
    · rw [if_pos hle]
      exact iff_of_true (asPtr_isSome hnull s) (.inl (by omega))
    · have hlt : old.total < size + header := by omega
      have hlast : s.heap.range.last < 2 ^ 64 := by
        have hlast := htracks.holds.owns.last_lt
        rwa [ready_of_inited hinited] at hlast
      rw [if_neg hle, LibcState.Resizes, or_iff_right (by omega)]
      by_cases hbound : size + header < 2 ^ 64
      · rw [checkedAdd_eq_some.mpr ⟨hbound, rfl⟩]
        simp only [Option.bind_some]
        rcases htracks.growInPlace_cases hbase hold hlt with
          ⟨hnext, hroom, h, hgrow⟩ | ⟨hno, hsum, hgrow⟩ | ⟨hnext, hsum, hgrow⟩
        · rw [hgrow]
          exact iff_of_true (asPtr_isSome hnull _) (.inl ⟨hnext, hroom⟩)
        · rw [hgrow, or_iff_right hno]
          exact (htracks.moveAddr_isSome hbase hold hlt).trans (and_iff_left hsum).symm
        · rw [hgrow]
          refine iff_of_false Bool.false_ne_true ?_
          rintro (⟨-, hroom⟩ | ⟨-, hclear⟩)
          · omega
          · have hlt := hclear hnext
            omega
      · rw [checkedAdd_eq_none.mpr (Nat.le_of_not_lt hbound)]
        refine iff_of_false Bool.false_ne_true ?_
        rintro (⟨-, hroom⟩ | ⟨⟨hclear, -⟩, -⟩)
        · omega
        · exact hbound (lt_of_clear hclear)

end ModernC.Libc

/-!
## When a request is answered

A request for memory is answered with a payload, or it traps: where no place is found the address is
zero, and to make a pointer of it traps, before a client could see a null pointer.  It also traps
where a sum that the search for a place computes leaves the address space.
-/

namespace ModernC.Libc

open Framework Alloc

variable {base : ℕ} {s s' : LibcState} {live : List Payload}

/-! ## Requests -/

/-- A call that asks for memory. -/
inductive Request where
  | malloc (size : ℕ)
  | calloc (count size : ℕ)
  | reallocNull (size : ℕ)
  | realloc (old : Payload) (size : ℕ)

def Request.call (base : ℕ) (s : LibcState) : Request → Option (ℕ × LibcState)
  | .malloc size => Libc.malloc base s size
  | .calloc count size => Libc.calloc base s count size
  | .reallocNull size => Libc.realloc base s 0 size
  | .realloc old size => Libc.realloc base s old.addr size

def Request.size : Request → ℕ
  | .malloc size => size
  | .calloc count size => count * size
  | .reallocNull size => size
  | .realloc _ size => size

/-- What stays live beside the answer to a request. -/
def Request.others (live : List Payload) : Request → List Payload
  | .realloc old _ => live.erase old
  | _ => live

/-- Only what is live is resized. -/
def Request.Valid (live : List Payload) : Request → Prop
  | .realloc old _ => old ∈ live
  | _ => True

/-- The request frees its payload. -/
def Request.Frees : Request → Prop
  | .realloc _ size => size = 0
  | _ => False

/-- A request that finds a place for at least one byte.  The null pointer is no request to resize:
to read it traps. -/
def Request.Served (base : ℕ) (s : LibcState) : Request → Prop
  | .malloc size => size ≠ 0 ∧ s.Serves base size
  | .calloc count size => count * size ≠ 0 ∧ s.Serves base (count * size)
  | .reallocNull _ => False
  | .realloc old size => size ≠ 0 ∧ s.Resizes base old size

/-- A payload a client can use. -/
structure Usable (base : ℕ) (others : List Payload) (addr size : ℕ) : Prop where
  ne_zero : addr ≠ 0
  aligned : 16 ∣ addr
  inside : Set.Ico addr (addr + size) ⊆ Set.Ico base (base + arenaBytes)
  disjoint : ∀ q ∈ others, Disjoint (Set.Ico addr (addr + size)) q.bytes

/-- A request is answered with a payload, or with the null pointer and an unchanged heap. -/
def Answers (base : ℕ) (live : List Payload) (s : LibcState) (request : Request) : Prop :=
  ∃ answer s', request.call base s = some (answer, s') ∧
    (Usable base (request.others live) answer request.size ∨
      (answer = 0 ∧ (request.Frees ∨ (s'.ready base).heap = (s.ready base).heap)))

lemma LibcState.Tracks.usable {p : Payload} (hbase : base + arenaBytes < 2 ^ 64)
    (htracks : s.Tracks base (p :: live)) : Usable base live p.addr p.size := by
  have hsafe := htracks.payloadSafe hbase
  have hp : p ∈ p :: live := List.mem_cons_self
  exact ⟨htracks.addr_ne_zero hp, hsafe.aligned p hp, hsafe.inside p hp,
    (List.pairwise_cons.mp hsafe.disjoint).1⟩

/-- What a call without a trap answers. -/
lemma LibcState.Tracks.answers (hbase : base + arenaBytes < 2 ^ 64) (htracks : s.Tracks base live)
    {request : Request} (hvalid : request.Valid live)
    (heq : request.call base s = some (answer, s')) : Answers base live s request := by
  refine ⟨answer, s', heq, .inl ?_⟩
  cases request with
  | malloc size =>
    obtain ⟨hne, heq⟩ := asPtr_eq_some.mp heq
    rcases htracks.malloc hbase heq with ⟨hzero, -⟩ | hgranted
    · exact absurd hzero hne
    · exact hgranted.tracks.usable hbase
  | reallocNull size => exact absurd heq nofun
  | calloc count size =>
    obtain ⟨hne, heq⟩ := asPtr_eq_some.mp heq
    rcases htracks.calloc hbase heq with ⟨hzero, -⟩ | ⟨hzero, -⟩ | ⟨hgranted, -⟩
    · exact absurd hzero hne
    · exact absurd hzero hne
    · exact hgranted.tracks.usable hbase
  | realloc old size =>
    rw [Request.call, Libc.realloc, nonNull_of_ne (htracks.addr_ne_zero hvalid)] at heq
    obtain ⟨hne, heq⟩ := asPtr_eq_some.mp heq
    by_cases hsize : size = 0
    · subst hsize
      exact absurd (htracks.reallocZero hbase hvalid heq).1 hne
    · rcases htracks.realloc hbase hvalid hsize heq with ⟨hzero, -⟩ | hresized
      · exact absurd hzero hne
      · have husable := hresized.tracks.usable hbase
        split at husable
        · next hsame =>
          subst hsame
          exact husable
        · exact husable

lemma LibcState.Tracks.calloc_isSome (hbase : base + arenaBytes < 2 ^ 64)
    (htracks : s.Tracks base live) (count size : ℕ) :
    (Libc.calloc base s count size).isSome ↔
      count * size ≠ 0 ∧ s.Serves base (count * size) := by
  rw [Libc.calloc, callocAddr]
  have hguard : (size ≠ 0 ∧ (2 ^ 64 - 1) / size < count) ↔ 2 ^ 64 ≤ count * size := by
    rcases Nat.eq_zero_or_pos size with rfl | hpos
    · simp
    · rw [Nat.div_lt_iff_lt_mul hpos, and_iff_right (Nat.pos_iff_ne_zero.mp hpos)]
      omega
  by_cases hover : 2 ^ 64 ≤ count * size
  · rw [if_pos (hguard.mpr hover), asPtr_zero]
    refine iff_of_false Bool.false_ne_true fun h => ?_
    have hlt := lt_of_clear h.2.1
    omega
  · have hmul : checkedMul 64 count size = some (count * size) :=
      checkedMul_eq_some.mpr ⟨Nat.lt_of_not_le hover, rfl⟩
    rw [if_neg fun h => hover (hguard.mp h), hmul, ← htracks.malloc_isSome hbase, Libc.malloc]
    simp only [Option.bind_eq_bind, Option.bind_some]
    rcases hcall : mallocAddr base s (count * size) with _ | ⟨addr, s₁⟩
    · rfl
    · rcases htracks.malloc hbase hcall with ⟨rfl, rfl⟩ | hgranted
      · rfl
      · have hinside := hgranted.tracks.inside List.mem_cons_self
        dsimp only at hinside
        have hset : memSet s₁.mem addr 0 (count * size) =
            some (filled s₁.mem addr 0 (count * size)) := memSet_eq (by omega) s₁.mem 0
        simp only [Option.bind_some, if_pos hgranted.ne_zero, hset]
        exact iff_of_true (asPtr_isSome hgranted.ne_zero _) (asPtr_isSome hgranted.ne_zero _)

/-- **A request is answered** exactly if it asks for at least one byte and a place is found. -/
theorem answers_iff (hbase : base + arenaBytes < 2 ^ 64) (hrun : LibcRun base live s)
    {request : Request} (hvalid : request.Valid live) :
    Answers base live s request ↔ request.Served base s := by
  have htracks := hrun.tracks hbase
  have hsome : (request.call base s).isSome ↔ request.Served base s := by
    cases request with
    | malloc size => exact htracks.malloc_isSome hbase
    | calloc count size => exact htracks.calloc_isSome hbase count size
    | reallocNull size => exact iff_of_false Bool.false_ne_true id
    | realloc old size => exact htracks.realloc_isSome hbase hvalid
  rw [← hsome, Option.isSome_iff_exists]
  constructor
  · rintro ⟨answer, s', heq, -⟩
    exact ⟨(answer, s'), heq⟩
  · rintro ⟨⟨answer, s'⟩, heq⟩
    exact htracks.answers hbase hvalid heq

theorem answers_iff_start :
    Answers 4096 [] (LibcState.start fun _ => 0) (.malloc 24) ↔
      (Request.malloc 24).Served 4096 (LibcState.start fun _ => 0) :=
  answers_iff (by decide) (.start fun _ => 0) trivial

/-- No bytes make a null pointer, and a header is added to what was asked for without a look at the
sum: both trap. -/
theorem not_answers_malloc :
    (¬Answers 4096 [] (LibcState.start fun _ => 0) (.malloc 0)) ∧
      ¬Answers 4096 [] (LibcState.start fun _ => 0) (.malloc (2 ^ 64 - 1)) := by
  have hzero : Request.call 4096 (LibcState.start fun _ => 0) (.malloc 0) = none := rfl
  have hlarge : Request.call 4096 (LibcState.start fun _ => 0) (.malloc (2 ^ 64 - 1)) = none := rfl
  constructor
  · rintro ⟨answer, s', heq, -⟩
    exact absurd (hzero.symm.trans heq) nofun
  · rintro ⟨answer, s', heq, -⟩
    exact absurd (hlarge.symm.trans heq) nofun

end ModernC.Libc
