import ModernC.Libc.Malloc

/-!
# Cleared and moved payloads

`calloc` clears what it gives out.  `realloc` keeps a block that is long enough, makes it longer
where it is, or moves its payload.
-/

namespace ModernC.Libc

open Framework Alloc

variable {base : ℕ} {s s' : LibcState} {live : List Payload} {p old : Payload} {size answer : ℕ}

/-! ## Clearing -/

/-- **A call of `calloc`** clears the payload it gives out. -/
theorem LibcState.Tracks.calloc (hbase : base + arenaBytes < 2 ^ 64) (htracks : s.Tracks base live)
    {count : ℕ} (heq : callocAddr base s count size = some (answer, s')) :
    (answer = 0 ∧ s' = s) ∨ Refused base s answer s' ∨
      (Granted base s live (count * size) answer s' ∧
        ∀ b ∈ Set.Ico answer (answer + count * size), s'.mem b = 0) := by
  rw [callocAddr] at heq
  split at heq
  · obtain ⟨rfl, rfl⟩ := Prod.mk.inj (Option.some.inj heq)
    exact .inl ⟨rfl, rfl⟩
  · obtain ⟨total, htotal, heq⟩ := Option.bind_eq_some_iff.mp heq
    obtain ⟨hlt, rfl⟩ := checkedMul_eq_some.mp htotal
    obtain ⟨⟨addr, s₁⟩, hmalloc, hrest⟩ := Option.bind_eq_some_iff.mp heq
    dsimp only at hrest
    rcases htracks.malloc hbase hmalloc with ⟨rfl, rfl⟩ | hgranted
    · obtain ⟨rfl, rfl⟩ := Prod.mk.inj (Option.some.inj hrest)
      exact .inr (.inl ⟨rfl, rfl⟩)
    · rw [if_pos hgranted.ne_zero] at hrest
      obtain ⟨mem, hmem, hanswer⟩ := Option.bind_eq_some_iff.mp hrest
      obtain ⟨rfl, rfl⟩ := Prod.mk.inj (Option.some.inj hanswer)
      have hinside := hgranted.tracks.inside List.mem_cons_self
      dsimp only at hinside
      rw [memSet_eq (by omega)] at hmem
      obtain rfl := Option.some.inj hmem
      have hagree : ∀ b, b < addr ∨ addr + count * size ≤ b →
          filled s₁.mem addr 0 (count * size) b = s₁.mem b := fun b hb => filled_outside hb
      have hstop : (Payload.block ⟨addr, count * size, count * size + header⟩).stop =
          addr + count * size := by
        simp only [Payload.block, Allocation.stop]
        omega
      refine .inr (.inr ⟨⟨hgranted.ne_zero, ?_, fun b hb => ?_⟩, fun b hb => ?_⟩)
      · exact hgranted.tracks.withPayload fun b hb => hagree b (hstop ▸ hb)
      · refine (hagree b ?_).trans (hgranted.mem_eq b hb)
        simp only [Allocation.bytes, Set.mem_Ico, hstop, not_and_or, not_lt, not_le] at hb
        rcases hb with hb | hb
        · refine .inl (hb.trans_le ?_)
          exact Nat.sub_le addr header
        · exact .inr hb
      · exact if_pos hb

/-! ## Resizing -/

/-- What is live after a payload was resized. -/
def resized (old : Payload) (answer size : ℕ) (live : List Payload) : List Payload :=
  (if answer = old.addr then ⟨old.addr, size, max old.total (size + header)⟩
    else ⟨answer, size, size + header⟩) :: live.erase old

/-- A call that resized a payload. -/
structure Resized (base : ℕ) (s : LibcState) (live : List Payload) (old : Payload)
    (size answer : ℕ) (s' : LibcState) : Prop where
  ne_zero : answer ≠ 0
  tracks : s'.Tracks base (resized old answer size live)
  mem_eq : ∀ i < min old.size size, s'.mem (answer + i) = s.mem (old.addr + i)

/-- A block that is long enough is kept. -/
lemma LibcState.Tracks.shrink (htracks : s.Tracks base live) (hold : old ∈ live)
    (hpos : 0 < size) (hle : size + header ≤ old.total) :
    Resized base s live old size old.addr s := by
  have hcons := htracks.perm (List.perm_cons_erase hold)
  have hsound := htracks.sound old hold
  have hresized : resized old old.addr size live =
      ⟨old.addr, size, old.total⟩ :: live.erase old := by
    rw [resized, if_pos rfl, max_eq_left hle]
  refine ⟨htracks.addr_ne_zero hold, hresized ▸ ⟨hcons.holds, hcons.untracked, ?_, ?_⟩,
    fun _ _ => rfl⟩
  · intro hfresh
    exact absurd ((htracks.inited hold).symm.trans hfresh) nofun
  · intro q hq
    rcases List.mem_cons.mp hq with rfl | hq
    · exact ⟨hpos, hsound.header_le, hle, hsound.loadWord_eq⟩
    · exact htracks.sound q (List.mem_of_mem_erase hq)

/-- A block at the frontier is made longer. -/
lemma LibcState.Tracks.growTop (htracks : s.Tracks base live) (hold : old ∈ live)
    (hpos : 0 < size) (hlt : old.total < size + header) (hbound : size + header < 2 ^ 64)
    (hnext : old.addr - header + old.total = s.heap.next)
    (hlast : old.addr - header + (size + header) ≤ s.heap.range.last) :
    Resized base s live old size old.addr
      { s with
        heap := { s.heap with next := old.addr - header + (size + header) }
        mem := storeWord s.mem (old.addr - header) (size + header) } := by
  have hinited := htracks.inited hold
  have hcons := htracks.perm (List.perm_cons_erase hold)
  have hsound := htracks.sound old hold
  have hheader := hsound.header_le
  have hsize := hsound.size_le
  have hsizePos := hsound.size_pos
  have hholds := hcons.holds
  have huntracked := hcons.untracked
  rw [ready_of_inited hinited] at hholds huntracked
  rw [List.map_cons] at hholds
  have hlen : old.block.len ≠ 0 := by
    dsimp only [Payload.block]
    omega
  have hresized : resized old old.addr size live =
      ⟨old.addr, size, size + header⟩ :: live.erase old := by
    rw [resized, if_pos rfl, max_eq_right (Nat.le_of_lt hlt)]
  refine ⟨htracks.addr_ne_zero hold, hresized ▸ .of_inited hinited ?_ huntracked ?_, ?_⟩
  · exact hholds.growTop hlen hlt hnext hlast
  · intro q hq
    rcases List.mem_cons.mp hq with rfl | hq
    · exact ⟨hpos, hheader, Nat.le_refl _, loadWord_storeWord hbound⟩
    · refine (htracks.sound q (List.mem_of_mem_erase hq)).of_agree fun b hb => ?_
      have hout := hcons.disjoint q hq b hb
      refine storeWord_outside ?_
      simp only [Allocation.bytes, Allocation.stop, Payload.block, Set.mem_Ico] at hout
      simp only [header] at hout hsize ⊢
      omega
  · intro i hi
    refine storeWord_outside (.inr ?_)
    simp only [header] at hheader ⊢
    omega

/-! ## Moving -/

/-- A payload moves to a new block that is long enough. -/
lemma LibcState.Tracks.replace (hbase : base + arenaBytes < 2 ^ 64) (htracks : s.Tracks base live)
    (hold : old ∈ live) (hlt : old.total < size + header)
    (hgranted : Granted base s live size answer s') :
    ∃ s'', replaceAddr base s' answer old.addr (old.total - header) = some s'' ∧
      Resized base s live old size answer s'' := by
  have hsound := htracks.sound old hold
  have hnewInside := hgranted.tracks.inside List.mem_cons_self
  dsimp only at hnewInside
  have hinside := htracks.inside hold
  have hsize := hsound.size_le
  have hheader := hsound.header_le
  have hpos := hsound.size_pos
  have hapart : answer + size ≤ old.addr - header ∨
      old.addr - header + old.total ≤ answer - header := by
    have hout := hgranted.tracks.disjoint old hold
    have hfirst := hout (old.addr - header)
    have hfirst' := hout (answer - header)
    simp only [Allocation.bytes, Allocation.stop, Payload.block, Set.mem_Ico] at hfirst hfirst'
    omega
  have hsep : Separate answer old.addr (old.total - header) := ⟨by omega, by omega, by omega⟩
  have htracks₂ : ({ s' with
      mem := copied s'.mem answer old.addr (old.total - header) } : LibcState).Tracks base
        (⟨answer, size, size + header⟩ :: live) := by
    refine hgranted.tracks.withPayload fun b hb => ?_
    refine copied_outside (hb.imp_right fun hle => ?_)
    simp only [Payload.block, Allocation.stop] at hle
    omega
  obtain ⟨s'', hfree, htracks₃, hmem⟩ := htracks₂.free hbase (List.mem_cons_of_mem _ hold)
  have hne : answer ≠ old.addr := by omega
  have hresized : resized old answer size live =
      (⟨answer, size, size + header⟩ :: live).erase old := by
    have hdiffer : ¬((⟨answer, size, size + header⟩ : Payload) == old) = true := by
      rw [beq_iff_eq]
      rintro rfl
      exact hne rfl
    rw [resized, if_neg hne, List.erase_cons_tail hdiffer]
  refine ⟨s'', ?_, hgranted.ne_zero, hresized ▸ htracks₃, fun i hi => ?_⟩
  · rw [replaceAddr, memCopy_eq hsep]
    exact hfree
  · have hcopied : copied s'.mem answer old.addr (old.total - header) (answer + i) =
        s'.mem (old.addr + i) := copied_add (by omega)
    rw [hmem]
    refine hcopied.trans (hgranted.mem_eq _ fun hnew => ?_)
    simp only [Allocation.bytes, Allocation.stop, Payload.block, Set.mem_Ico] at hnew
    omega

/-- The part of a call that finds a new block, copies the payload and frees the old block. -/
lemma LibcState.Tracks.move (hbase : base + arenaBytes < 2 ^ 64) (htracks : s.Tracks base live)
    (hold : old ∈ live) (hlt : old.total < size + header)
    (heq : moveAddr base s old.addr (old.total - header) size = some (answer, s')) :
    (answer = 0 ∧ s' = s) ∨ Resized base s live old size answer s' := by
  obtain ⟨⟨addr, s₁⟩, hmalloc, hrest⟩ := Option.bind_eq_some_iff.mp heq
  dsimp only at hrest
  rcases htracks.malloc hbase hmalloc with ⟨rfl, rfl⟩ | hgranted
  · obtain ⟨rfl, rfl⟩ := Prod.mk.inj (Option.some.inj hrest)
    exact .inl ⟨rfl, ready_of_inited (htracks.inited hold)⟩
  · obtain ⟨s₂, hreplace, hresized⟩ := htracks.replace hbase hold hlt hgranted
    rw [if_neg hgranted.ne_zero, hreplace] at hrest
    obtain ⟨rfl, rfl⟩ := Prod.mk.inj (Option.some.inj hrest)
    exact .inr hresized

/-- **A call of `realloc`** for what is live resizes it, or refuses and changes nothing. -/
theorem LibcState.Tracks.realloc (hbase : base + arenaBytes < 2 ^ 64)
    (htracks : s.Tracks base live) (hold : old ∈ live) (hpos : size ≠ 0)
    (heq : reallocAddr base s old.addr size = some (answer, s')) :
    (answer = 0 ∧ s' = s) ∨ Resized base s live old size answer s' := by
  have hinited := htracks.inited hold
  have hsound := htracks.sound old hold
  have hsize := hsound.size_le
  have hpayload : checkedSub old.total header = some (old.total - header) :=
    checkedSub_eq_some.mpr ⟨(Nat.le_add_left header old.size).trans hsize, rfl⟩
  rw [reallocAddr, if_neg (htracks.addr_ne_zero hold), if_neg hpos,
    htracks.checkedSub_header hold] at heq
  simp only [Option.bind_eq_bind, Option.bind_some, hsound.loadWord_eq, hpayload] at heq
  split at heq
  · next hle =>
    obtain ⟨rfl, rfl⟩ := Prod.mk.inj (Option.some.inj heq)
    exact .inr (htracks.shrink hold (Nat.pos_of_ne_zero hpos) (by omega))
  · next hgt =>
    obtain ⟨newTotal, htotal, heq⟩ := Option.bind_eq_some_iff.mp heq
    obtain ⟨hbound, rfl⟩ := checkedAdd_eq_some.mp htotal
    obtain ⟨⟨grown, h⟩, hgrow, hrest⟩ := Option.bind_eq_some_iff.mp heq
    rw [growInPlace, htracks.inArena hbase hold] at hgrow
    rcases heapTryGrowInPlace_cases hgrow with
      ⟨rfl, hgrown⟩ | ⟨rfl, hlt, hnext, hlast, h₁, hresize, rfl⟩
    · have hfalse : grown = false := by
        by_contra htrue
        have hle := hgrown (Bool.not_eq_false grown ▸ htrue)
        omega
      subst hfalse
      exact htracks.move hbase hold (by omega) hrest
    · have huntracked := htracks.untracked
      rw [ready_of_inited hinited] at huntracked
      have hsame : heapResizeLive s.heap (old.addr - header) old.total (size + header) =
          some s.heap := by
        rw [heapResizeLive, huntracked]
        rfl
      obtain rfl := Option.some.inj (hsame.symm.trans hresize)
      obtain ⟨rfl, rfl⟩ := Prod.mk.inj (Option.some.inj hrest)
      exact .inr (htracks.growTop hold (Nat.pos_of_ne_zero hpos) hlt hbound hnext hlast)

end ModernC.Libc

/-!
## Payloads are safe

In every run of the allocator whose clients free and resize only what is live and write only to
their own payloads, the payloads have no byte in common and the headers stay as they are.
-/

namespace ModernC.Libc

open Framework Alloc

variable {base : ℕ} {s s' : LibcState} {live : List Payload}

/-! ## Runs -/

/-- What is live after a call that answered. -/
def grant (answer size : ℕ) (live : List Payload) : List Payload :=
  if answer = 0 then live else ⟨answer, size, size + header⟩ :: live

/-- What is live after a call that resized a payload or refused to. -/
def resize (old : Payload) (answer size : ℕ) (live : List Payload) : List Payload :=
  if answer = 0 then live else resized old answer size live

/-- The state a run leads to, with what is live then.  The calls answer with addresses: every run of
the exports is such a run, which also goes on where an export would trap on a null pointer. -/
inductive LibcRun (base : ℕ) : List Payload → LibcState → Prop where
  | start (mem : Memory) : LibcRun base [] (LibcState.start mem)
  | malloc {live : List Payload} {s s' : LibcState} {size answer : ℕ} :
      LibcRun base live s → mallocAddr base s size = some (answer, s') →
        LibcRun base (grant answer size live) s'
  | calloc {live : List Payload} {s s' : LibcState} {count size answer : ℕ} :
      LibcRun base live s → callocAddr base s count size = some (answer, s') →
        LibcRun base (grant answer (count * size) live) s'
  | freeNull {live : List Payload} {s s' : LibcState} :
      LibcRun base live s → freeAddr base s 0 = some s' → LibcRun base live s'
  | free {live : List Payload} {s s' : LibcState} {old : Payload} :
      LibcRun base live s → old ∈ live → freeAddr base s old.addr = some s' →
        LibcRun base (live.erase old) s'
  | reallocNull {live : List Payload} {s s' : LibcState} {size answer : ℕ} :
      LibcRun base live s → reallocAddr base s 0 size = some (answer, s') →
        LibcRun base (grant answer size live) s'
  | reallocZero {live : List Payload} {s s' : LibcState} {old : Payload} {answer : ℕ} :
      LibcRun base live s → old ∈ live → reallocAddr base s old.addr 0 = some (answer, s') →
        LibcRun base (live.erase old) s'
  | realloc {live : List Payload} {s s' : LibcState} {old : Payload} {size answer : ℕ} :
      LibcRun base live s → old ∈ live → size ≠ 0 →
        reallocAddr base s old.addr size = some (answer, s') →
          LibcRun base (resize old answer size live) s'
  | write {live : List Payload} {s : LibcState} {p : Payload} {i : ℕ} {value : UInt8} :
      LibcRun base live s → p ∈ live → i < p.size →
        LibcRun base live { s with mem := storeByte s.mem (p.addr + i) value }

lemma LibcState.Tracks.grant {size answer : ℕ} (htracks : s.Tracks base live)
    (h : Refused base s answer s' ∨ Granted base s live size answer s') :
    s'.Tracks base (Libc.grant answer size live) := by
  rw [Libc.grant]
  rcases h with ⟨rfl, rfl⟩ | hgranted
  · rw [if_pos rfl]
    exact htracks.ready
  · rw [if_neg hgranted.ne_zero]
    exact hgranted.tracks

lemma LibcState.Tracks.reallocZero (hbase : base + arenaBytes < 2 ^ 64)
    (htracks : s.Tracks base live) {old : Payload} {answer : ℕ} (hold : old ∈ live)
    (heq : reallocAddr base s old.addr 0 = some (answer, s')) :
    answer = 0 ∧ freeAddr base s old.addr = some s' ∧ s'.Tracks base (live.erase old) := by
  obtain ⟨s₁, hfree, htracks', -⟩ := htracks.free hbase hold
  rw [reallocAddr, if_neg (htracks.addr_ne_zero hold), if_pos rfl, hfree] at heq
  obtain ⟨rfl, rfl⟩ := Prod.mk.inj (Option.some.inj heq)
  exact ⟨rfl, hfree, htracks'⟩

/-- A client writes to its payload. -/
lemma LibcState.Tracks.write (htracks : s.Tracks base live) {p : Payload} {i : ℕ} {value : UInt8}
    (hp : p ∈ live) (hi : i < p.size) :
    ({ s with mem := storeByte s.mem (p.addr + i) value } : LibcState).Tracks base live := by
  have hperm := List.perm_cons_erase hp
  have hsound := htracks.sound p hp
  have hsize := hsound.size_le
  have hheader := hsound.header_le
  refine ((htracks.perm hperm).withPayload fun b hb => ?_).perm hperm.symm
  simp only [Payload.block, Allocation.stop] at hb
  exact if_neg (by omega)

/-- **The payloads are kept** in every run. -/
lemma LibcRun.tracks (hbase : base + arenaBytes < 2 ^ 64) (hrun : LibcRun base live s) :
    s.Tracks base live := by
  induction hrun with
  | start mem => exact tracks_start hbase mem
  | malloc _ heq ih | reallocNull _ heq ih => exact ih.grant (ih.malloc hbase heq)
  | @calloc live s s' count size answer _ heq ih =>
    rcases ih.calloc hbase heq with ⟨rfl, rfl⟩ | hrefused | ⟨hgranted, -⟩
    · exact ih
    · exact ih.grant (.inl hrefused)
    · exact ih.grant (.inr hgranted)
  | freeNull _ heq ih =>
    obtain rfl := Option.some.inj heq
    exact ih
  | free _ hold heq ih =>
    obtain ⟨s₁, hfree, htracks, -⟩ := ih.free hbase hold
    obtain rfl := Option.some.inj (hfree.symm.trans heq)
    exact htracks
  | reallocZero _ hold heq ih => exact (ih.reallocZero hbase hold heq).2.2
  | realloc _ hold hsize heq ih =>
    rw [resize]
    rcases ih.realloc hbase hold hsize heq with ⟨rfl, rfl⟩ | hresized
    · exact ih
    · rw [if_neg hresized.ne_zero]
      exact hresized.tracks
  | write _ hp hi ih => exact ih.write hp hi

/-! ## Safety -/

/-- The bytes a client asked for. -/
def Payload.bytes (p : Payload) : Set ℕ := Set.Ico p.addr (p.addr + p.size)

/-- What the clients of the allocator rely on. -/
structure PayloadSafe (base : ℕ) (live : List Payload) (s : LibcState) : Prop where
  disjoint : live.Pairwise fun p q => Disjoint p.bytes q.bytes
  aligned : ∀ p ∈ live, 16 ∣ p.addr
  inside : ∀ p ∈ live, p.bytes ⊆ Set.Ico base (base + arenaBytes)
  headerKept : ∀ p ∈ live, p.size + header ≤ p.total ∧ loadWord s.mem (p.addr - header) = p.total
  callocClears : ∀ count size answer s', callocAddr base s count size = some (answer, s') →
    answer ≠ 0 → ∀ byte ∈ Set.Ico answer (answer + count * size), s'.mem byte = 0
  reallocKeeps : ∀ old ∈ live, ∀ size answer s',
    reallocAddr base s old.addr size = some (answer, s') → answer ≠ 0 → ∀ i < min old.size size, s'.mem (answer + i) = s.mem (old.addr + i)
  reallocRefused : ∀ old ∈ live, ∀ size s', size ≠ 0 →
    reallocAddr base s old.addr size = some (0, s') → s' = s
  reallocFrees : ∀ old ∈ live, ∀ answer s', reallocAddr base s old.addr 0 = some (answer, s') →
    answer = 0 ∧ freeAddr base s old.addr = some s'

lemma Payload.Sound.bytes_subset {p : Payload} {m : Memory} (hsound : p.Sound m) :
    p.bytes ⊆ p.block.bytes := by
  intro byte hbyte
  have hsize := hsound.size_le
  have hheader := hsound.header_le
  obtain ⟨hle, hlt⟩ := hbyte
  refine ⟨(Nat.sub_le _ _).trans hle, hlt.trans_le ?_⟩
  simp only [Payload.block, Allocation.stop]
  omega

lemma LibcState.Tracks.payloadSafe (hbase : base + arenaBytes < 2 ^ 64)
    (htracks : s.Tracks base live) : PayloadSafe base live s := by
  constructor
  · have hpairwise := List.pairwise_map.mp htracks.holds.pairwise_disjoint
    refine hpairwise.imp_of_mem fun {p q} hp hq hpq => ?_
    exact hpq.mono (htracks.sound p hp).bytes_subset (htracks.sound q hq).bytes_subset
  · intro p hp
    have hblock : header ∣ p.addr - header :=
      htracks.holds.aligned p.block (List.mem_map_of_mem hp)
    have hheader := (htracks.sound p hp).header_le
    simp only [Libc.header] at hblock hheader
    omega
  · intro p hp byte hbyte
    have hinside := htracks.inside hp
    have hsize := (htracks.sound p hp).size_le
    obtain ⟨hle, hlt⟩ := hbyte
    exact ⟨by omega, by omega⟩
  · exact fun p hp => ⟨(htracks.sound p hp).size_le, (htracks.sound p hp).loadWord_eq⟩
  · intro count size answer s' heq hne
    rcases htracks.calloc hbase heq with ⟨hzero, -⟩ | ⟨hzero, -⟩ | ⟨-, hcleared⟩
    · exact absurd hzero hne
    · exact absurd hzero hne
    · exact hcleared
  · intro old hold size answer s' heq hne
    by_cases hsize : size = 0
    · subst hsize
      exact absurd (htracks.reallocZero hbase hold heq).1 hne
    · rcases htracks.realloc hbase hold hsize heq with ⟨hzero, -⟩ | hresized
      · exact absurd hzero hne
      · exact hresized.mem_eq
  · intro old hold size s' hsize heq
    rcases htracks.realloc hbase hold hsize heq with ⟨-, hsame⟩ | hresized
    · exact hsame
    · exact absurd rfl hresized.ne_zero
  · intro old hold answer s' heq
    obtain ⟨hzero, hfree, -⟩ := htracks.reallocZero hbase hold heq
    exact ⟨hzero, hfree⟩

/-- **The allocator is safe** in every run whose clients keep to their payloads. -/
theorem payload_safe (hbase : base + arenaBytes < 2 ^ 64) (hrun : LibcRun base live s) :
    PayloadSafe base live s := (hrun.tracks hbase).payloadSafe hbase

/-- A payload that its client has written to. -/
theorem payload_safe_written :
    PayloadSafe 4096 [⟨4112, 24, 40⟩]
      { heap := { range := arena 4096, next := 4136, free := [], live := [], trackLive := false,
                  droppedFreeBytes := 0 }
        inited := true
        mem := storeByte (storeWord (fun _ => 0) 4096 40) (4112 + 3) 7 } := by
  have hmalloc : mallocAddr 4096 (LibcState.start fun _ => 0) 24 = some (4112,
      { heap := { range := arena 4096, next := 4136, free := [], live := [], trackLive := false,
                  droppedFreeBytes := 0 }
        inited := true
        mem := storeWord (fun _ => 0) 4096 40 }) := rfl
  have hrun := (LibcRun.start fun _ => 0).malloc hmalloc
  exact payload_safe (by decide) (hrun.write List.mem_cons_self (by decide))

end ModernC.Libc
