import ModernC.Libc.MemCopy

/-!
# Words against single bytes

`mem_copy` and `mem_set` do with words what loops over single bytes do, traps included, and their
words are aligned and within the ranges.  `memmove` copies ranges that may overlap, in the direction
in which no byte is written before it is read.
-/

namespace ModernC.Libc

open Framework Alloc

variable {σ : Type} {m m' : Memory} {dst src d s len n i : ℕ} {value : UInt8}

/-! ## The program -/

/-- `mem_copy` with its passes as parameters. -/
def copyPasses (byte word : ℕ → σ → Option σ) (dst src len : ℕ) (x : σ) : Option σ :=
  if rangesOverlapSameLen dst src len then none
  else do
    let (i, x) ← (if 8 ≤ len ∧ (dst ^^^ src) &&& 7 = 0 then do
        let (i, x) ← loopWhile (fun i => addrOffsetMod8 dst i ≠ 0) 1 byte len 0 x
        loopWhile (fun i => i ≤ len - 8) 8 word len i x
      else some (0, x))
    let (_, x) ← loopWhile (fun i => i < len) 1 byte len i x
    return x

/-- `mem_set` with its passes as parameters. -/
def fillPasses (byte word : ℕ → σ → Option σ) (dst len : ℕ) (x : σ) : Option σ := do
  let (i, x) ← (if 8 ≤ len then do
      let (i, x) ← loopWhile (fun i => addrOffsetMod8 dst i ≠ 0) 1 byte len 0 x
      loopWhile (fun i => i ≤ len - 8) 8 word len i x
    else some (0, x))
  let (_, x) ← loopWhile (fun i => i < len) 1 byte len i x
  return x

lemma memCopy_eq_copyPasses (m : Memory) (dst src len : ℕ) :
    memCopy m dst src len = copyPasses (copyByte dst src) (copyWord dst src) dst src len m := rfl

lemma memSet_eq_fillPasses (m : Memory) (dst : ℕ) (value : UInt8) (len : ℕ) :
    memSet m dst value len =
      fillPasses (fillByte dst value) (fillWord dst (replicateByte value)) dst len m := rfl

/-- `lc_st8(d + i, lc_ld8(s + i))` -/
def moveByte (d s i : ℕ) (m : Memory) : Option Memory := do
  let source ← checkedAdd 64 s i
  let target ← checkedAdd 64 d i
  return storeByte m target (m source)

/-- The loop of `memmove` that goes down from `i`. -/
def moveDown (d s : ℕ) : ℕ → Memory → Option Memory
  | 0, m => some m
  | i + 1, m => do
    let m ← moveByte d s i m
    moveDown d s i m

/-- What `memmove` does with the addresses of its pointers. -/
def moveBytes (m : Memory) (d s n : ℕ) : Option Memory :=
  if d = s ∨ n = 0 then some m
  else if d < s then do
    let (_, m) ← loopWhile (fun i => i < n) 1 (moveByte d s) n 0 m
    return m
  else moveDown d s n m

/-- The pointer that is returned, and the memory.  Neither pointer may be null. -/
def memmove (m : Memory) (dst src n : ℕ) : Option (ℕ × Memory) := do
  let d ← nonNull dst
  let s ← nonNull src
  let m ← moveBytes m d s n
  let p ← nonNull d
  return (p, m)

/-! ## Single bytes -/

/-- The loop over single bytes that `mem_copy` stands for. -/
def byteCopy (m : Memory) (dst src len : ℕ) : Option Memory := do
  let (_, m) ← loopWhile (fun i => i < len) 1 (copyByte dst src) len 0 m
  return m

/-- The loop over single bytes that `mem_set` stands for. -/
def byteFill (m : Memory) (dst : ℕ) (value : UInt8) (len : ℕ) : Option Memory := do
  let (_, m) ← loopWhile (fun i => i < len) 1 (fillByte dst value) len 0 m
  return m

/-- A copy through a temporary: all bytes are read before the first one is written. -/
def copyViaTemporary (m : Memory) (d s n : ℕ) : Memory := writeBytes m d (bytesAt m s n)

lemma byteLoop_eq (body : ℕ → σ → Option σ) (hi : i ≤ len) (x : σ) :
    loopWhile (fun i => i < len) 1 body len i x =
      (passes body (len - i) i x).map fun y => (len, y) := by
  have hsum : i + (len - i) = len := by omega
  have hloop : loopWhile (fun i => decide (i < len)) 1 body len i x =
      (passes body (len - i) i x).map fun y => (i + (len - i), y) :=
    loopWhile_eq_passes (fun j _ hj => decide_eq_true (by omega)) (decide_eq_false (by omega))
      (by omega) x
  rwa [hsum] at hloop

lemma byteCopy_eq (m : Memory) (dst src len : ℕ) :
    byteCopy m dst src len = passes (copyByte dst src) len 0 m := by
  rw [byteCopy, byteLoop_eq _ (Nat.zero_le len), Nat.sub_zero]
  cases passes (copyByte dst src) len 0 m <;> rfl

lemma byteFill_eq (m : Memory) (dst : ℕ) (value : UInt8) (len : ℕ) :
    byteFill m dst value len = passes (fillByte dst value) len 0 m := by
  rw [byteFill, byteLoop_eq _ (Nat.zero_le len), Nat.sub_zero]
  cases passes (fillByte dst value) len 0 m <;> rfl

/-! ## Words as bytes -/

variable {byte word : ℕ → σ → Option σ}

/-- The passes in front of the last loop, where a word does what eight bytes do. -/
lemma wordLoops_eq (hlen : 8 ≤ len)
    (hword : ∀ i x, i + 8 ≤ len → (dst + i) % 8 = 0 → word i x = passes byte 8 i x) (x : σ) :
    ∃ k ≤ len, (do
      let (i, x) ← loopWhile (fun i => addrOffsetMod8 dst i ≠ 0) 1 byte len 0 x
      loopWhile (fun i => i ≤ len - 8) 8 word len i x) =
        (passes byte k 0 x).map fun y => (k, y) := by
  -- `head` bytes up to the boundary, then `words` words
  obtain ⟨head, hhead⟩ : ∃ head, head = (8 - dst % 8) % 8 := ⟨_, rfl⟩
  obtain ⟨words, hwords⟩ : ∃ words, words = (len - head) / 8 := ⟨_, rfl⟩
  have hfirst : loopWhile (fun i => decide (addrOffsetMod8 dst i ≠ 0)) 1 byte len 0 x =
      (passes byte head 0 x).map fun y => (0 + head, y) := by
    apply loopWhile_eq_passes
    · intro j _ hj
      apply decide_eq_true
      rw [addrOffsetMod8_eq]
      omega
    · apply decide_eq_false
      rw [addrOffsetMod8_eq]
      omega
    · omega
  have hsecond : ∀ y, loopWhile (fun i => decide (i ≤ len - 8)) 8 word len (0 + head) y =
      (passes byte (words * 8) (0 + head) y).map fun z => (0 + head + words * 8, z) := by
    intro y
    apply loopWhile_eq_passes_of_step
    · intro j hj
      exact decide_eq_true (by omega)
    · exact decide_eq_false (by omega)
    · intro j hj z
      exact hword _ z (by omega) (by omega)
    · omega
  refine ⟨head + words * 8, by omega, ?_⟩
  simp only [Nat.zero_add] at hfirst hsecond
  rw [hfirst, passes_add, Nat.zero_add]
  cases passes byte head 0 x with
  | none => rfl
  | some y => exact hsecond y

lemma passes_append_byteLoop (byte : ℕ → σ → Option σ) {k : ℕ} (hk : k ≤ len) (x : σ) :
    (((passes byte k 0 x).map fun y => (k, y)) >>= fun p => do
      let (_, y) ← loopWhile (fun i => i < len) 1 byte len p.1 p.2
      return y) = passes byte len 0 x := by
  have hwhole : passes byte (k + (len - k)) 0 x =
      passes byte k 0 x >>= passes byte (len - k) (0 + k) := passes_add k (len - k) 0 x
  rw [Nat.add_sub_cancel' hk, Nat.zero_add] at hwhole
  rw [hwhole]
  cases passes byte k 0 x with
  | none => rfl
  | some y =>
    simp only [Option.map_some, Option.bind_eq_bind, Option.bind_some, byteLoop_eq byte hk]
    cases passes byte (len - k) k y <;> rfl

/-- Two addresses that agree in their last bits are aligned together. -/
lemma mod_eq_of_xor_and (h : (dst ^^^ src) &&& 7 = 0) : dst % 8 = src % 8 := by
  have hxor : (dst % 8) ^^^ (src % 8) = 0 := by
    rw [← Nat.xor_mod_two_pow (n := 3), ← Nat.and_two_pow_sub_one_eq_mod]
    exact h
  apply Nat.eq_of_testBit_eq
  intro i
  have hbit := congrArg (fun n => n.testBit i) hxor
  simpa [Nat.testBit_xor] using hbit

/-- **A copy by words** makes the passes of the loop over bytes. -/
lemma copyPasses_eq (hword : ∀ i x, i + 8 ≤ len → (dst + i) % 8 = 0 → (src + i) % 8 = 0 →
      word i x = passes byte 8 i x) (hapart : rangesOverlapSameLen dst src len = false) (x : σ) :
    copyPasses byte word dst src len x = passes byte len 0 x := by
  rw [copyPasses, hapart, if_neg Bool.false_ne_true]
  by_cases hwords : 8 ≤ len ∧ (dst ^^^ src) &&& 7 = 0
  · have hmod := mod_eq_of_xor_and hwords.2
    obtain ⟨k, hk, hloops⟩ := @wordLoops_eq σ dst len byte word hwords.1
      (fun i x hi halign => hword i x hi halign (by omega)) x
    rw [if_pos hwords, hloops]
    exact passes_append_byteLoop byte hk x
  · rw [if_neg hwords]
    exact passes_append_byteLoop byte (Nat.zero_le len) x

/-- **A fill by words** makes the passes of the loop over bytes. -/
lemma fillPasses_eq
    (hword : ∀ i x, i + 8 ≤ len → (dst + i) % 8 = 0 → word i x = passes byte 8 i x) (x : σ) :
    fillPasses byte word dst len x = passes byte len 0 x := by
  rw [fillPasses]
  by_cases hwords : 8 ≤ len
  · obtain ⟨k, hk, hloops⟩ := wordLoops_eq hwords hword x
    rw [if_pos hwords, hloops]
    exact passes_append_byteLoop byte hk x
  · rw [if_neg hwords]
    exact passes_append_byteLoop byte (Nat.zero_le len) x

/-! ## Copies -/

lemma rangesOverlapSameLen_iff :
    rangesOverlapSameLen dst src len = false ↔ dst + len ≤ src ∨ src + len ≤ dst := by
  refine ⟨fun h => ?_, rangesOverlapSameLen_eq_false⟩
  rw [rangesOverlapSameLen] at h
  split at h
  · omega
  · split at h
    · have hle := of_decide_eq_false h
      omega
    · have hle := of_decide_eq_false h
      omega

lemma copyByte_eq_some :
    copyByte dst src i m = some m' ↔ src + i < 2 ^ 64 ∧ dst + i < 2 ^ 64 ∧
      m' = storeByte m (dst + i) (m (src + i)) := by
  refine Option.bind_eq_some_iff.trans ⟨?_, ?_⟩
  · rintro ⟨source, hsource, hrest⟩
    obtain ⟨target, htarget, hm⟩ := Option.bind_eq_some_iff.mp hrest
    obtain ⟨hsrc, rfl⟩ := paOffset_eq_some.mp hsource
    obtain ⟨hdst, rfl⟩ := paOffset_eq_some.mp htarget
    exact ⟨hsrc, hdst, (Option.some.inj hm).symm⟩
  · rintro ⟨hsrc, hdst, rfl⟩
    refine ⟨_, paOffset_eq_some.mpr ⟨hsrc, rfl⟩, ?_⟩
    exact Option.bind_eq_some_iff.mpr ⟨_, paOffset_eq_some.mpr ⟨hdst, rfl⟩, rfl⟩

/-- Bytes are copied where none is written before it is read. -/
lemma passes_copyByte (hdst : dst + i + n ≤ 2 ^ 64) (hsrc : src + i + n ≤ 2 ^ 64)
    (hway : dst ≤ src ∨ src + (i + n) ≤ dst) :
    passes (copyByte dst src) n i m = some (copied m (dst + i) (src + i) n) := by
  induction n with
  | zero => exact congrArg some (copied_zero m _ _).symm
  | succ n ih =>
    rw [passes_succ, ih (by omega) (by omega) (by omega), Option.bind_eq_bind, Option.bind_some]
    have hsource : copied m (dst + i) (src + i) n (src + (i + n)) = m (src + (i + n)) :=
      copied_outside (by omega)
    refine copyByte_eq_some.mpr ⟨by omega, by omega, (copied_extend ?_ ?_).symm⟩
    · intro k hk
      obtain rfl : k = 0 := by omega
      rw [Nat.add_zero, Nat.add_zero, Nat.add_assoc, storeByte, if_pos rfl, hsource,
        Nat.add_assoc]
    · intro b hb
      rw [storeByte, if_neg (by omega)]

/-- Bytes that are copied have addresses. -/
lemma fits_of_passes_copyByte (h : passes (copyByte dst src) n i m = some m') :
    n = 0 ∨ (dst + i + n ≤ 2 ^ 64 ∧ src + i + n ≤ 2 ^ 64) := by
  cases n with
  | zero => exact .inl rfl
  | succ n =>
    rw [passes_succ] at h
    obtain ⟨x, -, hlast⟩ := Option.bind_eq_some_iff.mp h
    obtain ⟨hsrc, hdst, -⟩ := copyByte_eq_some.mp hlast
    exact .inr ⟨by omega, by omega⟩

/-- A word that is aligned does not reach over the end of the address space. -/
lemma copyWord_eq_passes (hapart : dst + len ≤ src ∨ src + len ≤ dst) (hi : i + 8 ≤ len)
    (hdst : (dst + i) % 8 = 0) (hsrc : (src + i) % 8 = 0) (m : Memory) :
    copyWord dst src i m = passes (copyByte dst src) 8 i m := by
  by_cases hfits : src + i < 2 ^ 64 ∧ dst + i < 2 ^ 64
  · have hsource : paOffset src i = some (src + i) := paOffset_eq_some.mpr ⟨hfits.1, rfl⟩
    have htarget : paOffset dst i = some (dst + i) := paOffset_eq_some.mpr ⟨hfits.2, rfl⟩
    have hword : storeWord m (dst + i) (loadWord m (src + i)) =
        copied m (dst + i) (src + i) (0 + 8) :=
      copied_extend (fun k hk => storeWord_loadWord_add hk) fun b hb => by
        rw [copied_zero]
        exact storeWord_outside hb
    rw [passes_copyByte (by omega) (by omega) (by omega), copyWord, hsource, htarget]
    exact congrArg some hword
  · have hbytes : passes (copyByte dst src) 8 i m = none := by
      apply Option.eq_none_iff_forall_ne_some.mpr
      intro m' h
      rcases fits_of_passes_copyByte h with hzero | hin
      · omega
      · omega
    rw [hbytes, copyWord]
    apply Option.eq_none_iff_forall_ne_some.mpr
    intro m' h
    obtain ⟨source, hsource, hrest⟩ := Option.bind_eq_some_iff.mp h
    obtain ⟨target, htarget, -⟩ := Option.bind_eq_some_iff.mp hrest
    exact hfits ⟨(paOffset_eq_some.mp hsource).1, (paOffset_eq_some.mp htarget).1⟩

/-- **`mem_copy` does what a loop over bytes does**, and traps where it does. -/
theorem memCopy_eq_byteCopy (hapart : dst + len ≤ src ∨ src + len ≤ dst) (m : Memory) :
    memCopy m dst src len = byteCopy m dst src len := by
  rw [memCopy_eq_copyPasses, byteCopy_eq]
  exact copyPasses_eq (fun i x hi hdst hsrc => copyWord_eq_passes hapart hi hdst hsrc x)
    (rangesOverlapSameLen_iff.mpr hapart) m

/-- What a copy did that did not trap. -/
lemma memCopy_eq_some (hdst : dst < 2 ^ 64) (hsrc : src < 2 ^ 64) :
    memCopy m dst src len = some m' ↔ Separate dst src len ∧ m' = copied m dst src len := by
  constructor
  · intro h
    have hapart : dst + len ≤ src ∨ src + len ≤ dst := by
      apply rangesOverlapSameLen_iff.mp
      apply Bool.eq_false_iff.mpr
      intro hoverlap
      rw [memCopy, if_pos hoverlap] at h
      exact absurd h (by simp)
    have hbytes := h
    rw [memCopy_eq_byteCopy hapart, byteCopy_eq] at hbytes
    have hsep : Separate dst src len := by
      rcases fits_of_passes_copyByte hbytes with rfl | hfits
      · exact ⟨by omega, by omega, hapart⟩
      · exact ⟨by omega, by omega, hapart⟩
    rw [memCopy_eq hsep] at h
    exact ⟨hsep, (Option.some.inj h).symm⟩
  · rintro ⟨hsep, rfl⟩
    exact memCopy_eq hsep m

/-! ## Fills -/

lemma fillByte_eq_some :
    fillByte dst value i m = some m' ↔ dst + i < 2 ^ 64 ∧ m' = storeByte m (dst + i) value := by
  refine Option.bind_eq_some_iff.trans ⟨?_, ?_⟩
  · rintro ⟨target, htarget, hm⟩
    obtain ⟨hdst, rfl⟩ := paOffset_eq_some.mp htarget
    exact ⟨hdst, (Option.some.inj hm).symm⟩
  · rintro ⟨hdst, rfl⟩
    exact ⟨_, paOffset_eq_some.mpr ⟨hdst, rfl⟩, rfl⟩

lemma passes_fillByte (hdst : dst + i + n ≤ 2 ^ 64) :
    passes (fillByte dst value) n i m = some (filled m (dst + i) value n) := by
  induction n with
  | zero => exact congrArg some (filled_zero m _ _).symm
  | succ n ih =>
    rw [passes_succ, ih (by omega), Option.bind_eq_bind, Option.bind_some]
    refine fillByte_eq_some.mpr ⟨by omega, (filled_extend ?_ ?_).symm⟩
    · intro k hk
      obtain rfl : k = 0 := by omega
      rw [Nat.add_zero, Nat.add_assoc, storeByte, if_pos rfl]
    · intro b hb
      rw [storeByte, if_neg (by omega)]

lemma fits_of_passes_fillByte (h : passes (fillByte dst value) n i m = some m') :
    n = 0 ∨ dst + i + n ≤ 2 ^ 64 := by
  cases n with
  | zero => exact .inl rfl
  | succ n =>
    rw [passes_succ] at h
    obtain ⟨x, -, hlast⟩ := Option.bind_eq_some_iff.mp h
    have hdst := (fillByte_eq_some.mp hlast).1
    exact .inr (by omega)

lemma fillWord_eq_passes (hdst : (dst + i) % 8 = 0) (m : Memory) :
    fillWord dst (replicateByte value) i m = passes (fillByte dst value) 8 i m := by
  by_cases hfits : dst + i < 2 ^ 64
  · have htarget : paOffset dst i = some (dst + i) := paOffset_eq_some.mpr ⟨hfits, rfl⟩
    have hword : storeWord m (dst + i) (replicateByte value) =
        filled m (dst + i) value (0 + 8) :=
      filled_extend (fun k hk => (storeWord_add hk).trans (byte_replicateByte value hk))
        fun b hb => by
          rw [filled_zero]
          exact storeWord_outside hb
    rw [passes_fillByte (by omega), fillWord, htarget]
    exact congrArg some hword
  · have hbytes : passes (fillByte dst value) 8 i m = none := by
      apply Option.eq_none_iff_forall_ne_some.mpr
      intro m' h
      rcases fits_of_passes_fillByte h with hzero | hin
      · omega
      · omega
    rw [hbytes, fillWord]
    apply Option.eq_none_iff_forall_ne_some.mpr
    intro m' h
    obtain ⟨target, htarget, -⟩ := Option.bind_eq_some_iff.mp h
    exact hfits (paOffset_eq_some.mp htarget).1

/-- **`mem_set` does what a loop over bytes does**, and traps where it does. -/
theorem memSet_eq_byteFill (m : Memory) (dst : ℕ) (value : UInt8) (len : ℕ) :
    memSet m dst value len = byteFill m dst value len := by
  rw [memSet_eq_fillPasses, byteFill_eq]
  exact fillPasses_eq (fun i x _ hdst => fillWord_eq_passes hdst x) m

/-! ## Accesses -/

/-- A load or a store of bytes from an address on. -/
structure Access where
  store : Bool
  addr : ℕ
  width : ℕ
deriving DecidableEq

/-- The access is of one byte or of an aligned word, and within the range. -/
def Access.Within (a : Access) (start len : ℕ) : Prop :=
  start ≤ a.addr ∧ a.addr + a.width ≤ start + len ∧ (a.width = 1 ∨ a.width = 8 ∧ a.addr % 8 = 0)

/-- A pass of a copy loads from one range and stores to the other. -/
def noteCopy (width dst src i : ℕ) (log : List Access) : Option (List Access) :=
  some (log ++ [⟨false, src + i, width⟩, ⟨true, dst + i, width⟩])

/-- A pass of a fill stores. -/
def noteFill (width dst i : ℕ) (log : List Access) : Option (List Access) :=
  some (log ++ [⟨true, dst + i, width⟩])

/-- The accesses of `mem_copy`, which makes no others before a trap. -/
def copyAccesses (dst src len : ℕ) : Option (List Access) :=
  copyPasses (noteCopy 1 dst src) (noteCopy 8 dst src) dst src len []

/-- The accesses of `mem_set`, which makes no others before a trap. -/
def fillAccesses (dst len : ℕ) : Option (List Access) :=
  fillPasses (noteFill 1 dst) (noteFill 8 dst) dst len []

section Accesses

variable {byte word : ℕ → σ → Option σ} {Inv : σ → Prop} {x : σ}

/-- The last loop keeps what its passes keep. -/
lemma byteLoop_keeps (hbyte : ∀ i x, i < len → Inv x → ∃ y, byte i x = some y ∧ Inv y)
    (hinv : Inv x) (i : ℕ) :
    ∃ y, (do
      let (_, y) ← loopWhile (fun i => i < len) 1 byte len i x
      return y) = some y ∧ Inv y := by
  obtain ⟨j, y, hloop, hkept, -⟩ := loopWhile_spec (fun _ x => Inv x) len
    (fun i x (hcond : decide (i < len) = true) => hbyte i x (of_decide_eq_true hcond)) hinv
  rw [hloop]
  exact ⟨y, rfl, hkept⟩

/-- The loops in front of the last one keep what bytes and aligned words keep. -/
lemma wordLoops_keep (hlen : 8 ≤ len)
    (hbyte : ∀ i x, i < len → Inv x → ∃ y, byte i x = some y ∧ Inv y)
    (hword : ∀ i x, i + 8 ≤ len → (dst + i) % 8 = 0 → Inv x → ∃ y, word i x = some y ∧ Inv y)
    (hinv : Inv x) :
    ∃ i y, (do
      let (i, x) ← loopWhile (fun i => addrOffsetMod8 dst i ≠ 0) 1 byte len 0 x
      loopWhile (fun i => i ≤ len - 8) 8 word len i x) = some (i, y) ∧ Inv y := by
  have hfirst : ∀ i x, decide (addrOffsetMod8 dst i ≠ 0) = true →
      i ≤ (8 - dst % 8) % 8 ∧ Inv x →
      ∃ y, byte i x = some y ∧ i + 1 ≤ (8 - dst % 8) % 8 ∧ Inv y := by
    rintro i x hcond ⟨hi, hx⟩
    have hnext := succ_le_of_addrOffsetMod8_ne (of_decide_eq_true hcond) hi
    obtain ⟨y, hy, hkept⟩ := hbyte i x (by omega) hx
    exact ⟨y, hy, hnext, hkept⟩
  have hsecond : ∀ i x, decide (i ≤ len - 8) = true → (dst + i) % 8 = 0 ∧ Inv x →
      ∃ y, word i x = some y ∧ (dst + (i + 8)) % 8 = 0 ∧ Inv y := by
    rintro i x hcond ⟨halign, hx⟩
    have hi : i ≤ len - 8 := of_decide_eq_true hcond
    obtain ⟨y, hy, hkept⟩ := hword i x (by omega) halign hx
    exact ⟨y, hy, by omega, hkept⟩
  obtain ⟨i, y, hhead, ⟨hi, hy⟩, hend⟩ := loopWhile_spec _ len hfirst ⟨Nat.zero_le _, hinv⟩
  have halign : (dst + i) % 8 = 0 := by
    rw [← addrOffsetMod8_eq]
    by_contra hne
    have hcount := hend (decide_eq_true hne)
    omega
  obtain ⟨j, z, hbody, ⟨-, hz⟩, -⟩ := loopWhile_spec _ len hsecond ⟨halign, hy⟩
  exact ⟨j, z, by rw [hhead]; exact hbody, hz⟩

lemma copyPasses_keep (hapart : dst + len ≤ src ∨ src + len ≤ dst)
    (hbyte : ∀ i x, i < len → Inv x → ∃ y, byte i x = some y ∧ Inv y)
    (hword : ∀ i x, i + 8 ≤ len → (dst + i) % 8 = 0 → (src + i) % 8 = 0 → Inv x →
      ∃ y, word i x = some y ∧ Inv y)
    (hinv : Inv x) : ∃ y, copyPasses byte word dst src len x = some y ∧ Inv y := by
  rw [copyPasses, rangesOverlapSameLen_iff.mpr hapart, if_neg Bool.false_ne_true]
  by_cases hwords : 8 ≤ len ∧ (dst ^^^ src) &&& 7 = 0
  · have hmod := mod_eq_of_xor_and hwords.2
    obtain ⟨i, y, hloops, hy⟩ := wordLoops_keep hwords.1 hbyte
      (fun i x hi halign => hword i x hi halign (by omega)) hinv
    rw [if_pos hwords, hloops]
    exact byteLoop_keeps hbyte hy i
  · rw [if_neg hwords]
    exact byteLoop_keeps hbyte hinv 0

lemma fillPasses_keep (hbyte : ∀ i x, i < len → Inv x → ∃ y, byte i x = some y ∧ Inv y)
    (hword : ∀ i x, i + 8 ≤ len → (dst + i) % 8 = 0 → Inv x → ∃ y, word i x = some y ∧ Inv y)
    (hinv : Inv x) : ∃ y, fillPasses byte word dst len x = some y ∧ Inv y := by
  rw [fillPasses]
  by_cases hwords : 8 ≤ len
  · obtain ⟨i, y, hloops, hy⟩ := wordLoops_keep hwords hbyte hword hinv
    rw [if_pos hwords, hloops]
    exact byteLoop_keeps hbyte hy i
  · rw [if_neg hwords]
    exact byteLoop_keeps hbyte hinv 0

end Accesses

/-- A load is from the source and a store is to the destination. -/
def Access.OfCopy (dst src len : ℕ) (a : Access) : Prop :=
  if a.store then a.Within dst len else a.Within src len

lemma noteCopy_keeps {width : ℕ} {log : List Access} (hi : i + width ≤ len)
    (hwidth : width = 1 ∨ width = 8 ∧ (dst + i) % 8 = 0 ∧ (src + i) % 8 = 0)
    (hlog : ∀ a ∈ log, a.OfCopy dst src len) :
    ∃ log', noteCopy width dst src i log = some log' ∧ ∀ a ∈ log', a.OfCopy dst src len := by
  refine ⟨_, rfl, fun a ha => ?_⟩
  rcases List.mem_append.mp ha with ha | ha
  · exact hlog a ha
  · rw [List.mem_cons, List.mem_singleton] at ha
    rcases ha with rfl | rfl
    · exact ⟨Nat.le_add_right _ _, by dsimp only; omega, by dsimp only; omega⟩
    · exact ⟨Nat.le_add_right _ _, by dsimp only; omega, by dsimp only; omega⟩

lemma noteFill_keeps {width : ℕ} {log : List Access} (hi : i + width ≤ len)
    (hwidth : width = 1 ∨ width = 8 ∧ (dst + i) % 8 = 0)
    (hlog : ∀ a ∈ log, a.store = true ∧ a.Within dst len) :
    ∃ log', noteFill width dst i log = some log' ∧
      ∀ a ∈ log', a.store = true ∧ a.Within dst len := by
  refine ⟨_, rfl, fun a ha => ?_⟩
  rcases List.mem_append.mp ha with ha | ha
  · exact hlog a ha
  · obtain rfl := List.mem_singleton.mp ha
    exact ⟨rfl, Nat.le_add_right _ _, by dsimp only; omega, by dsimp only; omega⟩

/-- The accesses of a copy are within its ranges, and those of words are aligned. -/
lemma copyAccesses_within (hapart : dst + len ≤ src ∨ src + len ≤ dst) :
    ∃ log, copyAccesses dst src len = some log ∧ ∀ a ∈ log, a.OfCopy dst src len :=
  copyPasses_keep hapart (fun _ _ hi hlog => noteCopy_keeps hi (.inl rfl) hlog)
    (fun _ _ hi hdst hsrc hlog => noteCopy_keeps hi (.inr ⟨rfl, hdst, hsrc⟩) hlog)
    (fun _ ha => absurd ha List.not_mem_nil)

/-- The accesses of a fill are stores within its range, and those of words are aligned. -/
lemma fillAccesses_within (dst len : ℕ) :
    ∃ log, fillAccesses dst len = some log ∧ ∀ a ∈ log, a.store = true ∧ a.Within dst len :=
  fillPasses_keep (fun _ _ hi hlog => noteFill_keeps hi (.inl rfl) hlog)
    (fun _ _ hi hdst hlog => noteFill_keeps hi (.inr ⟨rfl, hdst⟩) hlog)
    (fun _ ha => absurd ha List.not_mem_nil)

/-! ## Moves -/

lemma moveByte_eq (d s : ℕ) : moveByte d s = copyByte d s := by
  funext i m
  rw [moveByte, copyByte, paOffset, paOffset]

lemma copyViaTemporary_eq (m : Memory) (d s n : ℕ) :
    copyViaTemporary m d s n = copied m d s n := by
  funext b
  rw [copyViaTemporary, writeBytes, copied]
  by_cases hb : d ≤ b ∧ b < d + n
  · have hlt : b - d < (bytesAt m s n).length := by
      rw [length_bytesAt]
      omega
    rw [if_pos hb.1, if_pos hb, List.getD_eq_getElem _ _ hlt]
    simp only [bytesAt, List.getElem_map, List.getElem_range]
  · rw [if_neg hb]
    split
    · apply List.getD_eq_default
      rw [length_bytesAt]
      omega
    · rfl

/-- The loop that goes down reads each byte before it is written over. -/
lemma moveDown_eq (hd : d + n ≤ 2 ^ 64) (hs : s + n ≤ 2 ^ 64) (hle : s ≤ d) (m : Memory) :
    moveDown d s n m = some (copied m d s n) := by
  induction n generalizing m with
  | zero => exact congrArg some (copied_zero m d s).symm
  | succ n ih =>
    have hbyte : moveByte d s n m = some (storeByte m (d + n) (m (s + n))) := by
      rw [moveByte_eq]
      exact copyByte_eq_some.mpr ⟨by omega, by omega, rfl⟩
    rw [moveDown, hbyte, Option.bind_eq_bind, Option.bind_some, ih (by omega) (by omega)]
    refine congrArg some (funext fun b => ?_)
    rw [copied, copied]
    by_cases hlow : d ≤ b ∧ b < d + n
    · rw [if_pos hlow, if_pos (by omega), storeByte, if_neg (by omega)]
    · rw [if_neg hlow, storeByte]
      by_cases hlast : b = d + n
      · rw [if_pos hlast, if_pos (by omega), hlast, Nat.add_sub_cancel_left]
      · rw [if_neg hlast, if_neg (by omega)]

/-- **A move copies through a temporary**, whether the ranges overlap or not. -/
theorem moveBytes_eq (hd : d + n ≤ 2 ^ 64) (hs : s + n ≤ 2 ^ 64) (m : Memory) :
    moveBytes m d s n = some (copyViaTemporary m d s n) := by
  rw [copyViaTemporary_eq, moveBytes]
  by_cases hnone : d = s ∨ n = 0
  · have hsame : copied m d s n = m := by
      funext b
      rw [copied]
      split
      · next hb =>
        have hds : d = s := by omega
        rw [← hds, Nat.add_sub_cancel' hb.1]
      · rfl
    rw [if_pos hnone, hsame]
  · rw [if_neg hnone]
    by_cases hlt : d < s
    · have hup := byteLoop_eq (moveByte d s) (Nat.zero_le n) m
      rw [moveByte_eq, Nat.sub_zero, passes_copyByte (by omega) (by omega) (by omega)] at hup
      rw [if_pos hlt, moveByte_eq, hup]
      rfl
    · rw [if_neg hlt, moveDown_eq hd hs (by omega)]

lemma memmove_eq (hd : d + n ≤ 2 ^ 64) (hs : s + n ≤ 2 ^ 64) (m : Memory) :
    memmove m d s n =
      if d = 0 ∨ s = 0 then none else some (d, copyViaTemporary m d s n) := by
  by_cases hdst : d = 0
  · subst hdst
    exact (if_pos (Or.inl rfl)).symm
  · rw [memmove, nonNull_of_ne hdst]
    by_cases hsrc : s = 0
    · subst hsrc
      exact (if_pos (Or.inr rfl)).symm
    · rw [nonNull_of_ne hsrc, if_neg (not_or.mpr ⟨hdst, hsrc⟩)]
      simp only [Option.bind_eq_bind, Option.bind_some, moveBytes_eq hd hs, nonNull_of_ne hdst]
      rfl

/-! ## All of them -/

/-- **Copies, fills and moves** leave memory as loops over bytes do, with accesses within their
ranges.  A move traps on a null pointer. -/
theorem byte_loops (m : Memory) (dst src len : UInt64) (value : UInt8) :
    (dst.toNat + len.toNat ≤ src.toNat ∨ src.toNat + len.toNat ≤ dst.toNat →
      memCopy m dst.toNat src.toNat len.toNat = byteCopy m dst.toNat src.toNat len.toNat ∧
        ∃ log, copyAccesses dst.toNat src.toNat len.toNat = some log ∧
          ∀ a ∈ log, a.OfCopy dst.toNat src.toNat len.toNat) ∧
      (memSet m dst.toNat value len.toNat = byteFill m dst.toNat value len.toNat ∧
        ∃ log, fillAccesses dst.toNat len.toNat = some log ∧
          ∀ a ∈ log, a.store = true ∧ a.Within dst.toNat len.toNat) ∧
      (dst.toNat + len.toNat ≤ 2 ^ 64 → src.toNat + len.toNat ≤ 2 ^ 64 →
        memmove m dst.toNat src.toNat len.toNat =
          if dst.toNat = 0 ∨ src.toNat = 0 then none
          else some (dst.toNat, copyViaTemporary m dst.toNat src.toNat len.toNat)) :=
  ⟨fun hapart => ⟨memCopy_eq_byteCopy hapart m, copyAccesses_within hapart⟩,
    ⟨memSet_eq_byteFill m _ value _, fillAccesses_within _ _⟩, fun hd hs => memmove_eq hd hs m⟩

end ModernC.Libc
