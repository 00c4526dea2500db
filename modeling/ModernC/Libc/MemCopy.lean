import ModernC.Alloc.Addresses
import ModernC.Framework.Texts

/-!
# Copying and filling memory

Both go byte by byte up to a word boundary, then word by word, then byte by byte.  They do what a
loop over single bytes would do, and trap only where a copy overlaps itself.
-/

namespace ModernC.Libc

open Framework Alloc

variable {m : Memory} {dst src len : ℕ} {value : UInt8}

/-! ## The program -/

def rangesOverlapSameLen (a b len : ℕ) : Bool :=
  if len = 0 then false
  else if a ≤ b then b - a < len
  else a - b < len

def addrOffsetMod8 (base off : ℕ) : ℕ := ((base &&& 7) + (off &&& 7)) &&& 7

def copyByte (dst src i : ℕ) (m : Memory) : Option Memory := do
  let source ← paOffset src i
  let target ← paOffset dst i
  return storeByte m target (m source)

def copyWord (dst src i : ℕ) (m : Memory) : Option Memory := do
  let source ← paOffset src i
  let target ← paOffset dst i
  return storeWord m target (loadWord m source)

/-- The passes of `mem_copy` before its last one. -/
def copyWords (dst src len : ℕ) (m : Memory) : Option (ℕ × Memory) :=
  if 8 ≤ len ∧ (dst ^^^ src) &&& 7 = 0 then do
    let (i, m) ← loopWhile (fun i => addrOffsetMod8 dst i ≠ 0) 1 (copyByte dst src) len 0 m
    loopWhile (fun i => i ≤ len - 8) 8 (copyWord dst src) len i m
  else some (0, m)

def memCopy (m : Memory) (dst src len : ℕ) : Option Memory :=
  if rangesOverlapSameLen dst src len then none
  else do
    let (i, m) ← copyWords dst src len m
    let (_, m) ← loopWhile (fun i => i < len) 1 (copyByte dst src) len i m
    return m

def fillByte (dst : ℕ) (value : UInt8) (i : ℕ) (m : Memory) : Option Memory := do
  let target ← paOffset dst i
  return storeByte m target value

def fillWord (dst w i : ℕ) (m : Memory) : Option Memory := do
  let target ← paOffset dst i
  return storeWord m target w

/-- The word whose eight bytes are all the same. -/
def replicateByte (value : UInt8) : ℕ :=
  let w := value.toNat
  let w := w ||| w <<< 8
  let w := w ||| w <<< 16
  w ||| w <<< 32

/-- The passes of `mem_set` before its last one. -/
def fillWords (dst : ℕ) (value : UInt8) (len : ℕ) (m : Memory) : Option (ℕ × Memory) :=
  if 8 ≤ len then do
    let (i, m) ← loopWhile (fun i => addrOffsetMod8 dst i ≠ 0) 1 (fillByte dst value) len 0 m
    loopWhile (fun i => i ≤ len - 8) 8 (fillWord dst (replicateByte value)) len i m
  else some (0, m)

def memSet (m : Memory) (dst : ℕ) (value : UInt8) (len : ℕ) : Option Memory := do
  let (i, m) ← fillWords dst value len m
  let (_, m) ← loopWhile (fun i => i < len) 1 (fillByte dst value) len i m
  return m

/-! ## Its parts -/

lemma rangesOverlapSameLen_eq_false (h : dst + len ≤ src ∨ src + len ≤ dst) :
    rangesOverlapSameLen dst src len = false := by
  rw [rangesOverlapSameLen]
  split
  · rfl
  · split
    · exact decide_eq_false (by omega)
    · exact decide_eq_false (by omega)

lemma addrOffsetMod8_eq (base off : ℕ) : addrOffsetMod8 base off = (base + off) % 8 := by
  have hmask : ∀ n : ℕ, n &&& 7 = n % 8 := fun n => Nat.and_two_pow_sub_one_eq_mod n 3
  rw [addrOffsetMod8, hmask, hmask, hmask, ← Nat.add_mod]

variable {i : ℕ}

/-- The passes up to a word boundary do not go beyond eight bytes. -/
lemma succ_le_of_addrOffsetMod8_ne (h : addrOffsetMod8 dst i ≠ 0)
    (hi : i ≤ (8 - dst % 8) % 8) : i + 1 ≤ (8 - dst % 8) % 8 := by
  rw [addrOffsetMod8_eq] at h
  omega

lemma byte_replicateByte (value : UInt8) {k : ℕ} (hk : k < 8) :
    UInt8.ofNat (replicateByte value / 256 ^ k) = value := by
  have hall : ∀ v : Fin 256, ∀ k : Fin 8,
      UInt8.ofNat (replicateByte (UInt8.ofNat v) / 256 ^ k.val) = UInt8.ofNat v := by
    decide +kernel
  have hvalue := hall ⟨value.toNat, value.toNat_lt⟩ ⟨k, hk⟩
  simpa using hvalue

/-! ## Passes over a range -/

section

variable {reached : ℕ → Memory} {byteAt wordAt : ℕ → Memory → Option Memory}

/-- The passes over single bytes up to a word boundary and over words behind it. -/
lemma passes_words (dst : ℕ) (hbyte : ∀ i < len, byteAt i (reached i) = some (reached (i + 1)))
    (hword : ∀ i, i + 8 ≤ len → wordAt i (reached i) = some (reached (i + 8)))
    (hlen : 8 ≤ len) (hm : m = reached 0) :
    ∃ i, (do
        let (i, m) ← loopWhile (fun i => addrOffsetMod8 dst i ≠ 0) 1 byteAt len 0 m
        loopWhile (fun i => i ≤ len - 8) 8 wordAt len i m) = some (i, reached i) ∧ i ≤ len := by
  have hhead : ∀ i x, decide (addrOffsetMod8 dst i ≠ 0) = true →
      i ≤ (8 - dst % 8) % 8 ∧ x = reached i →
      ∃ y, byteAt i x = some y ∧ i + 1 ≤ (8 - dst % 8) % 8 ∧ y = reached (i + 1) := by
    rintro i _ hcond ⟨hi, rfl⟩
    have hnext := succ_le_of_addrOffsetMod8_ne (of_decide_eq_true hcond) hi
    exact ⟨_, hbyte i (by omega), hnext, rfl⟩
  have hbody : ∀ i x, decide (i ≤ len - 8) = true → i ≤ len ∧ x = reached i →
      ∃ y, wordAt i x = some y ∧ i + 8 ≤ len ∧ y = reached (i + 8) := by
    rintro i _ hcond ⟨-, rfl⟩
    have hle : i ≤ len - 8 := of_decide_eq_true hcond
    exact ⟨_, hword i (by omega), by omega, rfl⟩
  obtain ⟨i, _, hfirst, ⟨hi, rfl⟩, -⟩ := loopWhile_spec _ len hhead ⟨Nat.zero_le _, hm⟩
  obtain ⟨j, _, hlast, ⟨hj, rfl⟩, -⟩ := loopWhile_spec (i := i) _ len hbody ⟨by omega, rfl⟩
  rw [hfirst]
  exact ⟨j, hlast, hj⟩

/-- The last passes, over single bytes to the end. -/
lemma passes_bytes (hbyte : ∀ i < len, byteAt i (reached i) = some (reached (i + 1)))
    (hi : i ≤ len) :
    loopWhile (fun i => i < len) 1 byteAt len i (reached i) = some (len, reached len) := by
  have hbody : ∀ i x, decide (i < len) = true → i ≤ len ∧ x = reached i →
      ∃ y, byteAt i x = some y ∧ i + 1 ≤ len ∧ y = reached (i + 1) := by
    rintro i _ hcond ⟨-, rfl⟩
    have hlt : i < len := of_decide_eq_true hcond
    exact ⟨_, hbyte i hlt, hlt, rfl⟩
  obtain ⟨j, _, hloop, ⟨hj, rfl⟩, hend⟩ := loopWhile_spec _ len hbody ⟨hi, rfl⟩
  have hlen : j = len := by
    by_contra hne
    have hcount := hend (decide_eq_true (by omega))
    omega
  rw [hloop, hlen]

end

/-! ## Copying -/

/-- A copy whose ranges lie in the address space and have no byte in common. -/
structure Separate (dst src len : ℕ) : Prop where
  dst_le : dst + len ≤ 2 ^ 64
  src_le : src + len ≤ 2 ^ 64
  apart : dst + len ≤ src ∨ src + len ≤ dst

lemma Separate.source {n : ℕ} (hsep : Separate dst src len) (hle : i + n ≤ len) :
    ∀ k < n, copied m dst src i (src + i + k) = m (src + i + k) := by
  intro k hk
  have hapart := hsep.apart
  exact copied_outside (by omega)

lemma Separate.copyByte (hsep : Separate dst src len) (hlt : i < len) :
    Libc.copyByte dst src i (copied m dst src i) = some (copied m dst src (i + 1)) := by
  have hdst := hsep.dst_le
  have hsrc := hsep.src_le
  have hsource : paOffset src i = some (src + i) := paOffset_eq_some.mpr ⟨by omega, rfl⟩
  have htarget : paOffset dst i = some (dst + i) := paOffset_eq_some.mpr ⟨by omega, rfl⟩
  rw [Libc.copyByte, hsource, htarget]
  refine congrArg some (copied_extend ?_ ?_)
  · intro k hk
    obtain rfl : k = 0 := by omega
    exact (if_pos rfl).trans (hsep.source (m := m) (n := 1) hlt 0 hk)
  · intro b hb
    rw [storeByte, if_neg (by omega)]

lemma Separate.copyWord (hsep : Separate dst src len) (hle : i + 8 ≤ len) :
    Libc.copyWord dst src i (copied m dst src i) = some (copied m dst src (i + 8)) := by
  have hdst := hsep.dst_le
  have hsrc := hsep.src_le
  have hsource : paOffset src i = some (src + i) := paOffset_eq_some.mpr ⟨by omega, rfl⟩
  have htarget : paOffset dst i = some (dst + i) := paOffset_eq_some.mpr ⟨by omega, rfl⟩
  rw [Libc.copyWord, hsource, htarget]
  refine congrArg some (copied_extend ?_ ?_)
  · intro k hk
    rw [storeWord_loadWord_add hk]
    exact hsep.source hle k hk
  · exact fun b hb => storeWord_outside hb

lemma Separate.copyWords (hsep : Separate dst src len) (m : Memory) :
    ∃ i, Libc.copyWords dst src len m = some (i, copied m dst src i) ∧ i ≤ len := by
  rw [Libc.copyWords]
  by_cases hwords : 8 ≤ len ∧ (dst ^^^ src) &&& 7 = 0
  · rw [if_pos hwords]
    exact passes_words dst (fun _ => hsep.copyByte) (fun _ => hsep.copyWord) hwords.1
      (copied_zero m dst src).symm
  · rw [if_neg hwords]
    exact ⟨0, by rw [copied_zero], Nat.zero_le len⟩

/-- **A copy of ranges apart** moves every byte and traps nowhere. -/
theorem memCopy_eq (hsep : Separate dst src len) (m : Memory) :
    memCopy m dst src len = some (copied m dst src len) := by
  obtain ⟨i, hwords, hi⟩ := hsep.copyWords m
  rw [memCopy, rangesOverlapSameLen_eq_false hsep.apart, hwords]
  simp only [Bool.false_eq_true, if_false, Option.bind_eq_bind, Option.bind_some,
    passes_bytes (fun _ => hsep.copyByte) hi]
  rfl

/-! ## Filling -/

lemma fillByte_eq (hdst : dst + len ≤ 2 ^ 64) (hlt : i < len) :
    fillByte dst value i (filled m dst value i) = some (filled m dst value (i + 1)) := by
  have htarget : paOffset dst i = some (dst + i) := paOffset_eq_some.mpr ⟨by omega, rfl⟩
  rw [fillByte, htarget]
  refine congrArg some (filled_extend ?_ ?_)
  · intro k hk
    obtain rfl : k = 0 := by omega
    exact if_pos rfl
  · intro b hb
    rw [storeByte, if_neg (by omega)]

lemma fillWord_eq (hdst : dst + len ≤ 2 ^ 64) (hle : i + 8 ≤ len) :
    fillWord dst (replicateByte value) i (filled m dst value i) =
      some (filled m dst value (i + 8)) := by
  have htarget : paOffset dst i = some (dst + i) := paOffset_eq_some.mpr ⟨by omega, rfl⟩
  rw [fillWord, htarget]
  refine congrArg some (filled_extend ?_ ?_)
  · intro k hk
    rw [storeWord_add hk, byte_replicateByte value hk]
  · exact fun b hb => storeWord_outside hb

lemma fillWords_spec (hdst : dst + len ≤ 2 ^ 64) (m : Memory) (value : UInt8) :
    ∃ i, fillWords dst value len m = some (i, filled m dst value i) ∧ i ≤ len := by
  rw [fillWords]
  by_cases hwords : 8 ≤ len
  · rw [if_pos hwords]
    exact passes_words dst (fun _ => fillByte_eq hdst) (fun _ => fillWord_eq hdst) hwords
      (filled_zero m dst value).symm
  · rw [if_neg hwords]
    exact ⟨0, by rw [filled_zero], Nat.zero_le len⟩

/-- **A fill** writes every byte and traps nowhere. -/
theorem memSet_eq (hdst : dst + len ≤ 2 ^ 64) (m : Memory) (value : UInt8) :
    memSet m dst value len = some (filled m dst value len) := by
  obtain ⟨i, hwords, hi⟩ := fillWords_spec hdst m value
  rw [memSet, hwords]
  simp only [Option.bind_eq_bind, Option.bind_some, passes_bytes (fun _ => fillByte_eq hdst) hi]
  rfl

end ModernC.Libc
