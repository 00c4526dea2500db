import Mathlib.Data.List.Count
import Mathlib.Data.Nat.Log
import Mathlib.Data.Nat.Size
import Mathlib.Order.Bounds.Defs
import ModernC.Framework.CheckedWords
import ModernC.Framework.WhileLoops

/-!
# Counting bits

The functions of `std/bits` on words of 32 bits, whose arithmetic traps on overflow.  Their loops
halve a word until nothing is left of it, or double one until it is large enough.
-/

namespace ModernC.Numbers

open Framework

variable {x a bits n count r : ℕ}

/-! ## The program -/

/-- The variables of a loop that takes a word apart. -/
structure Halving where
  n : ℕ
  count : ℕ

/-- A pass of `count_ones`. -/
def countBit (s : Halving) : Option Halving := do
  let count ← checkedAdd 32 s.count (s.n &&& 1)
  let n ← checkedShr 32 s.n 1
  return ⟨n, count⟩

/-- A pass of `trailing_zeros` and of `ilog2`. -/
def dropBit (s : Halving) : Option Halving := do
  let n ← checkedShr 32 s.n 1
  let count ← checkedAdd 32 s.count 1
  return ⟨n, count⟩

def countOnes (x : ℕ) : Option ℕ := do
  let s ← whileLoop (fun s => s.n != 0) countBit 32 ⟨x, 0⟩
  return s.count

/-- `is_aligned` of `std/bits`, on words of 64 bits. -/
def isAligned (x a : ℕ) : Option Bool := do
  let mask ← checkedSub a 1
  return x &&& mask == 0

def lowMask (bits : ℕ) : Option ℕ :=
  if 32 ≤ bits then some 0xFFFFFFFF
  else do
    let bit ← checkedShl 32 1 bits
    checkedSub bit 1

def isSingleBit (x : ℕ) : Option Bool := do
  let count ← countOnes x
  return count == 1

def nextPowerOfTwo (x : ℕ) : Option ℕ :=
  whileLoop (fun p => decide (p < x)) (fun p => checkedMul 32 p 2) 32 1

def trailingZeros (x : ℕ) : Option ℕ :=
  if x = 0 then some 32
  else do
    let s ← whileLoop (fun s => s.n &&& 1 == 0) dropBit 32 ⟨x, 0⟩
    return s.count

/-! ## Bits of a word -/

/-- The number of set bits. -/
def setBits (x : ℕ) : ℕ := (List.range 32).countP fun i => x.testBit i

/-- The powers of two that are not below a word. -/
def powersFrom (x : ℕ) : Set ℕ := {p | (∃ k, p = 2 ^ k) ∧ x ≤ p}

lemma setBits_le (x : ℕ) : setBits x ≤ 32 := by
  have hle := List.countP_le_length (p := fun i => x.testBit i) (l := List.range 32)
  rwa [List.length_range] at hle

/-- A word has its lowest bit and the bits of its half. -/
lemma setBits_half (hx : x < 2 ^ 32) : setBits x = x % 2 + setBits (x / 2) := by
  have hlow : setBits x = x % 2 + (List.range 31).countP fun i => (x / 2).testBit i := by
    rw [setBits, List.range_succ_eq_map, List.countP_cons, List.countP_map]
    have hrest : (fun i => x.testBit i) ∘ Nat.succ = fun i => (x / 2).testBit i :=
      funext fun i => Nat.testBit_succ x i
    rw [hrest, Nat.testBit_zero]
    by_cases hodd : x % 2 = 1
    · rw [if_pos (decide_eq_true hodd), hodd, Nat.add_comm]
    · rw [if_neg (by simpa using hodd)]
      omega
  have htop : setBits (x / 2) = (List.range 31).countP fun i => (x / 2).testBit i := by
    have hbit : (x / 2).testBit 31 = false := Nat.testBit_lt_two_pow (by omega)
    rw [setBits, List.range_succ, List.countP_append, List.countP_singleton, hbit]
    rfl
  rw [hlow, htop]

lemma setBits_zero : setBits 0 = 0 := by
  simp [setBits]

lemma size_half_lt (hx : x ≠ 0) : (x / 2).size < x.size := by
  have hpos : 0 < x.size := Nat.size_pos.mpr (Nat.pos_of_ne_zero hx)
  have hlt : x < 2 ^ (x.size - 1 + 1) := by
    rw [Nat.sub_add_cancel hpos]
    exact Nat.lt_size_self x
  have hhalf : (x / 2).size ≤ x.size - 1 := by
    rw [Nat.size_le]
    rw [Nat.pow_succ] at hlt
    omega
  omega

/-! ## Passes -/

lemma checkedShr_one (x : ℕ) : checkedShr 32 x 1 = some (x / 2) :=
  checkedShr_eq_some.mpr ⟨by omega, by rw [Nat.pow_one]⟩

lemma countBit_eq (h : count + n % 2 < 2 ^ 32) :
    countBit ⟨n, count⟩ = some ⟨n / 2, count + n % 2⟩ := by
  have hadd : checkedAdd 32 count (n &&& 1) = some (count + n % 2) := by
    rw [Nat.and_one_is_mod]
    exact checkedAdd_eq_some.mpr ⟨h, rfl⟩
  simp only [countBit, hadd, checkedShr_one]
  rfl

lemma dropBit_eq (h : count + 1 < 2 ^ 32) : dropBit ⟨n, count⟩ = some ⟨n / 2, count + 1⟩ := by
  have hadd : checkedAdd 32 count 1 = some (count + 1) := checkedAdd_eq_some.mpr ⟨h, rfl⟩
  simp only [dropBit, hadd, checkedShr_one]
  rfl

/-! ## Results -/

/-- The bits that were counted and those that are left are those of the word. -/
def CountingBits (x : ℕ) (s : Halving) : Prop :=
  s.count + setBits s.n = setBits x ∧ s.n < 2 ^ 32

lemma CountingBits.step {s : Halving} (h : CountingBits x s) (hn : (s.n != 0) = true) :
    ∃ next, countBit s = some next ∧ CountingBits x next ∧ next.n.size < s.n.size := by
  obtain ⟨n, count⟩ := s
  obtain ⟨hcount, hlt⟩ : count + setBits n = setBits x ∧ n < 2 ^ 32 := h
  have hle := setBits_le x
  have hhalf := setBits_half hlt
  refine ⟨_, countBit_eq (by omega), ⟨?_, ?_⟩, size_half_lt (bne_iff_ne.mp hn)⟩
  · show count + n % 2 + setBits (n / 2) = setBits x
    omega
  · show n / 2 < 2 ^ 32
    omega

lemma countOnes_eq (hx : x < 2 ^ 32) : countOnes x = some (setBits x) := by
  have hstart : CountingBits x ⟨x, 0⟩ := ⟨Nat.zero_add _, hx⟩
  obtain ⟨s, hloop, ⟨hcount, -⟩, hend⟩ := whileLoop_spec (CountingBits x) (fun s => s.n.size)
    (fun s hcond h => h.step hcond) hstart (Nat.size_le.mpr hx)
  have hzero : s.n = 0 := by simpa using hend
  rw [hzero, setBits_zero, Nat.add_zero] at hcount
  rw [countOnes, hloop, ← hcount]
  rfl

lemma isSingleBit_eq (hx : x < 2 ^ 32) : isSingleBit x = some (setBits x == 1) := by
  rw [isSingleBit, countOnes_eq hx]
  rfl

lemma isAligned_eq (ha : a.isPowerOfTwo) : isAligned x a = some (decide (a ∣ x)) := by
  obtain ⟨k, rfl⟩ := ha
  have hmask : checkedSub (2 ^ k) 1 = some (2 ^ k - 1) :=
    checkedSub_eq_some.mpr ⟨Nat.one_le_two_pow, rfl⟩
  have hbits : (x &&& (2 ^ k - 1) == 0) = decide (2 ^ k ∣ x) := by
    rw [Nat.and_two_pow_sub_one_eq_mod, Bool.eq_iff_iff, beq_iff_eq, decide_eq_true_eq,
      Nat.dvd_iff_mod_eq_zero]
  rw [isAligned, hmask]
  exact congrArg some hbits

lemma lowMask_eq (bits : ℕ) : lowMask bits = some (2 ^ min bits 32 - 1) := by
  rw [lowMask]
  by_cases hbits : 32 ≤ bits
  · have hfull : 2 ^ 32 - 1 = 0xFFFFFFFF := by omega
    rw [if_pos hbits, Nat.min_eq_right hbits, hfull]
  · have hpow : 2 ^ bits < 2 ^ 32 := Nat.pow_lt_pow_right (by omega) (by omega)
    have hshl : checkedShl 32 1 bits = some (2 ^ bits) :=
      checkedShl_eq_some.mpr ⟨by omega, by omega, (Nat.one_mul _).symm⟩
    rw [if_neg hbits, hshl, Nat.min_eq_left (by omega)]
    exact checkedSub_eq_some.mpr ⟨Nat.one_le_two_pow, rfl⟩

/-- The powers of two below the one in the loop were too small. -/
def Doubling (x p : ℕ) : Prop := ∃ k < 32, p = 2 ^ k ∧ ∀ j < k, 2 ^ j < x

lemma doubling_one (x : ℕ) : Doubling x 1 := ⟨0, by omega, rfl, by omega⟩

variable {p : ℕ}

lemma Doubling.double (h : Doubling x p) (hlt : p < x) (hfits : p * 2 < 2 ^ 32) :
    Doubling x (p * 2) := by
  obtain ⟨k, -, rfl, hsmall⟩ := h
  rw [← Nat.pow_succ] at hfits ⊢
  refine ⟨k + 1, (Nat.pow_lt_pow_iff_right (by omega)).mp hfits, rfl, fun j hj => ?_⟩
  rcases Nat.lt_succ_iff_lt_or_eq.mp hj with hj | rfl
  · exact hsmall j hj
  · exact hlt

lemma Doubling.isLeast (h : Doubling x p) (hle : x ≤ p) : IsLeast (powersFrom x) p := by
  obtain ⟨k, -, rfl, hsmall⟩ := h
  refine ⟨⟨⟨k, rfl⟩, hle⟩, ?_⟩
  rintro _ ⟨⟨j, rfl⟩, hj⟩
  apply Nat.pow_le_pow_right (by omega)
  by_contra hlt
  have hless := hsmall j (by omega)
  omega

lemma Doubling.le (h : Doubling x p) : p ≤ 2 ^ 31 := by
  obtain ⟨k, hk, rfl, -⟩ := h
  exact Nat.pow_le_pow_right (by omega) (by omega)

/-- The loop reaches a power of two that is large enough if there is one of 32 bits. -/
lemma nextPowerOfTwo_spec (hx : x ≤ 2 ^ 31) :
    ∃ p, nextPowerOfTwo x = some p ∧ IsLeast (powersFrom x) p := by
  have hpass : ∀ p, decide (p < x) = true → Doubling x p →
      ∃ next, checkedMul 32 p 2 = some next ∧ Doubling x next ∧
        32 - Nat.log 2 next < 32 - Nat.log 2 p := by
    intro p hcond h
    have hlt : p < x := of_decide_eq_true hcond
    obtain ⟨k, hk, rfl, -⟩ := id h
    have hk31 : k < 31 := (Nat.pow_lt_pow_iff_right (a := 2) (by omega)).mp (by omega)
    have hfits : 2 ^ k * 2 < 2 ^ 32 := by omega
    refine ⟨_, checkedMul_eq_some.mpr ⟨hfits, rfl⟩, h.double hlt hfits, ?_⟩
    rw [← Nat.pow_succ, Nat.log_pow (by omega), Nat.log_pow (by omega)]
    omega
  obtain ⟨p, hloop, h, hend⟩ :=
    whileLoop_spec (Doubling x) (fun p => 32 - Nat.log 2 p) hpass (doubling_one x)
      (Nat.sub_le _ _)
  exact ⟨p, hloop, h.isLeast (by simpa using hend)⟩

lemma le_of_nextPowerOfTwo_eq_some (h : nextPowerOfTwo x = some r) : x ≤ 2 ^ 31 := by
  obtain ⟨hdoubling, hend⟩ := whileLoop_keeps (Doubling x)
    (fun p next hcond hp hnext => by
      obtain ⟨hfits, rfl⟩ := checkedMul_eq_some.mp hnext
      exact hp.double (of_decide_eq_true hcond) hfits)
    (doubling_one x) h
  have hle := hdoubling.le
  have hge : x ≤ r := by simpa using hend
  omega

/-- What the zeros that were dropped leave of the word. -/
def DroppingZeros (x : ℕ) (s : Halving) : Prop := s.n ≠ 0 ∧ x = s.n * 2 ^ s.count

lemma DroppingZeros.step {s : Halving} (hx : x < 2 ^ 32) (h : DroppingZeros x s)
    (heven : (s.n &&& 1 == 0) = true) :
    ∃ next, dropBit s = some next ∧ DroppingZeros x next ∧ next.n.size < s.n.size := by
  obtain ⟨n, count⟩ := s
  obtain ⟨hn, rfl⟩ : n ≠ 0 ∧ x = n * 2 ^ count := h
  have hmod : n % 2 = 0 := by simpa using heven
  have hcount : count < 32 := by
    apply (Nat.pow_lt_pow_iff_right (a := 2) (by omega)).mp
    exact Nat.lt_of_le_of_lt (Nat.le_mul_of_pos_left _ (Nat.pos_of_ne_zero hn)) hx
  refine ⟨_, dropBit_eq (by omega), ⟨?_, ?_⟩, size_half_lt hn⟩
  · show n / 2 ≠ 0
    omega
  · show n * 2 ^ count = n / 2 * 2 ^ (count + 1)
    rw [Nat.pow_succ', ← Nat.mul_assoc, Nat.div_mul_cancel (Nat.dvd_of_mod_eq_zero hmod)]

/-- The number of zeros is that of the highest power of two that divides the word. -/
lemma trailingZeros_spec (hx : x < 2 ^ 32) (hne : x ≠ 0) :
    ∃ r, trailingZeros x = some r ∧ 2 ^ r ∣ x ∧ ¬ 2 ^ (r + 1) ∣ x := by
  have hstart : DroppingZeros x ⟨x, 0⟩ := ⟨hne, (Nat.mul_one x).symm⟩
  obtain ⟨⟨n, count⟩, hloop, ⟨-, (hword : x = n * 2 ^ count)⟩, hend⟩ := whileLoop_spec
    (DroppingZeros x) (fun s => s.n.size) (fun s hcond h => h.step hx hcond) hstart
    (Nat.size_le.mpr hx)
  have hodd : n % 2 = 1 := by simpa using hend
  refine ⟨count, ?_, ?_, ?_⟩
  · rw [trailingZeros, if_neg hne, hloop]
    rfl
  · exact ⟨n, by rw [hword, Nat.mul_comm]⟩
  · rw [hword, Nat.pow_succ', Nat.mul_dvd_mul_iff_right (Nat.two_pow_pos count)]
    omega

end ModernC.Numbers
