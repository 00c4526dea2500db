import Mathlib.Data.Nat.GCD.Basic
import ModernC.Numbers.Bits

/-!
# Integer functions

The functions of `std/math`, and when those of `std/bits` and of `std/math` have the values that
their headers state.  A checked product traps near the top of the range, where the header promises
a value or a wrapped one.
-/

namespace ModernC.Numbers

open Framework

variable {a b base exp x n r : ℕ}

/-! ## The program -/

/-- The variables of `gcd`. -/
structure Euclid where
  x : ℕ
  y : ℕ

def euclidStep (s : Euclid) : Option Euclid := do
  let y ← checkedMod s.x s.y
  return ⟨s.y, y⟩

def gcd (a b : ℕ) : Option ℕ := do
  let s ← whileLoop (fun s => s.y != 0) euclidStep b ⟨a, b⟩
  return s.x

def lcm (a b : ℕ) : Option ℕ :=
  if a = 0 then some 0
  else do
    let divisor ← gcd a b
    let quotient ← checkedDiv a divisor
    checkedMul 32 quotient b

/-- The variables of `pow_u32`. -/
structure Power where
  result : ℕ
  e : ℕ

def powStep (base : ℕ) (s : Power) : Option Power := do
  let result ← checkedMul 32 s.result base
  let e ← checkedSub s.e 1
  return ⟨result, e⟩

def powU32 (base exp : ℕ) : Option ℕ := do
  let s ← whileLoop (fun s => s.e != 0) (powStep base) exp ⟨1, exp⟩
  return s.result

def ilog2 (x : ℕ) : Option ℕ := do
  let s ← whileLoop (fun s => decide (1 < s.n)) dropBit 32 ⟨x, 0⟩
  return s.count

def wrappingAddU32 (a b : ℕ) : Option ℕ := do
  let sum ← checkedAdd 64 a b
  checkedCast 32 (sum &&& 0xFFFFFFFF)

/-- In the domain `wrap<u64>`. -/
def wrappingAddU64 (a b : ℕ) : Option ℕ := some ((a + b) % 2 ^ 64)

/-- In the domain `wrap<u64>`. -/
def wrappingSubU64 (a b : ℕ) : Option ℕ := some ((a + 2 ^ 64 - b) % 2 ^ 64)

def wrappingSubU32 (a b : ℕ) : Option ℕ := do
  let sum ← checkedAdd 64 a (2 ^ 32)
  let difference ← checkedSub sum b
  checkedCast 32 (difference &&& 0xFFFFFFFF)

def wrappingMulU32 (a b : ℕ) : Option ℕ := do
  let product ← checkedMul 64 a b
  checkedCast 32 (product &&& 0xFFFFFFFF)

def wrappingAddU16 (a b : ℕ) : Option ℕ := do
  let sum ← checkedAdd 32 a b
  checkedCast 16 (sum &&& 0xFFFF)

def wrappingShlU32 (x n : ℕ) : Option ℕ := do
  let shifted ← checkedShl 64 x n
  checkedCast 32 (shifted &&& 0xFFFFFFFF)

/-! ## Divisors -/

/-- What Euclid's algorithm keeps. -/
def SameDivisor (a b : ℕ) (s : Euclid) : Prop := s.x.gcd s.y = a.gcd b

lemma SameDivisor.step {s : Euclid} (h : SameDivisor a b s) (hy : (s.y != 0) = true) :
    ∃ next, euclidStep s = some next ∧ SameDivisor a b next ∧ next.y < s.y := by
  have hne : s.y ≠ 0 := bne_iff_ne.mp hy
  have hmod : checkedMod s.x s.y = some (s.x % s.y) := checkedMod_eq_some.mpr ⟨hne, rfl⟩
  refine ⟨⟨s.y, s.x % s.y⟩, ?_, ?_, Nat.mod_lt _ (Nat.pos_of_ne_zero hne)⟩
  · rw [euclidStep, hmod]
    rfl
  · show s.y.gcd (s.x % s.y) = a.gcd b
    rw [Nat.gcd_comm, ← Nat.gcd_rec, Nat.gcd_comm]
    exact h

lemma gcd_eq (a b : ℕ) : gcd a b = some (a.gcd b) := by
  have hstart : SameDivisor a b ⟨a, b⟩ := rfl
  obtain ⟨s, hloop, hsame, hend⟩ := whileLoop_spec (SameDivisor a b) (fun s => s.y)
    (fun s hcond h => h.step hcond) hstart (le_refl b)
  have hzero : s.y = 0 := by simpa using hend
  rw [SameDivisor, hzero, Nat.gcd_zero_right] at hsame
  rw [gcd, hloop, ← hsame]
  rfl

lemma lcm_eq_some : lcm a b = some r ↔ a.lcm b < 2 ^ 32 ∧ r = a.lcm b := by
  rw [lcm]
  by_cases ha : a = 0
  · rw [if_pos ha, ha, Nat.lcm_zero_left]
    simp [eq_comm]
  · have hgcd : a.gcd b ≠ 0 := fun h => ha (Nat.eq_zero_of_gcd_eq_zero_left h)
    have hdiv : checkedDiv a (a.gcd b) = some (a / a.gcd b) :=
      checkedDiv_eq_some.mpr ⟨hgcd, rfl⟩
    have hlcm : a / a.gcd b * b = a.lcm b := by
      rw [Nat.lcm_eq_mul_div, Nat.div_mul_right_comm (Nat.gcd_dvd_left a b)]
    rw [if_neg ha, gcd_eq]
    simp only [Option.bind_eq_bind, Option.bind_some, hdiv]
    rw [checkedMul_eq_some, hlcm]

/-! ## Powers and logarithms -/

/-- The factors that were multiplied and those that are left make up the power. -/
def Multiplying (base exp : ℕ) (s : Power) : Prop :=
  s.result * base ^ s.e = base ^ exp ∧ s.result < 2 ^ 32

lemma multiplying_one (base exp : ℕ) : Multiplying base exp ⟨1, exp⟩ :=
  ⟨Nat.one_mul _, Nat.one_lt_two_pow (by omega)⟩

variable {s : Power}

lemma powStep_eq_some {next : Power} : powStep base s = some next ↔
    s.result * base < 2 ^ 32 ∧ 1 ≤ s.e ∧ next = ⟨s.result * base, s.e - 1⟩ := by
  rw [powStep]
  refine Option.bind_eq_some_iff.trans ⟨?_, ?_⟩
  · rintro ⟨result, hmul, hrest⟩
    obtain ⟨e, hsub, hnext⟩ := Option.bind_eq_some_iff.mp hrest
    obtain ⟨hlt, rfl⟩ := checkedMul_eq_some.mp hmul
    obtain ⟨hle, rfl⟩ := checkedSub_eq_some.mp hsub
    exact ⟨hlt, hle, (Option.some.inj hnext).symm⟩
  · rintro ⟨hlt, hle, rfl⟩
    refine ⟨_, checkedMul_eq_some.mpr ⟨hlt, rfl⟩, ?_⟩
    exact Option.bind_eq_some_iff.mpr ⟨_, checkedSub_eq_some.mpr ⟨hle, rfl⟩, rfl⟩

lemma Multiplying.next (h : Multiplying base exp s)
    (hlt : s.result * base < 2 ^ 32) (he : 1 ≤ s.e) :
    Multiplying base exp ⟨s.result * base, s.e - 1⟩ := by
  refine ⟨?_, hlt⟩
  show s.result * base * base ^ (s.e - 1) = base ^ exp
  rw [Nat.mul_assoc, ← Nat.pow_succ', Nat.succ_eq_add_one, Nat.sub_add_cancel he]
  exact h.1

/-- No product on the way is larger than the power. -/
lemma Multiplying.mul_lt (h : Multiplying base exp s) (he : 1 ≤ s.e)
    (hfits : base ^ exp < 2 ^ 32) : s.result * base < 2 ^ 32 := by
  rcases Nat.eq_zero_or_pos base with rfl | hbase
  · rw [Nat.mul_zero]
    exact Nat.two_pow_pos 32
  · refine Nat.lt_of_le_of_lt ?_ hfits
    rw [← h.1, ← Nat.sub_add_cancel he, Nat.pow_succ', ← Nat.mul_assoc]
    exact Nat.le_mul_of_pos_right _ (Nat.pow_pos hbase)

lemma powU32_eq_some : powU32 base exp = some r ↔ base ^ exp < 2 ^ 32 ∧ r = base ^ exp := by
  constructor
  · intro h
    obtain ⟨s, hloop, hr⟩ := Option.bind_eq_some_iff.mp h
    obtain rfl : s.result = r := Option.some.inj hr
    obtain ⟨⟨hpower, hlt⟩, hend⟩ := whileLoop_keeps (Multiplying base exp)
      (fun s next _ hs hnext => by
        obtain ⟨hlt, he, rfl⟩ := powStep_eq_some.mp hnext
        exact hs.next hlt he)
      (multiplying_one base exp) hloop
    have hzero : s.e = 0 := by simpa using hend
    rw [hzero, Nat.pow_zero, Nat.mul_one] at hpower
    exact ⟨hpower ▸ hlt, hpower⟩
  · rintro ⟨hfits, rfl⟩
    have hpass : ∀ s : Power, (s.e != 0) = true → Multiplying base exp s →
        ∃ next, powStep base s = some next ∧ Multiplying base exp next ∧ next.e < s.e := by
      intro s hcond h
      have he : 1 ≤ s.e := Nat.pos_of_ne_zero (bne_iff_ne.mp hcond)
      have hlt := h.mul_lt he hfits
      exact ⟨_, powStep_eq_some.mpr ⟨hlt, he, rfl⟩, h.next hlt he, by dsimp only; omega⟩
    obtain ⟨s, hloop, ⟨hpower, -⟩, hend⟩ := whileLoop_spec (Multiplying base exp)
      (fun s => s.e) hpass (multiplying_one base exp) (le_refl exp)
    have hzero : s.e = 0 := by simpa using hend
    rw [hzero, Nat.pow_zero, Nat.mul_one] at hpower
    rw [powU32, hloop, ← hpower]
    rfl

/-- The bits that were dropped and the logarithm of what is left. -/
def DroppingBits (x : ℕ) (s : Halving) : Prop :=
  s.count + Nat.log 2 s.n = Nat.log 2 x

lemma DroppingBits.step {s : Halving} (hx : x < 2 ^ 32) (h : DroppingBits x s)
    (hn : decide (1 < s.n) = true) :
    ∃ next, dropBit s = some next ∧ DroppingBits x next ∧ next.n.size < s.n.size := by
  obtain ⟨n, count⟩ := s
  replace h : count + Nat.log 2 n = Nat.log 2 x := h
  replace hn : 1 < n := of_decide_eq_true hn
  have hlog : Nat.log 2 n = Nat.log 2 (n / 2) + 1 := Nat.log_of_one_lt_of_le (by omega) hn
  have htop : Nat.log 2 x < 32 := Nat.log_lt_of_lt_pow' (by omega) hx
  refine ⟨_, dropBit_eq (by omega), ?_, size_half_lt (by omega)⟩
  show count + 1 + Nat.log 2 (n / 2) = Nat.log 2 x
  omega

lemma ilog2_eq (hx : x < 2 ^ 32) : ilog2 x = some (Nat.log 2 x) := by
  have hstart : DroppingBits x ⟨x, 0⟩ := Nat.zero_add _
  obtain ⟨s, hloop, hlog, hend⟩ := whileLoop_spec (DroppingBits x) (fun s => s.n.size)
    (fun s hcond h => h.step hx hcond) hstart (Nat.size_le.mpr hx)
  have hle : s.n ≤ 1 := by simpa using hend
  have hzero : Nat.log 2 s.n = 0 := Nat.log_of_lt (by omega)
  rw [DroppingBits, hzero, Nat.add_zero] at hlog
  rw [ilog2, hloop, ← hlog]
  rfl

/-! ## Wrapping -/

/-- The low bits of a word are a word of their width. -/
lemma checkedCast_mask {width mask : ℕ} (hmask : mask = 2 ^ width - 1) :
    checkedCast width (n &&& mask) = some (n % 2 ^ width) := by
  rw [hmask, Nat.and_two_pow_sub_one_eq_mod]
  exact checkedCast_eq_some.mpr ⟨Nat.mod_lt _ (Nat.two_pow_pos width), rfl⟩

lemma wrappingAddU32_eq (ha : a < 2 ^ 32) (hb : b < 2 ^ 32) :
    wrappingAddU32 a b = some ((a + b) % 2 ^ 32) := by
  have hadd : checkedAdd 64 a b = some (a + b) := checkedAdd_eq_some.mpr ⟨by omega, rfl⟩
  rw [wrappingAddU32, hadd]
  exact checkedCast_mask (by omega)

lemma wrappingSubU32_eq (ha : a < 2 ^ 32) (hb : b < 2 ^ 32) :
    wrappingSubU32 a b = some ((a + 2 ^ 32 - b) % 2 ^ 32) := by
  have hadd : checkedAdd 64 a (2 ^ 32) = some (a + 2 ^ 32) :=
    checkedAdd_eq_some.mpr ⟨by omega, rfl⟩
  have hsub : checkedSub (a + 2 ^ 32) b = some (a + 2 ^ 32 - b) :=
    checkedSub_eq_some.mpr ⟨by omega, rfl⟩
  rw [wrappingSubU32, hadd, Option.bind_eq_bind, Option.bind_some, hsub, Option.bind_some]
  exact checkedCast_mask (by omega)

lemma wrappingMulU32_eq (ha : a < 2 ^ 32) (hb : b < 2 ^ 32) :
    wrappingMulU32 a b = some (a * b % 2 ^ 32) := by
  have hlt : a * b < 2 ^ 64 := by
    calc a * b < 2 ^ 32 * 2 ^ 32 := Nat.mul_lt_mul'' ha hb
      _ = 2 ^ 64 := (Nat.pow_add 2 32 32).symm
  have hmul : checkedMul 64 a b = some (a * b) := checkedMul_eq_some.mpr ⟨hlt, rfl⟩
  rw [wrappingMulU32, hmul]
  exact checkedCast_mask (by omega)

lemma wrappingAddU16_eq (ha : a < 2 ^ 16) (hb : b < 2 ^ 16) :
    wrappingAddU16 a b = some ((a + b) % 2 ^ 16) := by
  have hadd : checkedAdd 32 a b = some (a + b) := checkedAdd_eq_some.mpr ⟨by omega, rfl⟩
  rw [wrappingAddU16, hadd]
  exact checkedCast_mask (by omega)

lemma wrappingShlU32_eq_some :
    wrappingShlU32 x n = some r ↔ n < 64 ∧ x * 2 ^ n < 2 ^ 64 ∧ r = x * 2 ^ n % 2 ^ 32 := by
  refine Option.bind_eq_some_iff.trans ⟨?_, ?_⟩
  · rintro ⟨shifted, hshl, hcast⟩
    obtain ⟨hn, hlt, rfl⟩ := checkedShl_eq_some.mp hshl
    rw [checkedCast_mask (by omega : 0xFFFFFFFF = 2 ^ 32 - 1)] at hcast
    exact ⟨hn, hlt, (Option.some.inj hcast).symm⟩
  · rintro ⟨hn, hlt, rfl⟩
    exact ⟨_, checkedShl_eq_some.mpr ⟨hn, hlt, rfl⟩, checkedCast_mask (by omega)⟩

/-! ## All of them -/

/-- A call with values of the parameter types.  The alignment is a power of two. -/
inductive Call where
  | countOnes (x : UInt32)
  | isAligned (x : UInt64) (a : {a : UInt64 // a.toNat.isPowerOfTwo})
  | lowMask (bits : UInt32)
  | isSingleBit (x : UInt32)
  | nextPowerOfTwo (x : UInt32)
  | trailingZeros (x : UInt32)
  | gcd (a b : UInt32)
  | lcm (a b : UInt32)
  | powU32 (base exp : UInt32)
  | ilog2 (x : UInt32)
  | wrappingAddU32 (a b : UInt32)
  | wrappingAddU64 (a b : UInt64)
  | wrappingSubU64 (a b : UInt64)
  | wrappingSubU32 (a b : UInt32)
  | wrappingMulU32 (a b : UInt32)
  | wrappingAddU16 (a b : UInt16)
  | wrappingShlU32 (x n : UInt32)

namespace Call

/-- What a call returns, unless it traps. -/
def run : Call → Option ℕ
  | countOnes x => Numbers.countOnes x.toNat
  | isAligned x a => (Numbers.isAligned x.toNat a.val.toNat).map Bool.toNat
  | lowMask bits => Numbers.lowMask bits.toNat
  | isSingleBit x => (Numbers.isSingleBit x.toNat).map Bool.toNat
  | nextPowerOfTwo x => Numbers.nextPowerOfTwo x.toNat
  | trailingZeros x => Numbers.trailingZeros x.toNat
  | gcd a b => Numbers.gcd a.toNat b.toNat
  | lcm a b => Numbers.lcm a.toNat b.toNat
  | powU32 base exp => Numbers.powU32 base.toNat exp.toNat
  | ilog2 x => Numbers.ilog2 x.toNat
  | wrappingAddU32 a b => Numbers.wrappingAddU32 a.toNat b.toNat
  | wrappingAddU64 a b => Numbers.wrappingAddU64 a.toNat b.toNat
  | wrappingSubU64 a b => Numbers.wrappingSubU64 a.toNat b.toNat
  | wrappingSubU32 a b => Numbers.wrappingSubU32 a.toNat b.toNat
  | wrappingMulU32 a b => Numbers.wrappingMulU32 a.toNat b.toNat
  | wrappingAddU16 a b => Numbers.wrappingAddU16 a.toNat b.toNat
  | wrappingShlU32 x n => Numbers.wrappingShlU32 x.toNat n.toNat

/-- The value that the header states. -/
def Exact : Call → ℕ → Prop
  | countOnes x, r => r = setBits x.toNat
  | isAligned x a, r => r = (decide (a.val.toNat ∣ x.toNat)).toNat
  | lowMask bits, r => r = 2 ^ min bits.toNat 32 - 1
  | isSingleBit x, r => r = (setBits x.toNat == 1).toNat
  | nextPowerOfTwo x, r => IsLeast (powersFrom x.toNat) r
  | trailingZeros x, r =>
    if x.toNat = 0 then r = 32 else 2 ^ r ∣ x.toNat ∧ ¬ 2 ^ (r + 1) ∣ x.toNat
  | gcd a b, r => r = a.toNat.gcd b.toNat
  | lcm a b, r => r = a.toNat.lcm b.toNat
  | powU32 base exp, r => r = base.toNat ^ exp.toNat % 2 ^ 32
  | ilog2 x, r => r = Nat.log 2 x.toNat
  | wrappingAddU32 a b, r => r = (a.toNat + b.toNat) % 2 ^ 32
  | wrappingAddU64 a b, r => r = (a.toNat + b.toNat) % 2 ^ 64
  | wrappingSubU64 a b, r => r = (a.toNat + 2 ^ 64 - b.toNat) % 2 ^ 64
  | wrappingSubU32 a b, r => r = (a.toNat + 2 ^ 32 - b.toNat) % 2 ^ 32
  | wrappingMulU32 a b, r => r = a.toNat * b.toNat % 2 ^ 32
  | wrappingAddU16 a b, r => r = (a.toNat + b.toNat) % 2 ^ 16
  | wrappingShlU32 x n, r => r = x.toNat * 2 ^ n.toNat % 2 ^ 32

/-- The call returns the value that the header states. -/
def Holds (call : Call) : Prop := ∃ r, call.run = some r ∧ call.Exact r

/-- The mathematical values stay in their range. -/
def Fits : Call → Prop
  | nextPowerOfTwo x => x.toNat ≤ 2 ^ 31
  | lcm a b => a.toNat.lcm b.toNat < 2 ^ 32
  | powU32 base exp => base.toNat ^ exp.toNat < 2 ^ 32
  | wrappingShlU32 x n => n.toNat < 64 ∧ x.toNat * 2 ^ n.toNat < 2 ^ 64
  | _ => True

/-- A function that always has its value. -/
lemma holds_iff_true {call : Call} (hrun : call.run = some r) (hexact : call.Exact r) :
    call.Holds ↔ True := iff_true_intro ⟨r, hrun, hexact⟩

/-- **The functions are exact** unless a value leaves the range. -/
theorem holds_iff_fits (call : Call) : call.Holds ↔ call.Fits := by
  cases call with
  | countOnes x => exact holds_iff_true (countOnes_eq x.toNat_lt) rfl
  | isAligned x a => exact holds_iff_true (congrArg (Option.map _) (isAligned_eq a.property)) rfl
  | lowMask bits => exact holds_iff_true (lowMask_eq bits.toNat) rfl
  | isSingleBit x =>
    exact holds_iff_true (congrArg (Option.map _) (isSingleBit_eq x.toNat_lt)) rfl
  | nextPowerOfTwo x =>
    constructor
    · rintro ⟨r, hrun, -⟩
      exact le_of_nextPowerOfTwo_eq_some hrun
    · intro hx
      exact nextPowerOfTwo_spec hx
  | trailingZeros x =>
    by_cases hzero : x.toNat = 0
    · refine holds_iff_true (r := 32) (if_pos hzero) ?_
      rw [Exact, if_pos hzero]
    · obtain ⟨r, hrun, hexact⟩ := trailingZeros_spec x.toNat_lt hzero
      refine holds_iff_true hrun ?_
      rw [Exact, if_neg hzero]
      exact hexact
  | gcd a b => exact holds_iff_true (gcd_eq a.toNat b.toNat) rfl
  | lcm a b =>
    constructor
    · rintro ⟨r, hrun, -⟩
      exact (lcm_eq_some.mp hrun).1
    · intro hfits
      exact ⟨_, lcm_eq_some.mpr ⟨hfits, rfl⟩, rfl⟩
  | powU32 base exp =>
    constructor
    · rintro ⟨r, hrun, -⟩
      exact (powU32_eq_some.mp hrun).1
    · intro hfits
      exact ⟨_, powU32_eq_some.mpr ⟨hfits, rfl⟩, (Nat.mod_eq_of_lt hfits).symm⟩
  | ilog2 x => exact holds_iff_true (ilog2_eq x.toNat_lt) rfl
  | wrappingAddU32 a b => exact holds_iff_true (wrappingAddU32_eq a.toNat_lt b.toNat_lt) rfl
  | wrappingAddU64 a b | wrappingSubU64 a b => exact holds_iff_true rfl rfl
  | wrappingSubU32 a b => exact holds_iff_true (wrappingSubU32_eq a.toNat_lt b.toNat_lt) rfl
  | wrappingMulU32 a b => exact holds_iff_true (wrappingMulU32_eq a.toNat_lt b.toNat_lt) rfl
  | wrappingAddU16 a b => exact holds_iff_true (wrappingAddU16_eq a.toNat_lt b.toNat_lt) rfl
  | wrappingShlU32 x n =>
    constructor
    · rintro ⟨r, hrun, -⟩
      obtain ⟨hn, hlt, -⟩ := wrappingShlU32_eq_some.mp hrun
      exact ⟨hn, hlt⟩
    · rintro ⟨hn, hlt⟩
      exact ⟨_, wrappingShlU32_eq_some.mpr ⟨hn, hlt, rfl⟩, rfl⟩

/-- The next power of two, a least common multiple and a power that are not below 2³². -/
theorem not_holds_near_top :
    ¬ (nextPowerOfTwo 0x80000001).Holds ∧ ¬ (lcm 0xFFFFFFFF 0xFFFFFFFE).Holds ∧
      ¬ (powU32 2 32).Holds := by
  refine ⟨?_, ?_, ?_⟩
  · rintro ⟨r, hrun, -⟩
    have hle : 0x80000001 ≤ 2 ^ 31 := le_of_nextPowerOfTwo_eq_some hrun
    omega
  · rintro ⟨r, hrun, -⟩
    have hlt : Nat.lcm 0xFFFFFFFF 0xFFFFFFFE < 2 ^ 32 := (lcm_eq_some.mp hrun).1
    exact absurd hlt (by decide)
  · rintro ⟨r, hrun, -⟩
    have hlt : 2 ^ 32 < 2 ^ 32 := (powU32_eq_some.mp hrun).1
    omega

end Call

end ModernC.Numbers
