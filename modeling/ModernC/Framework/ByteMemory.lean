import Mathlib.Algebra.Group.Nat.Defs
import Mathlib.Data.List.GetD
import Mathlib.Data.Nat.Basic

/-!
# Bytes in memory

A memory maps addresses to bytes.  Words of eight bytes are stored with the lowest byte first.
-/

namespace ModernC.Framework

/-- A memory. -/
abbrev Memory := ℕ → UInt8

variable {m m' : Memory} {a b n w k : ℕ}

/-! ## Words -/

/-- The number that bytes spell. -/
def loadBytes (m : Memory) (a : ℕ) : ℕ → ℕ
  | 0 => 0
  | n + 1 => (m a).toNat + 256 * loadBytes m (a + 1) n

def loadWord (m : Memory) (a : ℕ) : ℕ := loadBytes m a 8

def storeByte (m : Memory) (a : ℕ) (value : UInt8) : Memory :=
  fun b => if b = a then value else m b

def storeWord (m : Memory) (a w : ℕ) : Memory :=
  fun b => if a ≤ b ∧ b < a + 8 then UInt8.ofNat (w / 256 ^ (b - a)) else m b

lemma storeWord_outside (h : b < a ∨ a + 8 ≤ b) : storeWord m a w b = m b := by
  rw [storeWord, if_neg (by omega)]

lemma storeWord_add (h : k < 8) : storeWord m a w (a + k) = UInt8.ofNat (w / 256 ^ k) := by
  rw [storeWord, if_pos (by omega), Nat.add_sub_cancel_left]

lemma loadBytes_congr (h : ∀ k < n, m (a + k) = m' (a + k)) :
    loadBytes m a n = loadBytes m' a n := by
  induction n generalizing a with
  | zero => rfl
  | succ n ih =>
    have hfirst := h 0 (Nat.succ_pos n)
    rw [Nat.add_zero] at hfirst
    rw [loadBytes, loadBytes, hfirst, ih]
    intro k hk
    have hnext := h (k + 1) (Nat.succ_lt_succ hk)
    rwa [Nat.add_comm k 1, ← Nat.add_assoc] at hnext

/-- Bytes that are those of a number spell it, up to their length. -/
lemma loadBytes_of_forall (h : ∀ k < n, m (a + k) = UInt8.ofNat (w / 256 ^ k)) :
    loadBytes m a n = w % 256 ^ n := by
  induction n generalizing a w with
  | zero => rw [loadBytes, Nat.pow_zero, Nat.mod_one]
  | succ n ih =>
    have hfirst := h 0 (Nat.succ_pos n)
    rw [Nat.add_zero, Nat.pow_zero, Nat.div_one] at hfirst
    have hrest : loadBytes m (a + 1) n = w / 256 % 256 ^ n := by
      refine ih fun k hk => ?_
      have hnext := h (k + 1) (Nat.succ_lt_succ hk)
      rwa [Nat.add_comm k 1, ← Nat.add_assoc, Nat.pow_add, Nat.pow_one,
        ← Nat.div_div_eq_div_mul] at hnext
    have hmod : w % 256 ^ (n + 1) = w % 256 + 256 * (w / 256 % 256 ^ n) := by
      rw [Nat.pow_succ', Nat.mod_mul]
    rw [loadBytes, hfirst, hrest, UInt8.toNat_ofNat', hmod]

lemma loadWord_storeWord (hw : w < 2 ^ 64) : loadWord (storeWord m a w) a = w := by
  have hbytes : loadWord (storeWord m a w) a = w % 256 ^ 8 :=
    loadBytes_of_forall fun k hk => storeWord_add hk
  omega

/-- A byte of a number that bytes spell. -/
lemma ofNat_loadBytes_div (hk : k < n) : UInt8.ofNat (loadBytes m a n / 256 ^ k) = m (a + k) := by
  induction n generalizing a k with
  | zero => exact absurd hk (Nat.not_lt_zero k)
  | succ n ih =>
    have hbyte := (m a).toNat_lt
    rw [loadBytes]
    cases k with
    | zero =>
      apply UInt8.toNat_inj.mp
      rw [Nat.pow_zero, Nat.div_one, UInt8.toNat_ofNat']
      dsimp only [Nat.add_zero]
      omega
    | succ k =>
      have hdiv : ((m a).toNat + 256 * loadBytes m (a + 1) n) / 256 = loadBytes m (a + 1) n := by
        omega
      rw [Nat.pow_succ', ← Nat.div_div_eq_div_mul, hdiv, ih (Nat.lt_of_succ_lt_succ hk),
        Nat.add_assoc, Nat.add_comm 1 k]

lemma storeWord_loadWord_add (hk : k < 8) : storeWord m a (loadWord m' b) (a + k) = m' (b + k) := by
  rw [storeWord_add hk, loadWord, ofNat_loadBytes_div hk]

/-! ## Ranges -/

/-- The memory with bytes copied from one range to another. -/
def copied (m : Memory) (dst src n : ℕ) : Memory :=
  fun b => if dst ≤ b ∧ b < dst + n then m (src + (b - dst)) else m b

/-- The memory with a range filled with a byte. -/
def filled (m : Memory) (dst : ℕ) (value : UInt8) (n : ℕ) : Memory :=
  fun b => if dst ≤ b ∧ b < dst + n then value else m b

lemma copied_zero (m : Memory) (dst src : ℕ) : copied m dst src 0 = m := by
  funext b
  rw [copied, if_neg (by omega)]

lemma filled_zero (m : Memory) (dst : ℕ) (value : UInt8) : filled m dst value 0 = m := by
  funext b
  rw [filled, if_neg (by omega)]

variable {dst src : ℕ}

lemma copied_add (hk : k < n) : copied m dst src n (dst + k) = m (src + k) := by
  rw [copied, if_pos (by omega), Nat.add_sub_cancel_left]

lemma copied_outside (h : b < dst ∨ dst + n ≤ b) : copied m dst src n b = m b := by
  rw [copied, if_neg (by omega)]

lemma filled_outside {value : UInt8} (h : b < dst ∨ dst + n ≤ b) :
    filled m dst value n b = m b := by
  rw [filled, if_neg (by omega)]

/-- A range is written further by writing the bytes behind it. -/
lemma written_extend {i : ℕ} (value : ℕ → UInt8) (hin : ∀ k < n, m' (dst + i + k) = value (i + k))
    (hout : ∀ b, b < dst + i ∨ dst + i + n ≤ b →
      m' b = if dst ≤ b ∧ b < dst + i then value (b - dst) else m b) :
    m' = fun b => if dst ≤ b ∧ b < dst + (i + n) then value (b - dst) else m b := by
  funext b
  by_cases hnew : dst + i ≤ b ∧ b < dst + i + n
  · have hbyte := hin (b - (dst + i)) (by omega)
    rw [Nat.add_sub_cancel' hnew.1, show i + (b - (dst + i)) = b - dst by omega] at hbyte
    rw [hbyte, if_pos (by omega)]
  · rw [hout b (by omega)]
    by_cases hold : dst ≤ b ∧ b < dst + i
    · rw [if_pos hold, if_pos (by omega)]
    · rw [if_neg hold, if_neg (by omega)]

/-- More bytes are copied by writing the ones behind those that were. -/
lemma copied_extend {i : ℕ} (hin : ∀ k < n, m' (dst + i + k) = m (src + i + k))
    (hout : ∀ b, b < dst + i ∨ dst + i + n ≤ b → m' b = copied m dst src i b) :
    m' = copied m dst src (i + n) :=
  written_extend (fun k => m (src + k)) (fun k hk => Nat.add_assoc src i k ▸ hin k hk) hout

/-- A longer range is filled by filling what is behind it. -/
lemma filled_extend {i : ℕ} {value : UInt8} (hin : ∀ k < n, m' (dst + i + k) = value)
    (hout : ∀ b, b < dst + i ∨ dst + i + n ≤ b → m' b = filled m dst value i b) :
    m' = filled m dst value (i + n) :=
  written_extend (fun _ => value) hin hout

end ModernC.Framework

/-!
## Values in memory

A representation encodes the values of a type by a fixed number of bytes, from which they can be
read back.
-/

namespace ModernC.Framework

/-- The bytes of a range. -/
def bytesAt (m : Memory) (a n : ℕ) : List UInt8 := (List.range n).map fun k => m (a + k)

/-- The memory with bytes written to it. -/
def writeBytes (m : Memory) (a : ℕ) (bytes : List UInt8) : Memory :=
  fun b => if a ≤ b then bytes.getD (b - a) (m b) else m b

structure Representation (T : Type) where
  size : ℕ
  encode : T → List UInt8
  decode : List UInt8 → T
  length_encode : ∀ x, (encode x).length = size
  decode_encode : ∀ x, decode (encode x) = x

variable {T : Type} {m m' : Memory} {a b n : ℕ}

lemma length_bytesAt (m : Memory) (a n : ℕ) : (bytesAt m a n).length = n := by
  rw [bytesAt, List.length_map, List.length_range]

lemma bytesAt_congr (h : ∀ k < n, m (a + k) = m' (a + k)) : bytesAt m a n = bytesAt m' a n :=
  List.map_congr_left fun k hk => h k (List.mem_range.mp hk)

lemma writeBytes_outside {bytes : List UInt8} (h : b < a ∨ a + bytes.length ≤ b) :
    writeBytes m a bytes b = m b := by
  rw [writeBytes]
  split
  · exact List.getD_eq_default _ _ (by omega)
  · rfl

lemma bytesAt_writeBytes (m : Memory) (a : ℕ) (bytes : List UInt8) :
    bytesAt (writeBytes m a bytes) a bytes.length = bytes := by
  apply List.ext_getElem
  · exact length_bytesAt _ _ _
  · intro k hk hk'
    simp only [bytesAt, List.getElem_map, List.getElem_range, writeBytes]
    rw [if_pos (Nat.le_add_right a k), Nat.add_sub_cancel_left, List.getD_eq_getElem _ _ hk']

namespace Representation

variable (rep : Representation T)

/-- The value at an address. -/
def load (m : Memory) (a : ℕ) : T := rep.decode (bytesAt m a rep.size)

/-- The memory with a value stored. -/
def store (m : Memory) (a : ℕ) (x : T) : Memory := writeBytes m a (rep.encode x)

lemma load_store (m : Memory) (a : ℕ) (x : T) : rep.load (rep.store m a x) a = x := by
  have hbytes := bytesAt_writeBytes m a (rep.encode x)
  rw [rep.length_encode] at hbytes
  rw [load, store, hbytes, rep.decode_encode]

lemma store_outside {x : T} (h : b < a ∨ a + rep.size ≤ b) : rep.store m a x b = m b := by
  apply writeBytes_outside
  rwa [rep.length_encode]

lemma load_congr (h : ∀ b, a ≤ b → b < a + rep.size → m b = m' b) :
    rep.load m a = rep.load m' a := by
  rw [load, load, bytesAt_congr fun k hk => h (a + k) (by omega) (by omega)]

/-- A value that a store does not touch. -/
lemma load_store_of_disjoint {T' : Type} (rep' : Representation T') {x : T'}
    (h : a + rep.size ≤ b ∨ b + rep'.size ≤ a) : rep.load (rep'.store m b x) a = rep.load m a :=
  rep.load_congr fun c hlow hhigh => rep'.store_outside (by omega)

end Representation

end ModernC.Framework
