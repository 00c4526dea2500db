import Mathlib.Tactic.NormNum
import ModernC.Alloc.Addresses
import ModernC.Framework.TracedPrograms

/-!
# Byte readers and writers

Fixed-width integers in a region of bytes, in either byte order.  A trapping read or write checks
the region and traps; a total read checks it and answers an error.  The buffers that are shared
with a device have accessors of the same shape.
-/

namespace ModernC.Bytes

open Framework Framework.Traced Alloc

/-- One access to a byte. -/
inductive Access where
  | load (a : ℕ)
  | store (a : ℕ)
deriving DecidableEq

abbrev ByteProgram (α : Type) : Type := Traced Memory Access α

/-- `raw.load<u8>` -/
def rawLoad (a : ℕ) : ByteProgram UInt8 := fun m => ⟨some (m a), m, [.load a]⟩

/-- `raw.store<u8>` -/
def rawStore (a : ℕ) (value : UInt8) : ByteProgram Unit :=
  fun m => ⟨some (), storeByte m a value, [.store a]⟩

/-- The sum of an offset and a constant. -/
def offsetAdd (off k : ℕ) : ByteProgram ℕ := ofOption (checkedAdd 64 off k)

structure ByteReader where
  base : ℕ
  len : ℕ

structure ByteWriter where
  base : ℕ
  len : ℕ

/-- The part of a `CpuBuffer` that its accessors read. -/
structure CpuBuffer where
  cpuAddr : ℕ
  len : ℕ

inductive BytesError where
  | outOfBounds
deriving DecidableEq

variable {α : Type}

/-! ## Bytes of a word -/

def le16 (b0 b1 : UInt8) : UInt16 := b0.toUInt16 ||| (b1.toUInt16 <<< 8)

def be16 (b0 b1 : UInt8) : UInt16 := (b0.toUInt16 <<< 8) ||| b1.toUInt16

def le32 (b0 b1 b2 b3 : UInt8) : UInt32 :=
  b0.toUInt32 ||| (b1.toUInt32 <<< 8) ||| (b2.toUInt32 <<< 16) ||| (b3.toUInt32 <<< 24)

def be32 (b0 b1 b2 b3 : UInt8) : UInt32 :=
  (b0.toUInt32 <<< 24) ||| (b1.toUInt32 <<< 16) ||| (b2.toUInt32 <<< 8) ||| b3.toUInt32

def le64 (lo hi : UInt32) : UInt64 := lo.toUInt64 ||| (hi.toUInt64 <<< 32)

/-- Two bytes, read in the order of their addresses. -/
def read2 (byte : ℕ → ByteProgram UInt8) (assemble : UInt8 → UInt8 → α) (off : ℕ) :
    ByteProgram α := do
  let b0 ← byte off
  let off1 ← offsetAdd off 1
  let b1 ← byte off1
  return assemble b0 b1

/-- Four bytes, read in the order of their addresses. -/
def read4 (byte : ℕ → ByteProgram UInt8) (assemble : UInt8 → UInt8 → UInt8 → UInt8 → α)
    (off : ℕ) : ByteProgram α := do
  let b0 ← byte off
  let off1 ← offsetAdd off 1
  let b1 ← byte off1
  let off2 ← offsetAdd off 2
  let b2 ← byte off2
  let off3 ← offsetAdd off 3
  let b3 ← byte off3
  return assemble b0 b1 b2 b3

/-- Two bytes, written behind a check of both. -/
def write2 (check : ByteProgram Unit) (byte : ℕ → UInt8 → ByteProgram Unit) (off : ℕ)
    (b0 b1 : UInt8) : ByteProgram Unit := do
  check
  byte off b0
  let off1 ← offsetAdd off 1
  byte off1 b1

/-- Four bytes, written behind a check of all. -/
def write4 (check : ByteProgram Unit) (byte : ℕ → UInt8 → ByteProgram Unit) (off : ℕ)
    (b0 b1 b2 b3 : UInt8) : ByteProgram Unit := do
  check
  byte off b0
  let off1 ← offsetAdd off 1
  byte off1 b1
  let off2 ← offsetAdd off 2
  byte off2 b2
  let off3 ← offsetAdd off 3
  byte off3 b3

/-! ## Trapping reads -/

def brHas (r : ByteReader) (off n : ℕ) : Bool :=
  if off > r.len then false else n ≤ r.len - off

def brCheck (r : ByteReader) (off n : ℕ) : ByteProgram Unit :=
  if brHas r off n then pure () else trap

/-- A load without a check. -/
def brLoadU8 (r : ByteReader) (off : ℕ) : ByteProgram UInt8 := do
  let a ← ofOption (paOffset r.base off)
  rawLoad a

def brU8 (r : ByteReader) (off : ℕ) : ByteProgram UInt8 := do
  brCheck r off 1
  let a ← ofOption (paOffset r.base off)
  rawLoad a

def brLe16 (r : ByteReader) (off : ℕ) : ByteProgram UInt16 := read2 (brU8 r) le16 off

def brBe16 (r : ByteReader) (off : ℕ) : ByteProgram UInt16 := read2 (brU8 r) be16 off

def brLe32 (r : ByteReader) (off : ℕ) : ByteProgram UInt32 := read4 (brU8 r) le32 off

def brBe32 (r : ByteReader) (off : ℕ) : ByteProgram UInt32 := read4 (brU8 r) be32 off

def brLe64 (r : ByteReader) (off : ℕ) : ByteProgram UInt64 := do
  let lo ← brLe32 r off
  let off4 ← offsetAdd off 4
  let hi ← brLe32 r off4
  return le64 lo hi

/-! ## Total reads -/

/-- A read behind a check of its whole width. -/
def brTry (w : ℕ) (read : ℕ → ByteProgram α) (r : ByteReader) (off : ℕ) :
    ByteProgram (Except BytesError α) :=
  if !brHas r off w then return .error .outOfBounds
  else do
    let value ← read off
    return .ok value

def brTryU8 (r : ByteReader) : ℕ → ByteProgram (Except BytesError UInt8) :=
  brTry 1 (brLoadU8 r) r

def brTryBe16 (r : ByteReader) : ℕ → ByteProgram (Except BytesError UInt16) :=
  brTry 2 (read2 (brLoadU8 r) be16) r

def brTryBe32 (r : ByteReader) : ℕ → ByteProgram (Except BytesError UInt32) :=
  brTry 4 (read4 (brLoadU8 r) be32) r

def brTryLe16 (r : ByteReader) : ℕ → ByteProgram (Except BytesError UInt16) :=
  brTry 2 (read2 (brLoadU8 r) le16) r

def brTryLe32 (r : ByteReader) : ℕ → ByteProgram (Except BytesError UInt32) :=
  brTry 4 (read4 (brLoadU8 r) le32) r

def brTryLe64 (r : ByteReader) (off : ℕ) : ByteProgram (Except BytesError UInt64) :=
  if !brHas r off 8 then return .error .outOfBounds
  else do
    match ← brTryLe32 r off with
    | .error _ => return .error .outOfBounds
    | .ok lo =>
      let off4 ← offsetAdd off 4
      match ← brTryLe32 r off4 with
      | .error _ => return .error .outOfBounds
      | .ok hi => return .ok (le64 lo hi)

/-! ## Writes -/

/-- The check of `bw_check` and `cpu_check`. -/
def checkRange (len off n : ℕ) : ByteProgram Unit :=
  if off > len then trap
  else if n > len - off then trap
  else pure ()

def bwCheck (w : ByteWriter) (off n : ℕ) : ByteProgram Unit := checkRange w.len off n

def bwU8 (w : ByteWriter) (off : ℕ) (value : UInt8) : ByteProgram Unit := do
  bwCheck w off 1
  let a ← ofOption (paOffset w.base off)
  rawStore a value

def bwBe16 (w : ByteWriter) (off : ℕ) (value : UInt16) : ByteProgram Unit :=
  write2 (bwCheck w off 2) (bwU8 w) off (value >>> 8).toUInt8 (value &&& 0x00FF).toUInt8

def bwBe32 (w : ByteWriter) (off : ℕ) (value : UInt32) : ByteProgram Unit :=
  write4 (bwCheck w off 4) (bwU8 w) off (value >>> 24).toUInt8
    ((value >>> 16) &&& 0x000000FF).toUInt8 ((value >>> 8) &&& 0x000000FF).toUInt8
    (value &&& 0x000000FF).toUInt8

/-! ## Buffers shared with a device -/

def cpuCheck (b : CpuBuffer) (offset n : ℕ) : ByteProgram Unit := checkRange b.len offset n

def readU8 (b : CpuBuffer) (offset : ℕ) : ByteProgram UInt8 :=
  if offset ≥ b.len then trap
  else do
    let a ← ofOption (paOffset b.cpuAddr offset)
    rawLoad a

def readBe16 (b : CpuBuffer) (offset : ℕ) : ByteProgram UInt16 := read2 (readU8 b) be16 offset

def readBe32 (b : CpuBuffer) (offset : ℕ) : ByteProgram UInt32 := read4 (readU8 b) be32 offset

def readLe32 (b : CpuBuffer) (offset : ℕ) : ByteProgram UInt32 := read4 (readU8 b) le32 offset

def writeU8 (b : CpuBuffer) (offset : ℕ) (value : UInt8) : ByteProgram Unit :=
  if offset ≥ b.len then trap
  else do
    let a ← ofOption (paOffset b.cpuAddr offset)
    rawStore a value

def writeBe16 (b : CpuBuffer) (offset : ℕ) (value : UInt16) : ByteProgram Unit :=
  write2 (cpuCheck b offset 2) (writeU8 b) offset (value >>> 8).toUInt8 (value &&& 0x00FF).toUInt8

def writeBe32 (b : CpuBuffer) (offset : ℕ) (value : UInt32) : ByteProgram Unit :=
  write4 (cpuCheck b offset 4) (writeU8 b) offset (value >>> 24).toUInt8
    ((value >>> 16) &&& 0x000000FF).toUInt8 ((value >>> 8) &&& 0x000000FF).toUInt8
    (value &&& 0x000000FF).toUInt8

def writeLe16 (b : CpuBuffer) (offset : ℕ) (value : UInt16) : ByteProgram Unit :=
  write2 (cpuCheck b offset 2) (writeU8 b) offset (value &&& 0x00FF).toUInt8 (value >>> 8).toUInt8

def writeLe32 (b : CpuBuffer) (offset : ℕ) (value : UInt32) : ByteProgram Unit :=
  write4 (cpuCheck b offset 4) (writeU8 b) offset (value &&& 0x000000FF).toUInt8
    ((value >>> 8) &&& 0x000000FF).toUInt8 ((value >>> 16) &&& 0x000000FF).toUInt8
    (value >>> 24).toUInt8

def writeLe64 (b : CpuBuffer) (offset : ℕ) (value : UInt64) : ByteProgram Unit := do
  cpuCheck b offset 8
  writeLe32 b offset (value &&& 0x00000000FFFFFFFF).toUInt32
  let offset4 ← offsetAdd offset 4
  writeLe32 b offset4 (value >>> 32).toUInt32

end ModernC.Bytes

/-!
## Words and their bytes

What the shifts and masks of the readers and writers compute.
-/

namespace ModernC.Bytes

open Framework

/-! ## Putting bytes together -/

lemma or_shiftLeft (i : ℕ) {a b : ℕ} (h : b < 2 ^ i) : b ||| a <<< i = b + 2 ^ i * a := by
  rw [Nat.or_comm, ← Nat.shiftLeft_add_eq_or_of_lt h, Nat.shiftLeft_eq, Nat.mul_comm, Nat.add_comm]

lemma toNat_le16 (b0 b1 : UInt8) : (le16 b0 b1).toNat = b0.toNat + 2 ^ 8 * b1.toNat := by
  have h0 := b0.toNat_lt
  have h1 := b1.toNat_lt
  have hshift : (b1.toUInt16 <<< 8).toNat = b1.toNat <<< 8 := by
    rw [UInt16.toNat_shiftLeft, UInt8.toNat_toUInt16]
    simp only [UInt16.reduceToNat, Nat.reduceMod, Nat.shiftLeft_eq]
    exact Nat.mod_eq_of_lt (by omega)
  rw [le16, UInt16.toNat_or, hshift, UInt8.toNat_toUInt16, or_shiftLeft 8 h0]

lemma be16_eq (b0 b1 : UInt8) : be16 b0 b1 = le16 b1 b0 := UInt16.or_comm _ _

lemma toNat_shiftLeft32 (b : UInt8) {k : UInt32} (hk : k.toNat ≤ 24) :
    (b.toUInt32 <<< k).toNat = b.toNat <<< k.toNat := by
  have hb := b.toNat_lt
  have hpow : 2 ^ k.toNat ≤ 2 ^ 24 := Nat.pow_le_pow_right (by omega) hk
  have hmul : b.toNat * 2 ^ k.toNat ≤ b.toNat * 2 ^ 24 := Nat.mul_le_mul_left _ hpow
  rw [UInt32.toNat_shiftLeft, UInt8.toNat_toUInt32, Nat.mod_eq_of_lt (by omega : k.toNat < 32),
    Nat.shiftLeft_eq]
  exact Nat.mod_eq_of_lt (by omega)

lemma toNat_le32 (b0 b1 b2 b3 : UInt8) : (le32 b0 b1 b2 b3).toNat =
    b0.toNat + 2 ^ 8 * b1.toNat + 2 ^ 16 * b2.toNat + 2 ^ 24 * b3.toNat := by
  have h0 := b0.toNat_lt
  have h1 := b1.toNat_lt
  have h2 := b2.toNat_lt
  have hfirst : b0.toNat ||| b1.toNat <<< 8 = b0.toNat + 2 ^ 8 * b1.toNat := or_shiftLeft 8 h0
  have hsecond := or_shiftLeft 16 (a := b2.toNat)
    (by omega : b0.toNat + 2 ^ 8 * b1.toNat < 2 ^ 16)
  have hthird := or_shiftLeft 24 (a := b3.toNat)
    (by omega : b0.toNat + 2 ^ 8 * b1.toNat + 2 ^ 16 * b2.toNat < 2 ^ 24)
  rw [le32, UInt32.toNat_or, UInt32.toNat_or, UInt32.toNat_or, UInt8.toNat_toUInt32,
    toNat_shiftLeft32 b1 (by decide), toNat_shiftLeft32 b2 (by decide),
    toNat_shiftLeft32 b3 (by decide)]
  simp only [UInt32.reduceToNat]
  rw [hfirst, hsecond, hthird]

lemma be32_eq (b0 b1 b2 b3 : UInt8) : be32 b0 b1 b2 b3 = le32 b3 b2 b1 b0 := by
  rw [be32, le32, UInt32.or_assoc, UInt32.or_assoc, UInt32.or_comm,
    UInt32.or_comm (b2.toUInt32 <<< 8), UInt32.or_comm (b1.toUInt32 <<< 16)]

lemma toNat_le64 (lo hi : UInt32) : (le64 lo hi).toNat = lo.toNat + 2 ^ 32 * hi.toNat := by
  have hlo := lo.toNat_lt
  have hhi := hi.toNat_lt
  have hshift : (hi.toUInt64 <<< 32).toNat = hi.toNat <<< 32 := by
    rw [UInt64.toNat_shiftLeft, UInt32.toNat_toUInt64]
    simp only [UInt64.reduceToNat, Nat.reduceMod, Nat.shiftLeft_eq]
    exact Nat.mod_eq_of_lt (by omega)
  rw [le64, UInt64.toNat_or, hshift, UInt32.toNat_toUInt64, or_shiftLeft 32 hlo]

/-! ## Taking words apart -/

lemma toNat_lowByte16 (value : UInt16) : (value &&& 0x00FF).toUInt8.toNat = value.toNat % 256 := by
  rw [UInt16.toNat_toUInt8, UInt16.toNat_and]
  simp only [UInt16.reduceToNat]
  rw [Nat.and_two_pow_sub_one_eq_mod _ 8]
  omega

lemma toNat_highByte16 (value : UInt16) : (value >>> 8).toUInt8.toNat = value.toNat / 256 := by
  have hvalue := value.toNat_lt
  rw [UInt16.toNat_toUInt8, UInt16.toNat_shiftRight]
  simp only [UInt16.reduceToNat, Nat.reduceMod, Nat.shiftRight_eq_div_pow]
  omega

lemma toNat_lowByte32 (value : UInt32) :
    (value &&& 0x000000FF).toUInt8.toNat = value.toNat % 256 := by
  rw [UInt32.toNat_toUInt8, UInt32.toNat_and]
  simp only [UInt32.reduceToNat]
  rw [Nat.and_two_pow_sub_one_eq_mod _ 8]
  omega

lemma toNat_byte32 (value : UInt32) {k : UInt32} (hk : k.toNat < 32) :
    ((value >>> k) &&& 0x000000FF).toUInt8.toNat = value.toNat / 2 ^ k.toNat % 256 := by
  rw [UInt32.toNat_toUInt8, UInt32.toNat_and, UInt32.toNat_shiftRight, Nat.mod_eq_of_lt hk,
    Nat.shiftRight_eq_div_pow]
  simp only [UInt32.reduceToNat]
  rw [Nat.and_two_pow_sub_one_eq_mod _ 8]
  omega

lemma toNat_highByte32 (value : UInt32) :
    (value >>> 24).toUInt8.toNat = value.toNat / 2 ^ 24 := by
  have hvalue := value.toNat_lt
  rw [UInt32.toNat_toUInt8, UInt32.toNat_shiftRight]
  simp only [UInt32.reduceToNat, Nat.reduceMod, Nat.shiftRight_eq_div_pow]
  omega

lemma toNat_lowHalf64 (value : UInt64) :
    (value &&& 0x00000000FFFFFFFF).toUInt32.toNat = value.toNat % 2 ^ 32 := by
  rw [UInt64.toNat_toUInt32, UInt64.toNat_and]
  simp only [UInt64.reduceToNat]
  rw [Nat.and_two_pow_sub_one_eq_mod _ 32]
  omega

lemma toNat_highHalf64 (value : UInt64) :
    (value >>> 32).toUInt32.toNat = value.toNat / 2 ^ 32 := by
  have hvalue := value.toNat_lt
  rw [UInt64.toNat_toUInt32, UInt64.toNat_shiftRight]
  simp only [UInt64.reduceToNat, Nat.reduceMod, Nat.shiftRight_eq_div_pow]
  omega

lemma toNat_bytes16 (value : UInt16) :
    (le16 (value &&& 0x00FF).toUInt8 (value >>> 8).toUInt8).toNat = value.toNat := by
  have hvalue := value.toNat_lt
  rw [toNat_le16, toNat_lowByte16, toNat_highByte16]
  omega

lemma toNat_bytes32 (value : UInt32) :
    (le32 (value &&& 0x000000FF).toUInt8 ((value >>> 8) &&& 0x000000FF).toUInt8
      ((value >>> 16) &&& 0x000000FF).toUInt8 (value >>> 24).toUInt8).toNat = value.toNat := by
  have hvalue := value.toNat_lt
  rw [toNat_le32, toNat_lowByte32, toNat_byte32 value (by decide), toNat_byte32 value (by decide),
    toNat_highByte32]
  simp only [UInt32.reduceToNat]
  omega

/-! ## The number that bytes spell -/

inductive ByteOrder where
  | little
  | big

/-- The number that bytes spell with the first one counting most. -/
def loadBig (m : Memory) (a : ℕ) : ℕ → ℕ
  | 0 => 0
  | n + 1 => (m a).toNat * 256 ^ n + loadBig m (a + 1) n

/-- The number that bytes spell in an order. -/
def spelled (order : ByteOrder) (m : Memory) (a n : ℕ) : ℕ :=
  match order with
  | .little => loadBytes m a n
  | .big => loadBig m a n

variable {m : Memory} {a : ℕ}

lemma spelled_one (order : ByteOrder) : spelled order m a 1 = (m a).toNat := by
  cases order with
  | little => rfl
  | big => exact Nat.mul_one _

lemma toNat_le16_spelled : (le16 (m a) (m (a + 1))).toNat = spelled .little m a 2 := by
  simp only [spelled, loadBytes]
  rw [toNat_le16]
  omega

lemma toNat_be16_spelled : (be16 (m a) (m (a + 1))).toNat = spelled .big m a 2 := by
  simp only [spelled, loadBig]
  rw [be16_eq, toNat_le16]
  omega

lemma toNat_le32_spelled :
    (le32 (m a) (m (a + 1)) (m (a + 2)) (m (a + 3))).toNat = spelled .little m a 4 := by
  simp only [spelled, loadBytes, Nat.add_assoc, Nat.reduceAdd]
  rw [toNat_le32]
  omega

lemma toNat_be32_spelled :
    (be32 (m a) (m (a + 1)) (m (a + 2)) (m (a + 3))).toNat = spelled .big m a 4 := by
  simp only [spelled, loadBig, Nat.add_assoc, Nat.reduceAdd]
  rw [be32_eq, toNat_le32]
  omega

/-- A number of eight bytes by its halves. -/
lemma spelled_little_eight :
    spelled .little m a 8 = spelled .little m a 4 + 2 ^ 32 * spelled .little m (a + 4) 4 := by
  simp only [spelled, loadBytes, Nat.add_assoc, Nat.reduceAdd]
  omega

end ModernC.Bytes
