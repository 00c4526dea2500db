import ModernC.Collections.Vec
import ModernC.Framework.Numerals
import ModernC.Framework.WhileLoops

/-!
# Renderers of numbers

The renderers of `std/strbuf`, `std/fmt` and `std/fmt_sink`, and that they agree: in decimal each
gives the one numeral of the number without a leading zero, and in hexadecimal the one of the width.
-/

namespace ModernC.Numbers

open Framework Framework.Traced Collections

/-! ## The program -/

/-- The variables of a loop that extracts digits, the lowest one first. -/
structure DigitLoop (room : ℕ) where
  buf : Vector UInt8 room
  n : ℕ
  i : ℕ

/-- `(first + d) as u8` -/
def digitByte (width first d : ℕ) : Option UInt8 := do
  let code ← checkedAdd width first d
  let byte ← checkedCast 8 code
  return UInt8.ofNat byte

def digitPass {room : ℕ} (width : ℕ) (s : DigitLoop room) : Option (DigitLoop room) := do
  let d ← checkedMod s.n 10
  let byte ← digitByte width 48 d
  let buf ← storeSlot s.buf s.i byte
  let n ← checkedDiv s.n 10
  let i ← checkedAdd 64 s.i 1
  return ⟨buf, n, i⟩

/-- The loop `while n > 0`, which has a slot for every pass. -/
def fillDigits (width room n : ℕ) : Option (DigitLoop room) :=
  whileLoop (fun s => decide (0 < s.n)) (digitPass width) room ⟨Vector.replicate room 0, n, 0⟩

section Emission

variable {S σ ε : Type} (put : S → UInt8 → Traced σ ε S)

/-- The loop `while i > 0`, which puts the bytes from the last one on. -/
def emitBack {room : ℕ} (buf : Vector UInt8 room) : ℕ → S → Traced σ ε S
  | 0, s => pure s
  | i + 1, s => do
    let byte ← ofOption buf[i]?
    let s ← put s byte
    emitBack buf i s

/-- The body of `sb_put_u32` and of `fmt_put_dec`. -/
def putDecimal (width room n : ℕ) (s : S) : Traced σ ε S :=
  if n = 0 then put s 48
  else do
    let loop ← ofOption (fillDigits width room n)
    emitBack put loop.buf loop.i s

/-- `s - 4` on `i32` -/
def nextShift (s : ℤ) : Option ℤ := if -2 ^ 31 ≤ s - 4 ∧ s - 4 < 2 ^ 31 then some (s - 4) else none

/-- The byte of `(v >> s) & 0xF`. -/
def nibbleByte (width v : ℕ) (s : ℤ) : Option UInt8 := do
  let shift ← if 0 ≤ s then some s.toNat else none
  let shifted ← checkedShr width v shift
  let nib := shifted &&& 15
  if nib < 10 then digitByte width 48 nib else digitByte width 87 nib

/-- The loop `while s >= 0`, which traps where it runs out of fuel. -/
def putNibbles (width v : ℕ) : ℕ → ℤ → S → Traced σ ε S
  | 0, _, _ => trap
  | fuel + 1, shift, s =>
    if shift ≥ 0 then do
      let byte ← ofOption (nibbleByte width v shift)
      let s ← put s byte
      let shift ← ofOption (nextShift shift)
      putNibbles width v fuel shift s
    else pure s

/-- The body of `sb_put_hex_u32` and of `fmt_put_hex_from`. -/
def putHex (width v : ℕ) (topShift : ℤ) (s : S) : Traced σ ε S := do
  let s ← put s 48
  let s ← put s 120
  putNibbles put width v (topShift.toNat / 4 + 2) topShift s

end Emission

section Buffers

variable {A : Type} (answers : ℕ → ℕ)

/-- `sb_put_byte`, where the allocator has an answer for every length at which the buffer grows. -/
def sbPutByte (sb : Vec A) (b : UInt8) : BlockProgram A (Vec A) :=
  vecPush byteType sb b (answers sb.len)

def sbPutU32 (sb : Vec A) (n : UInt32) : BlockProgram A (Vec A) :=
  putDecimal (sbPutByte answers) 32 10 n.toNat sb

def sbPutHexU32 (sb : Vec A) (n : UInt32) : BlockProgram A (Vec A) :=
  putHex (sbPutByte answers) 32 n.toNat 28 sb

end Buffers

section Sinks

variable {σ ε : Type} (sink : UInt8 → Traced σ ε Unit)

def fmtPutDec (v : UInt64) : Traced σ ε Unit := putDecimal (fun _ => sink) 64 20 v.toNat ()

def fmtPutHexFrom (v : UInt64) (topShift : ℤ) : Traced σ ε Unit :=
  putHex (fun _ => sink) 64 v.toNat topShift ()

def fmtPutHex32 (v : UInt32) : Traced σ ε Unit := fmtPutHexFrom sink v.toUInt64 28

def fmtPutHex64 (v : UInt64) : Traced σ ε Unit := fmtPutHexFrom sink v 60

end Sinks

/-- `digits[0 .. len]` are the digits, the highest one first. -/
structure U32Decimal where
  digits : Vector UInt8 10
  len : ℕ

def digitChar (d : ℕ) : Option UInt8 := do
  let byte ← checkedCast 8 d
  let code ← checkedAdd 8 byte 48
  return UInt8.ofNat code

/-- A pass of the loop of `format_u32`, which leaves it behind the last digit. -/
def extractPass (s : DigitLoop 10) : Option (DigitLoop 10 ⊕ DigitLoop 10) := do
  let d ← checkedMod s.n 10
  let byte ← digitChar d
  let tmp ← storeSlot s.buf s.i byte
  let count ← checkedAdd 64 s.i 1
  let n ← checkedDiv s.n 10
  return if n = 0 then .inr ⟨tmp, n, count⟩ else .inl ⟨tmp, n, count⟩

/-- `out[i] = tmp[count - 1 - i]` -/
def reversePass (tmp : Vector UInt8 10) (count : ℕ) (s : Vector UInt8 10 × ℕ) :
    Option (Vector UInt8 10 × ℕ) := do
  let last ← checkedSub count 1
  let j ← checkedSub last s.2
  let byte ← tmp[j]?
  let out ← storeSlot s.1 s.2 byte
  let i ← checkedAdd 64 s.2 1
  return (out, i)

def formatU32 (value : UInt32) : Option U32Decimal := do
  let s ← loopUntil extractPass 11 ⟨Vector.replicate 10 0, value.toNat, 0⟩
  let (out, _) ← whileLoop (fun r => decide (r.2 < s.i)) (reversePass s.buf s.i) 10
    (Vector.replicate 10 0, 0)
  return ⟨out, s.i⟩

/-! ## Digits in buffers -/

variable {room width n d i k : ℕ} {digits rest : List ℕ} {buf : Vector UInt8 room}

/-- The bytes of the first digits are in the buffer, and the others are still to come. -/
def Filled (digits rest : List ℕ) (buf : Vector UInt8 room) (i : ℕ) : Prop :=
  digits.map asciiDigit = buf.toList.take i ++ rest.map asciiDigit ∧
    i + rest.length = digits.length

lemma filled_start (digits : List ℕ) (buf : Vector UInt8 room) : Filled digits digits buf 0 :=
  ⟨rfl, Nat.zero_add _⟩

lemma take_storeSlot (hi : i < room) (buf : Vector UInt8 room) (byte : UInt8) :
    ∃ buf', storeSlot buf i byte = some buf' ∧
      buf'.toList.take (i + 1) = buf.toList.take i ++ [byte] := by
  refine ⟨buf.set i byte, dif_pos hi, ?_⟩
  rw [List.take_add_one, Vector.getElem?_toList, Vector.getElem?_set_self hi, Vector.toList_set,
    List.take_set_of_le (Nat.le_refl i)]
  rfl

lemma Filled.store (h : Filled digits (d :: rest) buf i) (hroom : digits.length ≤ room) :
    ∃ buf', storeSlot buf i (asciiDigit d) = some buf' ∧ Filled digits rest buf' (i + 1) := by
  obtain ⟨hbytes, hlength⟩ := h
  rw [List.length_cons] at hlength
  obtain ⟨buf', hstore, htake⟩ := take_storeSlot (by omega : i < room) buf (asciiDigit d)
  refine ⟨buf', hstore, ?_, by omega⟩
  rw [hbytes, htake, List.append_assoc]
  rfl

lemma digitByte_decimal (hd : d < 10) (hwidth : 2 ^ 8 ≤ 2 ^ width) :
    digitByte width 48 d = some (asciiDigit d) := by
  rw [digitByte, checkedAdd_eq_some.mpr ⟨by omega, rfl⟩]
  dsimp only [Option.bind_eq_bind, Option.bind_some]
  rw [checkedCast_eq_some.mpr ⟨by omega, rfl⟩, asciiDigit, if_pos hd]
  rfl

lemma digitChar_eq (hd : d < 10) : digitChar d = some (asciiDigit d) := by
  rw [digitChar, checkedCast_eq_some.mpr ⟨by omega, rfl⟩]
  dsimp only [Option.bind_eq_bind, Option.bind_some]
  rw [checkedAdd_eq_some.mpr ⟨by omega, rfl⟩, asciiDigit, if_pos hd, Nat.add_comm]
  rfl

/-- The loop has put the lowest digits of the number into the buffer. -/
def DigitLoop.Of (n : ℕ) (s : DigitLoop room) : Prop :=
  Filled (Nat.digits 10 n) (Nat.digits 10 s.n) s.buf s.i

lemma DigitLoop.Of.pass {s : DigitLoop room} (h : s.Of n) (hwidth : 2 ^ 8 ≤ 2 ^ width)
    (hroom : room < 2 ^ 64) (hlength : (Nat.digits 10 n).length ≤ room) (hpos : 0 < s.n) :
    ∃ next, digitPass width s = some next ∧ next.Of n ∧
      (Nat.digits 10 next.n).length < (Nat.digits 10 s.n).length := by
  rw [Of, Nat.digits_def' (by omega) hpos] at h
  obtain ⟨buf', hstore, hnext⟩ := h.store hlength
  have hi := h.2
  rw [List.length_cons] at hi
  refine ⟨⟨buf', s.n / 10, s.i + 1⟩, ?_, hnext, ?_⟩
  · rw [digitPass, checkedMod_eq_some.mpr ⟨by omega, rfl⟩,
      checkedDiv_eq_some.mpr ⟨by omega, rfl⟩, checkedAdd_eq_some.mpr ⟨by omega, rfl⟩]
    dsimp only [Option.bind_eq_bind, Option.bind_some]
    rw [digitByte_decimal (Nat.mod_lt _ (by omega)) hwidth, Option.bind_some, hstore]
    rfl
  · show (Nat.digits 10 (s.n / 10)).length < _
    rw [Nat.digits_def' (by omega) hpos, List.length_cons]
    omega

/-- **The digits of a number** end up in the buffer, the lowest one first. -/
lemma fillDigits_eq (hwidth : 2 ^ 8 ≤ 2 ^ width) (hroom : room < 2 ^ 64) (hn : n < 10 ^ room) :
    ∃ s, fillDigits width room n = some s ∧ Filled (Nat.digits 10 n) [] s.buf s.i := by
  have hlength := (Nat.digits_length_le_iff (by omega : 1 < 10) n).mpr hn
  have hstart : DigitLoop.Of n ⟨Vector.replicate room 0, n, 0⟩ := filled_start _ _
  obtain ⟨s, hs, hfilled, hend⟩ := whileLoop_spec (DigitLoop.Of n)
    (fun s : DigitLoop room => (Nat.digits 10 s.n).length)
    (fun s hcond h => h.pass hwidth hroom hlength (of_decide_eq_true hcond)) hstart hlength
  have hzero : s.n = 0 := by simpa using hend
  rw [DigitLoop.Of, hzero, Nat.digits_zero] at hfilled
  exact ⟨s, hs, hfilled⟩

/-! ## Digits given away -/

section Emission

variable {S σ ε : Type} {put : S → UInt8 → Traced σ ε S}

/-- The bytes are put one after another. -/
def putAll (put : S → UInt8 → Traced σ ε S) : List UInt8 → S → Traced σ ε S
  | [], s => pure s
  | byte :: text, s => put s byte >>= putAll put text

lemma putAll_singleton (byte : UInt8) (s : S) : putAll put [byte] s = put s byte :=
  bind_pure_right _

lemma emitBack_eq (hi : i ≤ room) (s : S) :
    emitBack put buf i s = putAll put (buf.toList.take i).reverse s := by
  induction i generalizing s with
  | zero => rfl
  | succ i ih =>
    have hslot : buf[i]? = some buf[i] := Vector.getElem?_eq_getElem hi
    rw [emitBack, List.take_add_one, Vector.getElem?_toList, hslot, ofOption_bind_some]
    simp only [Option.toList_some, List.reverse_append, List.reverse_singleton,
      List.singleton_append, putAll]
    congr 1
    funext s'
    exact ih (Nat.le_of_succ_le hi) s'

/-- **A number in decimal** is put as its canonical numeral. -/
lemma putDecimal_eq (hwidth : 2 ^ 8 ≤ 2 ^ width) (hroom : room < 2 ^ 64) (hn : n < 10 ^ room)
    (s : S) : putDecimal put width room n s = putAll put (numeral 10 n) s := by
  rw [putDecimal, numeral, lowDigits]
  split
  · exact (putAll_singleton 48 s).symm
  · obtain ⟨loop, hloop, hbytes, hlength⟩ := fillDigits_eq hwidth hroom hn
    have hle := (Nat.digits_length_le_iff (by omega : 1 < 10) n).mpr hn
    rw [List.length_nil] at hlength
    rw [hloop, ofOption_bind_some, emitBack_eq (by omega), hbytes, List.map_nil, List.append_nil]

lemma nibbleByte_eq (hwidth : 2 ^ 8 ≤ 2 ^ width) (hk : 4 * k < width) (v : ℕ) :
    nibbleByte width v (4 * k : ℕ) = some (asciiDigit (v / 16 ^ k % 16)) := by
  have hshift : v / 2 ^ (4 * k) &&& 15 = v / 16 ^ k % 16 := by
    rw [Nat.pow_mul]
    exact Nat.and_two_pow_sub_one_eq_mod _ 4
  have hlt : v / 16 ^ k % 16 < 16 := Nat.mod_lt _ (by omega)
  rw [nibbleByte, if_pos (Int.natCast_nonneg _), Int.toNat_natCast]
  dsimp only [Option.bind_eq_bind, Option.bind_some]
  rw [checkedShr_eq_some.mpr ⟨hk, rfl⟩, Option.bind_some, hshift, asciiDigit]
  split
  · next hdecimal =>
    rw [digitByte_decimal hdecimal hwidth, asciiDigit, if_pos hdecimal]
  · rw [digitByte, checkedAdd_eq_some.mpr ⟨by omega, rfl⟩]
    dsimp only [Option.bind_eq_bind, Option.bind_some]
    rw [checkedCast_eq_some.mpr ⟨by omega, rfl⟩]
    rfl

lemma nextShift_eq (hk : 4 * k < 2 ^ 31) : nextShift (4 * k : ℕ) = some (4 * k - 4 : ℤ) := by
  rw [nextShift, if_pos (by omega), Nat.cast_mul, Nat.cast_ofNat]

/-- **The loop over the nibbles** puts those from its shift down to the lowest one. -/
lemma putNibbles_eq (hwidth : 2 ^ 8 ≤ 2 ^ width) (hbound : width < 2 ^ 31) (hk : 4 * k ≤ width)
    (v : ℕ) (s : S) : putNibbles put width v (k + 1) (4 * k - 4) s =
      putAll put ((fixedDigits 16 v k).map asciiDigit) s := by
  induction k generalizing s with
  | zero => rw [putNibbles, if_neg (by omega)]; rfl
  | succ k ih =>
    have hshift : (4 * (k + 1 : ℕ) - 4 : ℤ) = (4 * k : ℕ) := by omega
    rw [hshift, putNibbles, if_pos (Int.natCast_nonneg _), nibbleByte_eq hwidth (by omega),
      nextShift_eq (by omega), fixedDigits, List.map_cons, putAll, ofOption_bind_some]
    congr 1
    funext s'
    rw [ofOption_bind_some]
    exact ih (by omega) s'

/-- **A number in hexadecimal** is put as the numeral of the width behind `0x`. -/
lemma putHex_eq (hwidth : 2 ^ 8 ≤ 2 ^ width) (hbound : width < 2 ^ 31) (hk : 4 * (k + 1) ≤ width)
    (v : ℕ) (s : S) : putHex put width v (4 * k : ℕ) s =
      putAll put (48 :: 120 :: (fixedDigits 16 v (k + 1)).map asciiDigit) s := by
  have hfuel : 4 * k / 4 + 2 = k + 1 + 1 := by omega
  have hshift : ((4 * k : ℕ) : ℤ) = 4 * (k + 1 : ℕ) - 4 := by omega
  rw [putHex, putAll]
  congr 1
  funext s₁
  rw [putAll]
  congr 1
  funext s₂
  rw [Int.toNat_natCast, hfuel, hshift]
  exact putNibbles_eq hwidth hbound hk v s₂

end Emission

/-! ## Digits returned -/

lemma lowDigits_succ (n : ℕ) :
    lowDigits 10 n = n % 10 :: if n / 10 = 0 then [] else lowDigits 10 (n / 10) := by
  by_cases hn : n = 0
  · subst hn
    rfl
  · rw [lowDigits, if_neg hn, Nat.digits_def' (by omega) (Nat.pos_of_ne_zero hn)]
    split
    · next h => rw [h, Nat.digits_zero]
    · next h => rw [lowDigits, if_neg h]

lemma length_lowDigits_u32 (value : UInt32) : (lowDigits 10 value.toNat).length ≤ 10 := by
  have hlt := value.toNat_lt
  exact length_lowDigits_le (by omega) (by omega) (by omega)

/-- The loop of `format_u32` extracts at least one digit. -/
lemma extract_eq (value : UInt32) :
    ∃ s, loopUntil extractPass 11 ⟨Vector.replicate 10 0, value.toNat, 0⟩ = some s ∧
      Filled (lowDigits 10 value.toNat) [] s.buf s.i := by
  have hlength := length_lowDigits_u32 value
  refine loopUntil_spec
    (fun s : DigitLoop 10 => Filled (lowDigits 10 value.toNat) (lowDigits 10 s.n) s.buf s.i)
    (fun s => (lowDigits 10 s.n).length) (fun s hs => ?_) (filled_start _ _)
    (Nat.lt_succ_of_le hlength)
  obtain ⟨buf', hstore, hnext⟩ := Filled.store (lowDigits_succ s.n ▸ hs) hlength
  have hi := hs.2
  rw [lowDigits_succ, List.length_cons] at hi
  have hpass : extractPass s = some (if s.n / 10 = 0 then .inr ⟨buf', s.n / 10, s.i + 1⟩
      else .inl ⟨buf', s.n / 10, s.i + 1⟩) := by
    rw [extractPass, checkedMod_eq_some.mpr ⟨by omega, rfl⟩,
      checkedDiv_eq_some.mpr ⟨by omega, rfl⟩, checkedAdd_eq_some.mpr ⟨by omega, rfl⟩]
    dsimp only [Option.bind_eq_bind, Option.bind_some]
    rw [digitChar_eq (Nat.mod_lt _ (by omega)), Option.bind_some, hstore]
    rfl
  rw [hpass]
  by_cases hlast : s.n / 10 = 0
  · rw [if_pos hlast] at hnext ⊢
    exact .inr ⟨_, rfl, hnext⟩
  · rw [if_neg hlast] at hnext ⊢
    refine .inl ⟨_, rfl, hnext, ?_⟩
    show (lowDigits 10 (s.n / 10)).length < (lowDigits 10 s.n).length
    rw [lowDigits_succ s.n, if_neg hlast, List.length_cons]
    omega

/-- The loop of `format_u32` that turns the digits around. -/
lemma reverse_eq (tmp : Vector UInt8 10) {count : ℕ} (hcount : count ≤ 10) :
    ∃ out, whileLoop (fun r => decide (r.2 < count)) (reversePass tmp count) 10
      (Vector.replicate 10 0, 0) = some (out, count) ∧
      out.toList.take count = (tmp.toList.take count).reverse := by
  have hpass : ∀ r : Vector UInt8 10 × ℕ, decide (r.2 < count) = true →
      (r.2 ≤ count ∧ r.1.toList.take r.2 = (tmp.toList.take count).reverse.take r.2) →
      ∃ next, reversePass tmp count r = some next ∧
        (next.2 ≤ count ∧ next.1.toList.take next.2 =
          (tmp.toList.take count).reverse.take next.2) ∧ count - next.2 < count - r.2 := by
    rintro ⟨out, i⟩ hcond ⟨-, htake⟩
    have hi : i < count := of_decide_eq_true hcond
    dsimp only at htake ⊢
    have hbyte : tmp[count - 1 - i]? = some tmp[count - 1 - i] :=
      Vector.getElem?_eq_getElem (by omega)
    obtain ⟨out', hstore, hnext⟩ := take_storeSlot (by omega : i < 10) out tmp[count - 1 - i]
    refine ⟨(out', i + 1), ?_, ⟨hi, ?_⟩, by omega⟩
    · rw [reversePass, checkedSub_eq_some.mpr ⟨by omega, rfl⟩,
        checkedAdd_eq_some.mpr ⟨by omega, rfl⟩]
      dsimp only [Option.bind_eq_bind, Option.bind_some]
      rw [checkedSub_eq_some.mpr ⟨by omega, rfl⟩, Option.bind_some, hbyte, Option.bind_some, hstore]
      rfl
    · have hlength : (tmp.toList.take count).length = count := by
        rw [List.length_take, Vector.length_toList]
        omega
      have hslot : (tmp.toList.take count).reverse[i]? = some tmp[count - 1 - i] := by
        rw [List.getElem?_reverse (by omega), hlength, List.getElem?_take_of_lt (by omega),
          Vector.getElem?_toList, hbyte]
      rw [hnext, htake, List.take_add_one, hslot]
      rfl
  obtain ⟨⟨out, i⟩, hrun, ⟨hle, htake⟩, hend⟩ := whileLoop_spec
    (s := (Vector.replicate 10 0, 0)) (fun r : Vector UInt8 10 × ℕ => r.2 ≤ count ∧
      r.1.toList.take r.2 = (tmp.toList.take count).reverse.take r.2)
    (fun r => count - r.2) hpass ⟨Nat.zero_le count, rfl⟩
    ((Nat.sub_le _ _).trans hcount)
  obtain rfl : i = count := by
    have hnot : ¬i < count := of_decide_eq_false hend
    dsimp only at hle
    omega
  refine ⟨out, hrun, ?_⟩
  dsimp only at htake
  rw [htake]
  apply List.take_of_length_le
  rw [List.length_reverse, List.length_take]
  omega

/-- **A number in decimal** is returned as its canonical numeral. -/
lemma formatU32_eq (value : UInt32) :
    ∃ d, formatU32 value = some d ∧ d.digits.toList.take d.len = numeral 10 value.toNat := by
  obtain ⟨s, hs, hbytes, hi⟩ := extract_eq value
  have hlength := length_lowDigits_u32 value
  rw [List.length_nil] at hi
  obtain ⟨out, hout, htake⟩ := reverse_eq s.buf (by omega : s.i ≤ 10)
  refine ⟨⟨out, s.i⟩, ?_, ?_⟩
  · rw [formatU32, hs]
    dsimp only [Option.bind_eq_bind, Option.bind_some]
    rw [hout]
    rfl
  · show out.toList.take s.i = _
    rw [htake, numeral, hbytes, List.map_nil, List.append_nil]

/-! ## Agreement -/

section Agreement

variable {A σ ε : Type} [DecidableEq A]

/-- Where the buffer has room for the bytes the program appends them, and touches only the block of
the buffer. -/
def Appends (prog : Vec A → BlockProgram A (Vec A)) (text : List UInt8) : Prop :=
  ∀ sb m blocks xs, Represents byteType sb m blocks xs → sb.len + text.length ≤ sb.cap →
    ∃ sb' m' trace, prog sb m = ⟨some sb', m', trace⟩ ∧ SoundTrace blocks trace ∧
      Represents byteType sb' m' blocks (xs ++ text)

lemma appends_putAll (answers : ℕ → ℕ) (text : List UInt8) :
    Appends (putAll (sbPutByte (A := A) answers) text) text := by
  intro sb m blocks xs h hroom
  induction text generalizing sb m xs with
  | nil => exact ⟨sb, m, [], rfl, trivial, by rwa [List.append_nil]⟩
  | cons byte text ih =>
    rw [List.length_cons] at hroom
    have hfree : sb.len < sb.cap := by omega
    have hrest : sb.len + 1 + text.length ≤ sb.cap := by omega
    obtain ⟨sb', m', trace, hrun, hsound, hnext⟩ := ih _ _ _ (h.append hfree byte) hrest
    refine ⟨sb', m', _ :: trace, ?_, ⟨h.allowed hfree, hsound⟩, ?_⟩
    · have hpush : sbPutByte answers sb byte m = _ := vecPush_room h hfree byte (answers sb.len)
      rw [putAll, bind_of_eq hpush, hrun]
      rfl
    · rwa [List.append_assoc] at hnext

lemma fmtPutHexFrom_eq (sink : UInt8 → Traced σ ε Unit) (v : UInt64) (hk : 4 * (k + 1) ≤ 64) :
    fmtPutHexFrom sink v (4 * k : ℕ) =
      putAll (fun _ => sink) (48 :: 120 :: (fixedDigits 16 v.toNat (k + 1)).map asciiDigit) () :=
  putHex_eq (by omega : 2 ^ 8 ≤ 2 ^ 64) (by omega) hk v.toNat ()

/-- **The renderers agree.**  In decimal each of the three gives the one canonical numeral of a word
of 32 bits, and `fmt_put_dec` also that of a word of 64 bits.  In hexadecimal each gives `0x` and the
numeral that has one digit for every four bits.  None of them traps, whatever the sink is. -/
theorem renderers_agree (n : UInt32) (v : UInt64) :
    (∃ decimal, (∀ text, IsCanonical 10 text n.toNat ↔ text = decimal) ∧
      (∀ answers, Appends (fun sb : Vec A => sbPutU32 answers sb n) decimal) ∧
      (∃ d, formatU32 n = some d ∧ d.digits.toList.take d.len = decimal) ∧
      ∀ sink : UInt8 → Traced σ ε Unit,
        fmtPutDec sink n.toUInt64 = putAll (fun _ => sink) decimal ()) ∧
    (∃ decimal, (∀ text, IsCanonical 10 text v.toNat ↔ text = decimal) ∧
      ∀ sink : UInt8 → Traced σ ε Unit,
        fmtPutDec sink v = putAll (fun _ => sink) decimal ()) ∧
    (∃ digits, digits.length = 8 ∧ IsNumeral 16 digits n.toNat ∧
      (∀ answers, Appends (fun sb : Vec A => sbPutHexU32 answers sb n) (48 :: 120 :: digits)) ∧
      ∀ sink : UInt8 → Traced σ ε Unit,
        fmtPutHex32 sink n = putAll (fun _ => sink) (48 :: 120 :: digits) ()) ∧
    ∃ digits, digits.length = 16 ∧ IsNumeral 16 digits v.toNat ∧
      ∀ sink : UInt8 → Traced σ ε Unit,
        fmtPutHex64 sink v = putAll (fun _ => sink) (48 :: 120 :: digits) () := by
  have hn := n.toNat_lt
  have hv := v.toNat_lt
  have hcanonical : ∀ n text, IsCanonical 10 text n ↔ text = numeral 10 n := fun n text =>
    isCanonical_iff (by omega) (by omega)
  have hdec : ∀ (v : UInt64) (sink : UInt8 → Traced σ ε Unit),
      fmtPutDec sink v = putAll (fun _ => sink) (numeral 10 v.toNat) () := fun v sink => by
    have hv := v.toNat_lt
    exact putDecimal_eq (by omega) (by omega) (by omega) ()
  have hhex : ∀ n k, ((fixedDigits 16 n k).map asciiDigit).length = k := fun n k => by
    rw [List.length_map, length_fixedDigits]
  refine ⟨⟨_, hcanonical _, fun answers => ?_, formatU32_eq n, fun sink => ?_⟩,
    ⟨_, hcanonical _, hdec v⟩,
    ⟨_, hhex n.toNat 8, isNumeral_fixedDigits (by omega) (by omega), fun answers => ?_,
      fun sink => ?_⟩,
    _, hhex v.toNat 16, isNumeral_fixedDigits (by omega) (by omega), fun sink => ?_⟩
  · have hsame : (fun sb : Vec A => sbPutU32 answers sb n) =
        putAll (sbPutByte answers) (numeral 10 n.toNat) :=
      funext fun sb => putDecimal_eq (by omega) (by omega) (by omega) sb
    exact hsame ▸ appends_putAll answers _
  · have hwide : n.toUInt64.toNat = n.toNat := UInt32.toNat_toUInt64 n
    exact hwide ▸ hdec n.toUInt64 sink
  · have hsame : (fun sb : Vec A => sbPutHexU32 answers sb n) =
        putAll (sbPutByte answers) (48 :: 120 :: (fixedDigits 16 n.toNat 8).map asciiDigit) :=
      funext fun sb => putHex_eq (k := 7) (by omega) (by omega) (by omega) n.toNat sb
    exact hsame ▸ appends_putAll answers _
  · have hwide : n.toUInt64.toNat = n.toNat := UInt32.toNat_toUInt64 n
    exact hwide ▸ fmtPutHexFrom_eq (k := 7) sink n.toUInt64 (by omega)
  · exact fmtPutHexFrom_eq (k := 15) sink v (by omega)

/-- The largest word, in a buffer with room for 16 bytes. -/
theorem renderers_agree_max : ∃ sb m trace,
    sbPutU32 (fun _ => 0) ⟨64, 0, 16, ()⟩ 4294967295 (fun _ => 0) = ⟨some sb, m, trace⟩ ∧
      Represents byteType sb m [⟨(), 64, 16⟩] [52, 50, 57, 52, 57, 54, 55, 50, 57, 53] := by
  obtain ⟨⟨decimal, hunique, hbuffer, -⟩, -⟩ := renderers_agree (A := Unit) (σ := Unit) (ε := Unit)
    4294967295 0
  have hdecimal : numeral 10 4294967295 = decimal :=
    (hunique _).mp ((isCanonical_iff (by omega) (by omega)).mpr rfl)
  have htext : numeral 10 4294967295 = [52, 50, 57, 52, 57, 54, 55, 50, 57, 53] := by
    simp [numeral, lowDigits, asciiDigit]
  have hempty : Represents byteType (⟨64, 0, 16, ()⟩ : Vec Unit) (fun _ => 0) [⟨(), 64, 16⟩] [] := by
    refine ⟨rfl, Nat.zero_le 16, ?_, ?_, fun _ => ⟨?_, ?_⟩, rfl, by simp⟩
    · exact (by omega : 16 < 2 ^ 64)
    · exact (by omega : 16 * 1 < 2 ^ 64)
    · exact (by omega : 64 < 2 ^ 64)
    · exact (by omega : 64 + 16 * 1 ≤ 2 ^ 64)
  obtain ⟨sb, m, trace, hrun, -, hbytes⟩ := hbuffer (fun _ => 0) _ _ _ _ hempty (by
    rw [← hdecimal, htext]
    decide)
  rw [← hdecimal, htext] at hbytes
  exact ⟨sb, m, trace, hrun, hbytes⟩

end Agreement

end ModernC.Numbers
