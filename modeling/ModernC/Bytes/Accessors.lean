import ModernC.Bytes.ByteReader

/-!
# Reads and writes stay in their region

A read in range is the number that the bytes spell, and it loads these bytes.  Out of range a total
read answers an error, a trapping read or a write traps, and a write has not stored anything.  No
access leaves the region.  The main result, `accessors_confined`, assumes that the region ends in
the address space.
-/

namespace ModernC.Bytes

open Framework Framework.Traced Alloc

variable {α : Type}

/-! ## Laws -/

/-- The loads of some bytes, in the order of their addresses. -/
def loads (a n : ℕ) : List Access := (List.range n).map fun k => .load (a + k)

def stores (a n : ℕ) : List Access := (List.range n).map fun k => .store (a + k)

/-- The access is a load of a byte of the region. -/
def LoadsFrom (base len : ℕ) (access : Access) : Prop :=
  ∃ a, access = .load a ∧ base ≤ a ∧ a < base + len

/-- What a trapping read of so many bytes does. -/
structure ReadLaw (base len w : ℕ) (order : ByteOrder) (toNat : α → ℕ)
    (read : ℕ → ByteProgram α) : Prop where
  inside : ∀ off m, off + w ≤ len → ∃ value,
    read off m = ⟨some value, m, loads (base + off) w⟩ ∧
      toNat value = spelled order m (base + off) w
  outside : ∀ off m, len < off + w → (read off m).result = none
  confined : ∀ off, Keeps Eq (LoadsFrom base len) (read off)

/-- What a total read of so many bytes does. -/
structure TryLaw (base len w : ℕ) (order : ByteOrder) (toNat : α → ℕ)
    (read : ℕ → ByteProgram (Except BytesError α)) : Prop where
  inside : ∀ off m, off + w ≤ len → ∃ value,
    read off m = ⟨some (.ok value), m, loads (base + off) w⟩ ∧
      toNat value = spelled order m (base + off) w
  outside : ∀ off m, len < off + w → read off m = ⟨some (.error .outOfBounds), m, []⟩

/-- What a write of so many bytes does. -/
structure WriteLaw (base len w : ℕ) (order : ByteOrder) (toNat : α → ℕ)
    (write : ℕ → α → ByteProgram Unit) : Prop where
  inside : ∀ off value m, off + w ≤ len → ∃ m',
    write off value m = ⟨some (), m', stores (base + off) w⟩ ∧
      spelled order m' (base + off) w = toNat value ∧
      ∀ a, a < base + off ∨ base + off + w ≤ a → m' a = m a
  outside : ∀ off value m, len < off + w → write off value m = ⟨none, m, []⟩

/-- What is written is read back. -/
def RoundTrip (len w : ℕ) (write : ℕ → α → ByteProgram Unit) (read : ℕ → ByteProgram α) : Prop :=
  ∀ off value m, off + w ≤ len →
    ((do write off value; read off : ByteProgram α) m).result = some value

/-- A total read finds what the trapping read does. -/
def SameReads (read : ℕ → ByteProgram α) (tryRead : ℕ → ByteProgram (Except BytesError α)) : Prop :=
  ∀ off m, (tryRead off m).result =
    some ((read off m).result.elim (.error .outOfBounds) .ok)

variable {base len w : ℕ} {order : ByteOrder} {toNat : α → ℕ}

lemma WriteLaw.roundTrip {write : ℕ → α → ByteProgram Unit} {read : ℕ → ByteProgram α}
    (hwrite : WriteLaw base len w order toNat write) (hread : ReadLaw base len w order toNat read)
    (hinj : Function.Injective toNat) : RoundTrip len w write read := by
  intro off value m hin
  obtain ⟨m', hstored, hspelled, -⟩ := hwrite.inside off value m hin
  obtain ⟨value', hloaded, hvalue⟩ := hread.inside off m' hin
  have hsame : value' = value := hinj (hvalue.trans hspelled)
  rw [bind_of_eq hstored, hloaded, hsame]
  rfl

lemma ReadLaw.sameReads {read : ℕ → ByteProgram α} {tryRead : ℕ → ByteProgram (Except BytesError α)}
    (hread : ReadLaw base len w order toNat read) (htry : TryLaw base len w order toNat tryRead)
    (hinj : Function.Injective toNat) : SameReads read tryRead := by
  intro off m
  by_cases hin : off + w ≤ len
  · obtain ⟨value, hloaded, hvalue⟩ := hread.inside off m hin
    obtain ⟨value', htried, hvalue'⟩ := htry.inside off m hin
    have hsame : value' = value := hinj (hvalue'.trans hvalue.symm)
    rw [htried, hloaded, hsame]
    rfl
  · rw [htry.outside off m (by omega), hread.outside off m (by omega)]
    rfl

/-! ## Single bytes -/

/-- Bytes of the region can be read. -/
def ReadsBytes (base len : ℕ) (byte : ℕ → ByteProgram UInt8) : Prop :=
  ∀ off m, off < len → byte off m = ⟨some (m (base + off)), m, [.load (base + off)]⟩

/-- Bytes of the region can be written. -/
def WritesBytes (base len : ℕ) (byte : ℕ → UInt8 → ByteProgram Unit) : Prop :=
  ∀ off value m, off < len →
    byte off value m = ⟨some (), storeByte m (base + off) value, [.store (base + off)]⟩

/-- Other bytes cannot, and no other byte is loaded. -/
structure ChecksBytes (base len : ℕ) (byte : ℕ → ByteProgram UInt8) : Prop where
  reads : ReadsBytes base len byte
  traps : ∀ off m, len ≤ off → byte off m = ⟨none, m, []⟩

variable {off : ℕ}

lemma offsetAdd_bind {β : Type} {k : ℕ} (h : off + k < 2 ^ 64) (p : ℕ → ByteProgram β) :
    (offsetAdd off k >>= p) = p (off + k) := by
  rw [offsetAdd, checkedAdd_eq_some.mpr ⟨h, rfl⟩, ofOption_bind_some]

/-- A sum that overflows traps, and one that does not is the offset of the next part. -/
lemma offsetAdd_outside {β : Type} {k : ℕ} {p : ℕ → ByteProgram β} {m : Memory}
    (h : (p (off + k) m).result = none) : ((offsetAdd off k >>= p) m).result = none := by
  by_cases hfits : off + k < 2 ^ 64
  · rwa [offsetAdd_bind hfits]
  · rw [offsetAdd, checkedAdd, if_neg hfits]
    rfl

lemma ChecksBytes.outside {β : Type} {byte : ℕ → ByteProgram UInt8}
    (h : ChecksBytes base len byte) (hout : len ≤ off) (f : UInt8 → ByteProgram β)
    (m : Memory) : ((byte off >>= f) m).result = none :=
  congrArg Outcome.result (bind_of_trap (h.traps off m hout))

lemma ChecksBytes.keeps {byte : ℕ → ByteProgram UInt8} (h : ChecksBytes base len byte) (off : ℕ) :
    Keeps Eq (LoadsFrom base len) (byte off) := by
  intro m
  by_cases hin : off < len
  · rw [h.reads off m hin]
    refine ⟨rfl, fun access haccess => ⟨base + off, List.mem_singleton.mp haccess, ?_, ?_⟩⟩
    · exact Nat.le_add_right _ _
    · exact Nat.add_lt_add_left hin base
  · rw [h.traps off m (by omega)]
    exact ⟨rfl, fun access haccess => absurd haccess List.not_mem_nil⟩

/-! ## Several bytes -/

section Several

variable {byte : ℕ → ByteProgram UInt8} {off : ℕ}

lemma read2_eq (h : ReadsBytes base len byte) (hfits : base + len ≤ 2 ^ 64) (hin : off + 2 ≤ len)
    (assemble : UInt8 → UInt8 → α) (m : Memory) :
    read2 byte assemble off m =
      ⟨some (assemble (m (base + off)) (m (base + off + 1))), m, loads (base + off) 2⟩ := by
  rw [read2, bind_of_eq (h off m (by omega)), offsetAdd_bind (by omega),
    bind_of_eq (h (off + 1) m (by omega))]
  rfl

lemma read4_eq (h : ReadsBytes base len byte) (hfits : base + len ≤ 2 ^ 64) (hin : off + 4 ≤ len)
    (assemble : UInt8 → UInt8 → UInt8 → UInt8 → α) (m : Memory) :
    read4 byte assemble off m =
      ⟨some (assemble (m (base + off)) (m (base + off + 1)) (m (base + off + 2))
        (m (base + off + 3))), m, loads (base + off) 4⟩ := by
  rw [read4, bind_of_eq (h off m (by omega)), offsetAdd_bind (by omega),
    bind_of_eq (h (off + 1) m (by omega)), offsetAdd_bind (by omega),
    bind_of_eq (h (off + 2) m (by omega)), offsetAdd_bind (by omega),
    bind_of_eq (h (off + 3) m (by omega))]
  rfl

lemma read2_outside (h : ChecksBytes base len byte) (hout : len < off + 2)
    (assemble : UInt8 → UInt8 → α) (m : Memory) : (read2 byte assemble off m).result = none := by
  exact result_bind_of_rest fun _ m => offsetAdd_outside (h.outside (by omega) _ m)

lemma read4_outside (h : ChecksBytes base len byte) (hout : len < off + 4)
    (assemble : UInt8 → UInt8 → UInt8 → UInt8 → α) (m : Memory) :
    (read4 byte assemble off m).result = none := by
  refine result_bind_of_rest fun _ _ => result_bind_of_rest fun _ _ => ?_
  refine result_bind_of_rest fun _ _ => result_bind_of_rest fun _ _ => ?_
  exact result_bind_of_rest fun _ m => offsetAdd_outside (h.outside (by omega) _ m)

lemma keeps_offsetAdd (off k : ℕ) : Keeps Eq (LoadsFrom base len) (offsetAdd off k) :=
  keeps_ofOption (fun _ => rfl) _

/-- The rule for sequences of loads. -/
lemma keeps_seq {β γ : Type} {p : ByteProgram β} {f : β → ByteProgram γ}
    (hp : Keeps Eq (LoadsFrom base len) p) (hf : ∀ b, Keeps Eq (LoadsFrom base len) (f b)) :
    Keeps Eq (LoadsFrom base len) (p >>= f) :=
  hp.bind (fun _ _ _ => Eq.trans) hf

lemma read2_keeps (h : ChecksBytes base len byte) (assemble : UInt8 → UInt8 → α) (off : ℕ) :
    Keeps Eq (LoadsFrom base len) (read2 byte assemble off) := by
  refine keeps_seq (h.keeps off) fun b0 => keeps_seq (keeps_offsetAdd off 1) fun off1 => ?_
  refine keeps_seq (h.keeps off1) fun b1 => ?_
  exact keeps_pure (fun _ => rfl) _

lemma read4_keeps (h : ChecksBytes base len byte) (assemble : UInt8 → UInt8 → UInt8 → UInt8 → α)
    (off : ℕ) : Keeps Eq (LoadsFrom base len) (read4 byte assemble off) := by
  refine keeps_seq (h.keeps off) fun b0 => keeps_seq (keeps_offsetAdd off 1) fun off1 => ?_
  refine keeps_seq (h.keeps off1) fun b1 => keeps_seq (keeps_offsetAdd off 2) fun off2 => ?_
  refine keeps_seq (h.keeps off2) fun b2 => keeps_seq (keeps_offsetAdd off 3) fun off3 => ?_
  refine keeps_seq (h.keeps off3) fun b3 => ?_
  exact keeps_pure (fun _ => rfl) _

/-! ## Laws of words -/

lemma ChecksBytes.readLaw (h : ChecksBytes base len byte) (order : ByteOrder) :
    ReadLaw base len 1 order UInt8.toNat byte where
  inside := fun off m hin => ⟨_, h.reads off m hin, (spelled_one order).symm⟩
  outside := fun off m hout => by rw [h.traps off m (by omega)]
  confined := h.keeps

lemma readLaw_read2 (h : ChecksBytes base len byte) (hfits : base + len ≤ 2 ^ 64)
    {assemble : UInt8 → UInt8 → UInt16}
    (hspell : ∀ m a, (assemble (m a) (m (a + 1))).toNat = spelled order m a 2) :
    ReadLaw base len 2 order UInt16.toNat (read2 byte assemble) where
  inside := fun _ m hin => ⟨_, read2_eq h.reads hfits hin assemble m, hspell m _⟩
  outside := fun _ m hout => read2_outside h hout assemble m
  confined := read2_keeps h assemble

lemma readLaw_read4 (h : ChecksBytes base len byte) (hfits : base + len ≤ 2 ^ 64)
    {assemble : UInt8 → UInt8 → UInt8 → UInt8 → UInt32} (hspell : ∀ m a,
      (assemble (m a) (m (a + 1)) (m (a + 2)) (m (a + 3))).toNat = spelled order m a 4) :
    ReadLaw base len 4 order UInt32.toNat (read4 byte assemble) where
  inside := fun _ m hin => ⟨_, read4_eq h.reads hfits hin assemble m, hspell m _⟩
  outside := fun _ m hout => read4_outside h hout assemble m
  confined := read4_keeps h assemble

end Several

end ModernC.Bytes

/-!
## The accessors of a region

Every reader and writer keeps the law of its width and byte order.
-/

namespace ModernC.Bytes

open Framework Framework.Traced Alloc

variable {base len : ℕ}

/-! ## Readers -/

variable {off n : ℕ}

lemma brHas_eq_true {r : ByteReader} : brHas r off n = true ↔ off + n ≤ r.len := by
  rw [brHas]
  split
  · exact iff_of_false Bool.false_ne_true (by omega)
  · rw [decide_eq_true_iff]
    omega

lemma brHas_eq_false {r : ByteReader} (h : r.len < off + n) :
    brHas r off n = false := by
  rw [← Bool.not_eq_true, brHas_eq_true]
  omega

lemma paOffset_eq {a : ℕ} (h : a + off < 2 ^ 64) : paOffset a off = some (a + off) :=
  paOffset_eq_some.mpr ⟨h, rfl⟩

lemma readsBytes_brLoadU8 (hfits : base + len ≤ 2 ^ 64) :
    ReadsBytes base len (brLoadU8 ⟨base, len⟩) := by
  intro off m hin
  have haddr : paOffset base off = some (base + off) := paOffset_eq (by omega)
  show (ofOption (paOffset base off) >>= rawLoad) m = _
  rw [haddr]
  rfl

lemma checksBytes_brU8 (hfits : base + len ≤ 2 ^ 64) :
    ChecksBytes base len (brU8 ⟨base, len⟩) where
  reads := by
    intro off m hin
    have hhas : brHas ⟨base, len⟩ off 1 = true := brHas_eq_true.mpr hin
    have hcheck : brCheck ⟨base, len⟩ off 1 m = ⟨some (), m, []⟩ := by
      rw [brCheck, if_pos hhas]
      rfl
    show (brCheck ⟨base, len⟩ off 1 >>= fun _ => brLoadU8 ⟨base, len⟩ off) m = _
    rw [bind_of_eq hcheck, readsBytes_brLoadU8 hfits off m hin]
    rfl
  traps := by
    intro off m hout
    have hhas : brHas ⟨base, len⟩ off 1 = false := brHas_eq_false (by
      show len < off + 1
      omega)
    have hcheck : brCheck ⟨base, len⟩ off 1 m = ⟨none, m, []⟩ := by
      rw [brCheck, hhas]
      rfl
    exact bind_of_trap hcheck

lemma checksBytes_readU8 (hfits : base + len ≤ 2 ^ 64) :
    ChecksBytes base len (readU8 ⟨base, len⟩) where
  reads := by
    intro off m hin
    have haddr : paOffset base off = some (base + off) := paOffset_eq (by omega)
    rw [readU8, if_neg (Nat.not_le_of_lt hin), haddr]
    rfl
  traps := by
    intro off m hout
    rw [readU8, if_pos hout]
    rfl

/-- A read of eight bytes by its halves. -/
lemma readLaw_brLe64 (hfits : base + len ≤ 2 ^ 64)
    (h : ReadLaw base len 4 .little UInt32.toNat (brLe32 ⟨base, len⟩)) :
    ReadLaw base len 8 .little UInt64.toNat (brLe64 ⟨base, len⟩) where
  inside := by
    intro off m hin
    obtain ⟨lo, hlo, hlow⟩ := h.inside off m (by omega)
    obtain ⟨hi, hhi, hhigh⟩ := h.inside (off + 4) m (by omega)
    refine ⟨le64 lo hi, ?_, ?_⟩
    · rw [brLe64, bind_of_eq hlo, offsetAdd_bind (by omega),
        bind_of_eq hhi]
      rfl
    · rw [toNat_le64, hlow, hhigh, spelled_little_eight, Nat.add_assoc]
  outside := by
    intro off m hout
    refine result_bind_of_rest fun _ m => offsetAdd_outside (result_bind_of_first ?_)
    exact h.outside (off + 4) m (by omega)
  confined := by
    intro off
    refine keeps_seq (h.confined off) fun lo => keeps_seq (keeps_offsetAdd off 4) fun off4 => ?_
    refine keeps_seq (h.confined off4) fun hi => ?_
    exact keeps_pure (fun _ => rfl) _

/-! ## Total readers -/

variable {α : Type}

lemma brTry_inside {w : ℕ} {read : ℕ → ByteProgram α} {value : α} {m : Memory}
    {noted : List Access} (hin : off + w ≤ len) (hread : read off m = ⟨some value, m, noted⟩) :
    brTry w read ⟨base, len⟩ off m = ⟨some (.ok value), m, noted⟩ := by
  have hhas : brHas ⟨base, len⟩ off w = true := brHas_eq_true.mpr hin
  rw [brTry, hhas]
  simp only [Bool.not_true, Bool.false_eq_true, if_false]
  rw [bind_of_eq hread, pure_apply]
  simp only [Outcome.after, List.append_nil]

lemma brTry_outside {w : ℕ} (read : ℕ → ByteProgram α) (m : Memory) (hout : len < off + w) :
    brTry w read ⟨base, len⟩ off m = ⟨some (.error .outOfBounds), m, []⟩ := by
  have hhas : brHas ⟨base, len⟩ off w = false := brHas_eq_false hout
  rw [brTry, hhas]
  rfl

lemma tryLaw_brTryU8 (hfits : base + len ≤ 2 ^ 64) (order : ByteOrder) :
    TryLaw base len 1 order UInt8.toNat (brTryU8 ⟨base, len⟩) where
  inside := fun off m hin =>
    ⟨_, brTry_inside hin (readsBytes_brLoadU8 hfits off m (by omega)), (spelled_one order).symm⟩
  outside := fun _ m hout => brTry_outside _ m hout

lemma tryLaw_read2 (hfits : base + len ≤ 2 ^ 64) {order : ByteOrder}
    {assemble : UInt8 → UInt8 → UInt16}
    (hspell : ∀ m a, (assemble (m a) (m (a + 1))).toNat = spelled order m a 2) :
    TryLaw base len 2 order UInt16.toNat
      (brTry 2 (read2 (brLoadU8 ⟨base, len⟩) assemble) ⟨base, len⟩) where
  inside := fun _ m hin =>
    ⟨_, brTry_inside hin (read2_eq (readsBytes_brLoadU8 hfits) hfits hin assemble m), hspell m _⟩
  outside := fun _ m hout => brTry_outside _ m hout

lemma tryLaw_read4 (hfits : base + len ≤ 2 ^ 64) {order : ByteOrder}
    {assemble : UInt8 → UInt8 → UInt8 → UInt8 → UInt32} (hspell : ∀ m a,
      (assemble (m a) (m (a + 1)) (m (a + 2)) (m (a + 3))).toNat = spelled order m a 4) :
    TryLaw base len 4 order UInt32.toNat
      (brTry 4 (read4 (brLoadU8 ⟨base, len⟩) assemble) ⟨base, len⟩) where
  inside := fun _ m hin =>
    ⟨_, brTry_inside hin (read4_eq (readsBytes_brLoadU8 hfits) hfits hin assemble m), hspell m _⟩
  outside := fun _ m hout => brTry_outside _ m hout

lemma tryLaw_brTryLe64 (hfits : base + len ≤ 2 ^ 64)
    (h : TryLaw base len 4 .little UInt32.toNat (brTryLe32 ⟨base, len⟩)) :
    TryLaw base len 8 .little UInt64.toNat (brTryLe64 ⟨base, len⟩) where
  inside := by
    intro off m hin
    obtain ⟨lo, hlo, hlow⟩ := h.inside off m (by omega)
    obtain ⟨hi, hhi, hhigh⟩ := h.inside (off + 4) m (by omega)
    have hhas : brHas ⟨base, len⟩ off 8 = true := brHas_eq_true.mpr hin
    refine ⟨le64 lo hi, ?_, ?_⟩
    · rw [brTryLe64, hhas]
      simp only [Bool.not_true, Bool.false_eq_true, if_false]
      rw [bind_of_eq hlo]
      dsimp only
      rw [offsetAdd_bind (by omega), bind_of_eq hhi]
      rfl
    · rw [toNat_le64, hlow, hhigh, spelled_little_eight, Nat.add_assoc]
  outside := by
    intro off m hout
    have hhas : brHas ⟨base, len⟩ off 8 = false := brHas_eq_false hout
    rw [brTryLe64, hhas]
    rfl

/-! ## Writers -/

lemma checkRange_inside (hin : off + n ≤ len) (m : Memory) :
    checkRange len off n m = ⟨some (), m, []⟩ := by
  rw [checkRange, if_neg (by omega), if_neg (by omega)]
  rfl

lemma checkRange_outside (hout : len < off + n) (m : Memory) :
    checkRange len off n m = ⟨none, m, []⟩ := by
  rw [checkRange]
  split
  · rfl
  · rw [if_pos (by omega)]
    rfl

lemma writesBytes_bwU8 (hfits : base + len ≤ 2 ^ 64) : WritesBytes base len (bwU8 ⟨base, len⟩) := by
  intro off value m hin
  have haddr : paOffset base off = some (base + off) := paOffset_eq (by omega)
  show (checkRange len off 1 >>= fun _ => ofOption (paOffset base off) >>= fun a =>
    rawStore a value) m = _
  rw [bind_of_eq (checkRange_inside hin m), haddr]
  rfl

lemma writesBytes_writeU8 (hfits : base + len ≤ 2 ^ 64) :
    WritesBytes base len (writeU8 ⟨base, len⟩) := by
  intro off value m hin
  have haddr : paOffset base off = some (base + off) := paOffset_eq (by omega)
  rw [writeU8, if_neg (Nat.not_le_of_lt hin), haddr]
  rfl

section Writers

variable {byte : ℕ → UInt8 → ByteProgram Unit} {off : ℕ}

/-- The memory after two stores. -/
def stored2 (m : Memory) (a : ℕ) (b0 b1 : UInt8) : Memory := storeByte (storeByte m a b0) (a + 1) b1

def stored4 (m : Memory) (a : ℕ) (b0 b1 b2 b3 : UInt8) : Memory :=
  stored2 (stored2 m a b0 b1) (a + 2) b2 b3

lemma write2_eq (h : WritesBytes base len byte) (hfits : base + len ≤ 2 ^ 64)
    (hin : off + 2 ≤ len) (b0 b1 : UInt8) (m : Memory) :
    write2 (checkRange len off 2) byte off b0 b1 m =
      ⟨some (), stored2 m (base + off) b0 b1, stores (base + off) 2⟩ := by
  rw [write2, bind_of_eq (checkRange_inside hin m), bind_of_eq (h off b0 m (by omega)),
    offsetAdd_bind (by omega), h (off + 1) b1 _ (by omega)]
  rfl

lemma write4_eq (h : WritesBytes base len byte) (hfits : base + len ≤ 2 ^ 64)
    (hin : off + 4 ≤ len) (b0 b1 b2 b3 : UInt8) (m : Memory) :
    write4 (checkRange len off 4) byte off b0 b1 b2 b3 m =
      ⟨some (), stored4 m (base + off) b0 b1 b2 b3, stores (base + off) 4⟩ := by
  rw [write4, bind_of_eq (checkRange_inside hin m), bind_of_eq (h off b0 m (by omega)),
    offsetAdd_bind (by omega), bind_of_eq (h (off + 1) b1 _ (by omega)),
    offsetAdd_bind (by omega), bind_of_eq (h (off + 2) b2 _ (by omega)),
    offsetAdd_bind (by omega), h (off + 3) b3 _ (by omega)]
  rfl

lemma stored2_outside {m : Memory} {a b : ℕ} (b0 b1 : UInt8) (h : b < a ∨ a + 2 ≤ b) :
    stored2 m a b0 b1 b = m b := by
  rw [stored2, storeByte, if_neg (by omega), storeByte, if_neg (by omega)]

lemma stored2_fst (m : Memory) (a : ℕ) (b0 b1 : UInt8) : stored2 m a b0 b1 a = b0 := by
  rw [stored2, storeByte, if_neg (by omega), storeByte, if_pos rfl]

lemma stored2_snd (m : Memory) (a : ℕ) (b0 b1 : UInt8) : stored2 m a b0 b1 (a + 1) = b1 := by
  rw [stored2, storeByte, if_pos rfl]

/-- A write of two bytes that spell the value. -/
lemma writeLaw_write2 (h : WritesBytes base len byte) (hfits : base + len ≤ 2 ^ 64)
    {order : ByteOrder} {b0 b1 : UInt16 → UInt8} {assemble : UInt8 → UInt8 → UInt16}
    (hspell : ∀ m a, (assemble (m a) (m (a + 1))).toNat = spelled order m a 2)
    (hbytes : ∀ value, (assemble (b0 value) (b1 value)).toNat = value.toNat) :
    WriteLaw base len 2 order UInt16.toNat fun off value =>
      write2 (checkRange len off 2) byte off (b0 value) (b1 value) where
  inside := by
    intro off value m hin
    refine ⟨_, write2_eq h hfits hin _ _ m, ?_, fun a ha => stored2_outside _ _ ha⟩
    rw [← hspell, stored2_fst, stored2_snd, hbytes]
  outside := fun _ _ m hout => bind_of_trap (checkRange_outside hout m)

/-- A write of four bytes that spell the value. -/
lemma writeLaw_write4 (h : WritesBytes base len byte) (hfits : base + len ≤ 2 ^ 64)
    {order : ByteOrder} {b0 b1 b2 b3 : UInt32 → UInt8}
    {assemble : UInt8 → UInt8 → UInt8 → UInt8 → UInt32} (hspell : ∀ m a,
      (assemble (m a) (m (a + 1)) (m (a + 2)) (m (a + 3))).toNat = spelled order m a 4)
    (hbytes : ∀ value, (assemble (b0 value) (b1 value) (b2 value) (b3 value)).toNat = value.toNat) :
    WriteLaw base len 4 order UInt32.toNat fun off value =>
      write4 (checkRange len off 4) byte off (b0 value) (b1 value) (b2 value) (b3 value) where
  inside := by
    intro off value m hin
    refine ⟨_, write4_eq h hfits hin _ _ _ _ m, ?_, fun a ha => ?_⟩
    · rw [← hspell, stored4, stored2_outside _ _ (by omega), stored2_fst,
        stored2_outside _ _ (by omega), stored2_snd, stored2_fst, stored2_snd, hbytes]
    · rw [stored4, stored2_outside _ _ (by omega), stored2_outside _ _ (by omega)]
  outside := fun _ _ m hout => bind_of_trap (checkRange_outside hout m)

/-- A write of one byte behind a check. -/
lemma writeLaw_byte (h : WritesBytes base len byte) (order : ByteOrder)
    (htraps : ∀ off value m, len ≤ off → byte off value m = ⟨none, m, []⟩) :
    WriteLaw base len 1 order UInt8.toNat byte where
  inside := by
    intro off value m hin
    refine ⟨_, h off value m hin, ?_, fun a ha => ?_⟩
    · rw [spelled_one, storeByte, if_pos rfl]
    · rw [storeByte, if_neg (by omega)]
  outside := fun off value m hout => htraps off value m (by omega)

end Writers

/-- A write of eight bytes by its halves. -/
lemma writeLaw_writeLe64 (hfits : base + len ≤ 2 ^ 64)
    (h : WriteLaw base len 4 .little UInt32.toNat (writeLe32 ⟨base, len⟩)) :
    WriteLaw base len 8 .little UInt64.toNat (writeLe64 ⟨base, len⟩) where
  inside := by
    intro off value m hin
    obtain ⟨m1, hlo, hlow, hkeep1⟩ :=
      h.inside off (value &&& 0x00000000FFFFFFFF).toUInt32 m (by omega)
    obtain ⟨m2, hhi, hhigh, hkeep2⟩ := h.inside (off + 4) (value >>> 32).toUInt32 m1 (by omega)
    have hcheck : cpuCheck ⟨base, len⟩ off 8 m = ⟨some (), m, []⟩ := checkRange_inside hin m
    refine ⟨m2, ?_, ?_, fun a ha => ?_⟩
    · rw [writeLe64, bind_of_eq hcheck, bind_of_eq hlo, offsetAdd_bind (by omega), hhi]
      rfl
    · have hvalue := value.toNat_lt
      have hkept : spelled .little m2 (base + off) 4 = spelled .little m1 (base + off) 4 :=
        loadBytes_congr fun k hk => hkeep2 _ (by omega)
      rw [spelled_little_eight, hkept, hlow, Nat.add_assoc, hhigh, toNat_lowHalf64,
        toNat_highHalf64]
      omega
    · rw [hkeep2 a (by omega), hkeep1 a (by omega)]
  outside := by
    intro off value m hout
    exact bind_of_trap (checkRange_outside hout m)

/-! ## All accessors -/

/-- What the readers and writers of a region do. -/
structure ReaderLaws (base len : ℕ) (r : ByteReader) (w : ByteWriter) : Prop where
  u8 : ReadLaw base len 1 .little UInt8.toNat (brU8 r)
  le16 : ReadLaw base len 2 .little UInt16.toNat (brLe16 r)
  le32 : ReadLaw base len 4 .little UInt32.toNat (brLe32 r)
  le64 : ReadLaw base len 8 .little UInt64.toNat (brLe64 r)
  be16 : ReadLaw base len 2 .big UInt16.toNat (brBe16 r)
  be32 : ReadLaw base len 4 .big UInt32.toNat (brBe32 r)
  tryU8 : TryLaw base len 1 .little UInt8.toNat (brTryU8 r)
  tryLe16 : TryLaw base len 2 .little UInt16.toNat (brTryLe16 r)
  tryLe32 : TryLaw base len 4 .little UInt32.toNat (brTryLe32 r)
  tryLe64 : TryLaw base len 8 .little UInt64.toNat (brTryLe64 r)
  tryBe16 : TryLaw base len 2 .big UInt16.toNat (brTryBe16 r)
  tryBe32 : TryLaw base len 4 .big UInt32.toNat (brTryBe32 r)
  writeU8 : WriteLaw base len 1 .little UInt8.toNat (bwU8 w)
  writeBe16 : WriteLaw base len 2 .big UInt16.toNat (bwBe16 w)
  writeBe32 : WriteLaw base len 4 .big UInt32.toNat (bwBe32 w)

/-- What the accessors of a buffer do. -/
structure BufferLaws (base len : ℕ) (b : CpuBuffer) : Prop where
  u8 : ReadLaw base len 1 .little UInt8.toNat (readU8 b)
  be16 : ReadLaw base len 2 .big UInt16.toNat (readBe16 b)
  be32 : ReadLaw base len 4 .big UInt32.toNat (readBe32 b)
  le32 : ReadLaw base len 4 .little UInt32.toNat (readLe32 b)
  writeU8 : WriteLaw base len 1 .little UInt8.toNat (writeU8 b)
  writeBe16 : WriteLaw base len 2 .big UInt16.toNat (writeBe16 b)
  writeBe32 : WriteLaw base len 4 .big UInt32.toNat (writeBe32 b)
  writeLe16 : WriteLaw base len 2 .little UInt16.toNat (writeLe16 b)
  writeLe32 : WriteLaw base len 4 .little UInt32.toNat (writeLe32 b)
  writeLe64 : WriteLaw base len 8 .little UInt64.toNat (writeLe64 b)

lemma readerLaws (hfits : base + len ≤ 2 ^ 64) : ReaderLaws base len ⟨base, len⟩ ⟨base, len⟩ := by
  have hchecks := checksBytes_brU8 hfits
  have hwrites := writesBytes_bwU8 hfits
  have hle32 : ReadLaw base len 4 .little UInt32.toNat (brLe32 ⟨base, len⟩) :=
    readLaw_read4 hchecks hfits fun _ _ => toNat_le32_spelled
  have htryLe32 : TryLaw base len 4 .little UInt32.toNat (brTryLe32 ⟨base, len⟩) :=
    tryLaw_read4 hfits fun _ _ => toNat_le32_spelled
  constructor
  · exact hchecks.readLaw .little
  · exact readLaw_read2 hchecks hfits fun _ _ => toNat_le16_spelled
  · exact hle32
  · exact readLaw_brLe64 hfits hle32
  · exact readLaw_read2 hchecks hfits fun _ _ => toNat_be16_spelled
  · exact readLaw_read4 hchecks hfits fun _ _ => toNat_be32_spelled
  · exact tryLaw_brTryU8 hfits .little
  · exact tryLaw_read2 hfits fun _ _ => toNat_le16_spelled
  · exact htryLe32
  · exact tryLaw_brTryLe64 hfits htryLe32
  · exact tryLaw_read2 hfits fun _ _ => toNat_be16_spelled
  · exact tryLaw_read4 hfits fun _ _ => toNat_be32_spelled
  · refine writeLaw_byte hwrites .little fun off value m hout => ?_
    exact bind_of_trap (checkRange_outside (Nat.lt_succ_of_le hout) m)
  · exact writeLaw_write2 hwrites hfits (fun _ _ => toNat_be16_spelled)
      fun value => by rw [be16_eq, toNat_bytes16]
  · exact writeLaw_write4 hwrites hfits (fun _ _ => toNat_be32_spelled)
      fun value => by rw [be32_eq, toNat_bytes32]

lemma bufferLaws (hfits : base + len ≤ 2 ^ 64) : BufferLaws base len ⟨base, len⟩ := by
  have hchecks := checksBytes_readU8 hfits
  have hwrites := writesBytes_writeU8 hfits
  have hle32 : WriteLaw base len 4 .little UInt32.toNat (writeLe32 ⟨base, len⟩) :=
    writeLaw_write4 hwrites hfits (fun _ _ => toNat_le32_spelled) toNat_bytes32
  constructor
  · exact hchecks.readLaw .little
  · exact readLaw_read2 hchecks hfits fun _ _ => toNat_be16_spelled
  · exact readLaw_read4 hchecks hfits fun _ _ => toNat_be32_spelled
  · exact readLaw_read4 hchecks hfits fun _ _ => toNat_le32_spelled
  · refine writeLaw_byte hwrites .little fun off value m hout => ?_
    rw [writeU8, if_pos hout]
    rfl
  · exact writeLaw_write2 hwrites hfits (fun _ _ => toNat_be16_spelled)
      fun value => by rw [be16_eq, toNat_bytes16]
  · exact writeLaw_write4 hwrites hfits (fun _ _ => toNat_be32_spelled)
      fun value => by rw [be32_eq, toNat_bytes32]
  · exact writeLaw_write2 hwrites hfits (fun _ _ => toNat_le16_spelled) toNat_bytes16
  · exact hle32
  · exact writeLaw_writeLe64 hfits hle32

/-- What is written to a region is read back from it. -/
structure RoundTrips (len : ℕ) (r : ByteReader) (w : ByteWriter) (b : CpuBuffer) : Prop where
  u8 : RoundTrip len 1 (bwU8 w) (brU8 r)
  be16 : RoundTrip len 2 (bwBe16 w) (brBe16 r)
  be32 : RoundTrip len 4 (bwBe32 w) (brBe32 r)
  bufferU8 : RoundTrip len 1 (writeU8 b) (readU8 b)
  bufferBe16 : RoundTrip len 2 (writeBe16 b) (readBe16 b)
  bufferBe32 : RoundTrip len 4 (writeBe32 b) (readBe32 b)
  bufferLe32 : RoundTrip len 4 (writeLe32 b) (readLe32 b)

/-- Every total read agrees with the trapping one. -/
structure AgreeingReads (r : ByteReader) : Prop where
  u8 : SameReads (brU8 r) (brTryU8 r)
  le16 : SameReads (brLe16 r) (brTryLe16 r)
  le32 : SameReads (brLe32 r) (brTryLe32 r)
  le64 : SameReads (brLe64 r) (brTryLe64 r)
  be16 : SameReads (brBe16 r) (brTryBe16 r)
  be32 : SameReads (brBe32 r) (brTryBe32 r)

lemma injective_toNat8 : Function.Injective UInt8.toNat := fun _ _ h => UInt8.toNat_inj.mp h

lemma injective_toNat16 : Function.Injective UInt16.toNat := fun _ _ h => UInt16.toNat_inj.mp h

lemma injective_toNat32 : Function.Injective UInt32.toNat := fun _ _ h => UInt32.toNat_inj.mp h

lemma injective_toNat64 : Function.Injective UInt64.toNat := fun _ _ h => UInt64.toNat_inj.mp h

/-- **Byte readers and writers are confined to their region and inverse to each other**, and so are
the accessors of a buffer. -/
theorem accessors_confined {base len : ℕ} (hfits : base + len ≤ 2 ^ 64) :
    ReaderLaws base len ⟨base, len⟩ ⟨base, len⟩ ∧ BufferLaws base len ⟨base, len⟩ ∧
      AgreeingReads ⟨base, len⟩ ∧ RoundTrips len ⟨base, len⟩ ⟨base, len⟩ ⟨base, len⟩ := by
  have hreader := readerLaws hfits
  have hbuffer := bufferLaws hfits
  refine ⟨hreader, hbuffer, ?_, ?_⟩
  · constructor
    · exact hreader.u8.sameReads hreader.tryU8 injective_toNat8
    · exact hreader.le16.sameReads hreader.tryLe16 injective_toNat16
    · exact hreader.le32.sameReads hreader.tryLe32 injective_toNat32
    · exact hreader.le64.sameReads hreader.tryLe64 injective_toNat64
    · exact hreader.be16.sameReads hreader.tryBe16 injective_toNat16
    · exact hreader.be32.sameReads hreader.tryBe32 injective_toNat32
  · constructor
    · exact hreader.writeU8.roundTrip hreader.u8 injective_toNat8
    · exact hreader.writeBe16.roundTrip hreader.be16 injective_toNat16
    · exact hreader.writeBe32.roundTrip hreader.be32 injective_toNat32
    · exact hbuffer.writeU8.roundTrip hbuffer.u8 injective_toNat8
    · exact hbuffer.writeBe16.roundTrip hbuffer.be16 injective_toNat16
    · exact hbuffer.writeBe32.roundTrip hbuffer.be32 injective_toNat32
    · exact hbuffer.writeLe32.roundTrip hbuffer.le32 injective_toNat32

/-- A word at the end of the address space. -/
theorem accessors_confined_last : ((do
    bwBe16 ⟨2 ^ 64 - 4, 4⟩ 2 0x0102
    brBe16 ⟨2 ^ 64 - 4, 4⟩ 2) fun _ => 0).result = some 0x0102 :=
  (accessors_confined (by omega : 2 ^ 64 - 4 + 4 ≤ 2 ^ 64)).2.2.2.be16 2 0x0102 _ (by omega)

end ModernC.Bytes
