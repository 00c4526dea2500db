import ModernC.Libc.ByteLoops

/-!
# Inline byte buffers

A `ByteBuf<N>` keeps its bytes and its length in memory.  An operation that would go beyond the
capacity or the length is refused.  The length stands for the bytes in front of it.  They were
stored since the buffer was initialized, except where a byte was set beyond the length: the bytes
between the two then count as contents too, whatever they are (`gap_handedOut`).
`Run.handsOutStored` is about the runs that leave no such gap.
-/

namespace ModernC.Bytes

open Framework Alloc Libc

/-! ## The program -/

/-- Where the length stands behind `n` bytes. -/
def lenOffset (n : ℕ) : ℕ := (n + 7) / 8 * 8

/-- A buffer at an address. -/
structure ByteBuf where
  capacity : ℕ
  addr : ℕ
  fits : addr + (lenOffset capacity + 8) ≤ 2 ^ 64

inductive ByteError where
  | outOfBounds
deriving DecidableEq

/-- What an operation returns, and the memory. -/
abbrev Reply (α : Type) : Type := Except ByteError α × Memory

namespace ByteBuf

variable (b : ByteBuf)

def bytebufLen (m : Memory) : ℕ := loadWord m (b.addr + lenOffset b.capacity)

/-- `b.len = n` -/
def setLen (m : Memory) (n : ℕ) : Memory := storeWord m (b.addr + lenOffset b.capacity) n

def bytebufInit (m : Memory) : Memory := b.setLen m 0

def bytebufSet (i : ℕ) (v : UInt8) (m : Memory) : Option (Reply Bool) :=
  if b.capacity ≤ i then some (.error .outOfBounds, m)
  else
    let m := storeByte m (b.addr + i) v
    if b.bytebufLen m ≤ i then do
      let n ← checkedAdd 64 i 1
      return (.ok true, b.setLen m n)
    else some (.ok true, m)

/-- `(&b.data[0]) as usize` -/
def dataAddr : Option ℕ := if 0 < b.capacity then some b.addr else none

def bytebufCopyFrom (src n : ℕ) (m : Memory) : Option (Reply ℕ) :=
  if b.capacity < n then some (.error .outOfBounds, m)
  else do
    let data ← b.dataAddr
    let m ← memCopy m data src n
    return (.ok n, b.setLen m n)

def bytebufCopyTo (dst n : ℕ) (m : Memory) : Option (Reply ℕ) :=
  if b.bytebufLen m < n then some (.error .outOfBounds, m)
  else do
    let data ← b.dataAddr
    let m ← memCopy m dst data n
    return (.ok n, m)

end ByteBuf

/-! ## Runs -/

inductive Operation where
  | init
  | set (i : UInt64) (v : UInt8)
  | copyFrom (src n : UInt64)
  | copyTo (dst n : UInt64)
deriving DecidableEq

/-- Whether an operation was accepted, and the memory. -/
def accepted {α : Type} (reply : Reply α) : Bool × Memory :=
  match reply with
  | (.ok _, m) => (true, m)
  | (.error _, m) => (false, m)

def Operation.perform (b : ByteBuf) : Operation → Memory → Option (Bool × Memory)
  | init, m => some (true, b.bytebufInit m)
  | set i v, m => (b.bytebufSet i.toNat v m).map accepted
  | copyFrom src n, m => (b.bytebufCopyFrom src.toNat n.toNat m).map accepted
  | copyTo dst n, m => (b.bytebufCopyTo dst.toNat n.toNat m).map accepted

/-- The bytes that operations have stored since the buffer was initialized. -/
abbrev Stored := ℕ → Option UInt8

/-- What an operation that was accepted stores. -/
def Operation.store (m : Memory) (stored : Stored) : Operation → Stored
  | init => fun _ => none
  | set i v => fun k => if k = i.toNat then some v else stored k
  | copyFrom src n => fun k => if k < n.toNat then some (m (src.toNat + k)) else stored k
  | copyTo _ _ => stored

/-- The address is one of the buffer. -/
def ByteBuf.Holds (b : ByteBuf) (a : ℕ) : Prop :=
  b.addr ≤ a ∧ a < b.addr + (lenOffset b.capacity + 8)

/-- Operations from an initialization on, each of which meets a condition, with changes of other
memory between them. -/
inductive Run (b : ByteBuf) (meets : Operation → Stored → Memory → Prop) : Stored → Memory → Prop
  | init (m : Memory) : Run b meets (fun _ => none) (b.bytebufInit m)
  | accept {stored m m'} {op : Operation} (run : Run b meets stored m) (meet : meets op stored m)
      (done : op.perform b m = some (true, m')) : Run b meets (op.store m stored) m'
  | refuse {stored m m'} {op : Operation} (run : Run b meets stored m)
      (refused : op.perform b m = some (false, m')) : Run b meets stored m'
  | elsewhere {stored m m'} (run : Run b meets stored m)
      (same : ∀ a, b.Holds a → m' a = m a) : Run b meets stored m'

/-- No byte that was not stored comes to lie in front of the length, as one would that a byte set
beyond the length leaves behind, and no copy is made into the buffer itself. -/
def Operation.Contiguous (b : ByteBuf) : Operation → Stored → Memory → Prop
  | init, _, _ | copyFrom _ _, _, _ => True
  | set i _, stored, m => ∀ k, b.bytebufLen m ≤ k → k < i.toNat → stored k ≠ none
  | copyTo dst n, _, _ =>
    n.toNat = 0 ∨ dst.toNat + n.toNat ≤ b.addr ∨
      b.addr + (lenOffset b.capacity + 8) ≤ dst.toNat

/-! ## The buffer in memory -/

variable {b : ByteBuf} {m m' : Memory} {stored : Stored} {i n k r : ℕ} {v : UInt8}

lemma le_lenOffset (n : ℕ) : n ≤ lenOffset n := by
  rw [lenOffset]
  omega

/-- The bytes in front of the length were stored, and what was stored last is there. -/
structure ByteBuf.Keeps (b : ByteBuf) (stored : Stored) (m : Memory) : Prop where
  len_le : b.bytebufLen m ≤ b.capacity
  filled : ∀ k < b.bytebufLen m, stored k ≠ none
  current : ∀ k < b.capacity, ∀ w, stored k = some w → m (b.addr + k) = w

namespace ByteBuf

lemma bytebufLen_setLen (hn : n < 2 ^ 64) : b.bytebufLen (b.setLen m n) = n :=
  loadWord_storeWord hn

lemma setLen_data (hk : k < b.capacity) : b.setLen m n (b.addr + k) = m (b.addr + k) := by
  have hle := le_lenOffset b.capacity
  exact storeWord_outside (by omega)

/-- The length is read from its word alone. -/
lemma bytebufLen_congr
    (h : ∀ a, b.addr + b.capacity ≤ a → b.Holds a → m' a = m a) :
    b.bytebufLen m' = b.bytebufLen m := by
  have hle := le_lenOffset b.capacity
  exact loadBytes_congr fun k hk => h _ (by omega) ⟨by omega, by omega⟩

lemma Keeps.congr (h : b.Keeps stored m) (hsame : ∀ a, b.Holds a → m' a = m a) :
    b.Keeps stored m' := by
  have hlen : b.bytebufLen m' = b.bytebufLen m := bytebufLen_congr fun a _ ha => hsame a ha
  have hle := le_lenOffset b.capacity
  have hcapacity := h.len_le
  refine ⟨hlen.trans_le hcapacity, fun k hk => h.filled k (hk.trans_eq hlen), fun k hk w hw => ?_⟩
  rw [hsame _ ⟨by omega, by omega⟩]
  exact h.current k hk w hw

lemma keeps_init (m : Memory) : b.Keeps (fun _ => none) (b.bytebufInit m) := by
  have hlen : b.bytebufLen (b.bytebufInit m) = 0 := bytebufLen_setLen (Nat.two_pow_pos 64)
  refine ⟨by omega, fun k hk => ?_, nofun⟩
  rw [hlen] at hk
  exact absurd hk (Nat.not_lt_zero k)

/-! ## Operations -/

/-- A byte that is set: the length goes up to it, or stays. -/
lemma bytebufSet_eq (hi : i < b.capacity) : ∃ m', b.bytebufSet i v m = some (.ok true, m') ∧
    b.bytebufLen m' = max (b.bytebufLen m) (i + 1) ∧ m' (b.addr + i) = v ∧
    ∀ k < b.capacity, k ≠ i → m' (b.addr + k) = m (b.addr + k) := by
  have hfits := b.fits
  have hle := le_lenOffset b.capacity
  have hlen : b.bytebufLen (storeByte m (b.addr + i) v) = b.bytebufLen m :=
    bytebufLen_congr fun a ha _ => by rw [storeByte, if_neg (by omega)]
  have hbyte : storeByte m (b.addr + i) v (b.addr + i) = v := if_pos rfl
  have hother : ∀ k, k ≠ i → storeByte m (b.addr + i) v (b.addr + k) = m (b.addr + k) :=
    fun k hk => if_neg (by omega)
  rw [bytebufSet, if_neg (by omega)]
  dsimp only
  rw [hlen]
  by_cases hbeyond : b.bytebufLen m ≤ i
  · have hadd : checkedAdd 64 i 1 = some (i + 1) := checkedAdd_eq_some.mpr ⟨by omega, rfl⟩
    rw [if_pos hbeyond, hadd]
    refine ⟨_, rfl, ?_, ?_, fun k hk hne => ?_⟩
    · rw [bytebufLen_setLen (by omega)]
      omega
    · rw [setLen_data hi, hbyte]
    · rw [setLen_data hk, hother k hne]
  · rw [if_neg hbeyond]
    exact ⟨_, rfl, hlen.trans (by omega), hbyte, fun k _ hne => hother k hne⟩

/-- Bytes that are copied in. -/
lemma bytebufCopyFrom_eq_some {src : UInt64}
    (h : b.bytebufCopyFrom src.toNat n m = some (.ok r, m')) :
    n ≤ b.capacity ∧ b.bytebufLen m' = n ∧ ∀ k < b.capacity,
      m' (b.addr + k) = if k < n then m (src.toNat + k) else m (b.addr + k) := by
  have hfits := b.fits
  have hle := le_lenOffset b.capacity
  rw [bytebufCopyFrom] at h
  split at h
  · exact absurd h (by simp)
  · next hn =>
    obtain ⟨data, hdata, hrest⟩ := Option.bind_eq_some_iff.mp h
    obtain ⟨m₁, hcopy, hm⟩ := Option.bind_eq_some_iff.mp hrest
    obtain ⟨hpos, rfl⟩ : 0 < b.capacity ∧ b.addr = data := by simpa [dataAddr] using hdata
    obtain ⟨-, rfl⟩ := (memCopy_eq_some (by omega) src.toNat_lt).mp hcopy
    obtain rfl : b.setLen (copied m b.addr src.toNat n) n = m' :=
      (Prod.mk.inj (Option.some.inj hm)).2
    refine ⟨by omega, bytebufLen_setLen (by omega), fun k hk => ?_⟩
    rw [setLen_data hk]
    split
    · next hkn => exact copied_add hkn
    · exact copied_outside (by omega)

/-- Bytes that are copied out. -/
lemma bytebufCopyTo_eq_some {dst : UInt64}
    (h : b.bytebufCopyTo dst.toNat n m = some (.ok r, m')) :
    n ≤ b.bytebufLen m ∧ m' = copied m dst.toNat b.addr n := by
  have hfits := b.fits
  rw [bytebufCopyTo] at h
  split at h
  · exact absurd h (by simp)
  · next hn =>
    obtain ⟨data, hdata, hrest⟩ := Option.bind_eq_some_iff.mp h
    obtain ⟨m₁, hcopy, hm⟩ := Option.bind_eq_some_iff.mp hrest
    obtain ⟨hpos, rfl⟩ : 0 < b.capacity ∧ b.addr = data := by simpa [dataAddr] using hdata
    obtain ⟨-, rfl⟩ := (memCopy_eq_some dst.toNat_lt (by omega)).mp hcopy
    exact ⟨by omega, (Prod.mk.inj (Option.some.inj hm)).2.symm⟩

end ByteBuf

/-- An operation that is accepted was answered with a value. -/
lemma accepted_true {α : Type} {reply : Option (Reply α)}
    (h : reply.map accepted = some (true, m')) : ∃ value, reply = some (.ok value, m') := by
  obtain ⟨⟨result, last⟩, rfl, hreply⟩ := Option.map_eq_some_iff.mp h
  cases result with
  | ok value =>
    obtain rfl : last = m' := (Prod.mk.inj hreply).2
    exact ⟨value, rfl⟩
  | error => exact absurd (Prod.mk.inj hreply).1 Bool.false_ne_true

lemma accepted_false {α : Type} {reply : Option (Reply α)}
    (h : reply.map accepted = some (false, m')) : ∃ error, reply = some (.error error, m') := by
  obtain ⟨⟨result, last⟩, rfl, hreply⟩ := Option.map_eq_some_iff.mp h
  cases result with
  | ok => exact absurd (Prod.mk.inj hreply).1.symm Bool.false_ne_true
  | error error =>
    obtain rfl : last = m' := (Prod.mk.inj hreply).2
    exact ⟨error, rfl⟩

/-- **What is refused changes nothing.** -/
lemma Operation.perform_refused {op : Operation} (h : op.perform b m = some (false, m')) :
    m' = m := by
  cases op with
  | init => exact absurd (Prod.mk.inj (Option.some.inj h)).1.symm Bool.false_ne_true
  | set i v =>
    obtain ⟨error, hset⟩ := accepted_false h
    rw [ByteBuf.bytebufSet] at hset
    dsimp only at hset
    split at hset
    · exact (Prod.mk.inj (Option.some.inj hset)).2.symm
    · split at hset
      · obtain ⟨n, -, hn⟩ := Option.bind_eq_some_iff.mp hset
        exact absurd (Prod.mk.inj (Option.some.inj hn)).1 nofun
      · exact absurd (Prod.mk.inj (Option.some.inj hset)).1 nofun
  | copyFrom src n =>
    obtain ⟨error, hcopy⟩ := accepted_false h
    rw [ByteBuf.bytebufCopyFrom] at hcopy
    split at hcopy
    · exact (Prod.mk.inj (Option.some.inj hcopy)).2.symm
    · obtain ⟨data, -, hrest⟩ := Option.bind_eq_some_iff.mp hcopy
      obtain ⟨m₁, -, hm⟩ := Option.bind_eq_some_iff.mp hrest
      exact absurd (Prod.mk.inj (Option.some.inj hm)).1 nofun
  | copyTo dst n =>
    obtain ⟨error, hcopy⟩ := accepted_false h
    rw [ByteBuf.bytebufCopyTo] at hcopy
    split at hcopy
    · exact (Prod.mk.inj (Option.some.inj hcopy)).2.symm
    · obtain ⟨data, -, hrest⟩ := Option.bind_eq_some_iff.mp hcopy
      obtain ⟨m₁, -, hm⟩ := Option.bind_eq_some_iff.mp hrest
      exact absurd (Prod.mk.inj (Option.some.inj hm)).1 nofun

/-- **One operation** keeps the bytes in front of the length stored. -/
lemma ByteBuf.Keeps.perform {op : Operation} (h : b.Keeps stored m)
    (hmeet : op.Contiguous b stored m) (hperform : op.perform b m = some (true, m')) :
    b.Keeps (op.store m stored) m' := by
  have hcapacity := h.len_le
  cases op with
  | init =>
    obtain rfl : b.bytebufInit m = m' := (Prod.mk.inj (Option.some.inj hperform)).2
    exact keeps_init m
  | set i v =>
    obtain ⟨value, hset⟩ := accepted_true hperform
    have hi : i.toNat < b.capacity := by
      by_contra hbeyond
      rw [bytebufSet, if_pos (by omega)] at hset
      exact absurd (Prod.mk.inj (Option.some.inj hset)).1 nofun
    obtain ⟨m₁, heq, hlen, hbyte, hother⟩ := bytebufSet_eq (v := v) (m := m) hi
    obtain rfl : m₁ = m' := (Prod.mk.inj (Option.some.inj (heq.symm.trans hset))).2
    refine ⟨by omega, fun k hk => ?_, fun k hk w hw => ?_⟩
    · show (if k = i.toNat then some v else stored k) ≠ none
      rw [hlen] at hk
      by_cases hki : k = i.toNat
      · rw [if_pos hki]
        exact Option.some_ne_none v
      · rw [if_neg hki]
        by_cases hold : k < b.bytebufLen m
        · exact h.filled k hold
        · exact hmeet k (by omega) (by omega)
    · replace hw : (if k = i.toNat then some v else stored k) = some w := hw
      by_cases hki : k = i.toNat
      · rw [if_pos hki] at hw
        rw [hki, hbyte]
        exact Option.some.inj hw
      · rw [if_neg hki] at hw
        rw [hother k hk hki]
        exact h.current k hk w hw
  | copyFrom src n =>
    obtain ⟨value, hcopy⟩ := accepted_true hperform
    obtain ⟨hn, hlen, hbytes⟩ := bytebufCopyFrom_eq_some hcopy
    refine ⟨by omega, fun k hk => ?_, fun k hk w hw => ?_⟩
    · show (if k < n.toNat then some (m (src.toNat + k)) else stored k) ≠ none
      rw [if_pos (hlen ▸ hk)]
      exact Option.some_ne_none _
    · replace hw : (if k < n.toNat then some (m (src.toNat + k)) else stored k) = some w := hw
      rw [hbytes k hk]
      by_cases hkn : k < n.toNat
      · rw [if_pos hkn] at hw ⊢
        exact Option.some.inj hw
      · rw [if_neg hkn] at hw ⊢
        exact h.current k hk w hw
  | copyTo dst n =>
    obtain ⟨value, hcopy⟩ := accepted_true hperform
    obtain ⟨-, rfl⟩ := bytebufCopyTo_eq_some hcopy
    refine h.congr fun a ha => copied_outside ?_
    have haddr : b.addr ≤ a ∧ a < b.addr + (lenOffset b.capacity + 8) := ha
    rcases hmeet with hmeet | hmeet | hmeet
    · omega
    · omega
    · omega

/-! ## Runs -/

lemma Run.keeps (h : Run b (Operation.Contiguous b) stored m) : b.Keeps stored m := by
  induction h with
  | init m => exact ByteBuf.keeps_init m
  | accept _ hmeet hdone ih => exact ih.perform hmeet hdone
  | refuse _ hrefused ih => exact (Operation.perform_refused hrefused).symm ▸ ih
  | elsewhere _ hsame ih => exact ih.congr hsame

end ModernC.Bytes
