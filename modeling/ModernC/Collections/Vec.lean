import ModernC.Alloc.Addresses
import ModernC.Framework.TracedPrograms

/-!
# Growable arrays

A `Vec` keeps its elements in a block.  When the block is full a larger one is asked for, the
elements are copied one by one, and the old block is given back.
-/

namespace ModernC.Collections

open Framework Framework.Traced Alloc

/-- A type of elements, with `alignof`.  `sizeof` is the size of the representation. -/
structure ElementType (T : Type) where
  rep : Representation T
  align : ℕ

structure Vec (A : Type) where
  data : ℕ
  len : ℕ
  cap : ℕ
  a : A

variable {A T : Type}

def vecNew (a : A) : Vec A := ⟨0, 0, 0, a⟩

def vecLen (v : Vec A) : ℕ := v.len

/-- `raw.ptr<T>(pa_offset(base, i * sizeof(T)))` -/
def elementAddr (size base i : ℕ) : BlockProgram A ℕ := do
  let off ← ofOption (checkedMul 64 i size)
  ofOption (paOffset base off)

/-- The rest of the loop that copies the elements, from `i` on. -/
def copyElements (rep : Representation T) (src dst : ℕ) : ℕ → ℕ → BlockProgram A Unit
  | 0, _ => pure ()
  | left + 1, i => do
    let source ← elementAddr rep.size src i
    let target ← elementAddr rep.size dst i
    let x ← loadAt rep source
    storeAt rep target x
    copyElements rep src dst left (i + 1)

/-- The capacity that a growth begins with. -/
def doubledCap (cap : ℕ) : Option ℕ := if cap ≠ 0 then checkedMul 64 cap 2 else some 4

/-- The block is given back where there is one. -/
def releaseBlock (E : ElementType T) (v : Vec A) : BlockProgram A Unit :=
  if v.cap ≠ 0 then do
    let bytes ← ofOption (checkedMul 64 v.cap E.rep.size)
    freeBytes v.a v.data bytes
  else pure ()

/-- The block of a full array is replaced. -/
def vecGrow (E : ElementType T) (v : Vec A) (need answer : ℕ) : BlockProgram A (Vec A) := do
  let doubled ← ofOption (doubledCap v.cap)
  let newcap := if doubled < need then need else doubled
  let bytes ← ofOption (checkedMul 64 newcap E.rep.size)
  let newdata ← allocBytes v.a bytes E.align answer
  copyElements E.rep v.data newdata v.len 0
  releaseBlock E v
  return { v with data := newdata, cap := newcap }

def vecReserve (E : ElementType T) (v : Vec A) (need answer : ℕ) : BlockProgram A (Vec A) :=
  if v.cap ≥ need then pure v else vecGrow E v need answer

/-- The part of `vec_push` behind the reservation. -/
def appendElement (E : ElementType T) (v : Vec A) (x : T) : BlockProgram A (Vec A) := do
  let p ← elementAddr E.rep.size v.data v.len
  storeAt E.rep p x
  let len ← ofOption (checkedAdd 64 v.len 1)
  return { v with len := len }

def vecPush (E : ElementType T) (v : Vec A) (x : T) (answer : ℕ) : BlockProgram A (Vec A) := do
  let need ← ofOption (checkedAdd 64 v.len 1)
  let v ← vecReserve E v need answer
  appendElement E v x

def vecGet (E : ElementType T) (v : Vec A) (i : ℕ) : BlockProgram A T :=
  if i ≥ v.len then trap
  else do
    let p ← elementAddr E.rep.size v.data i
    loadAt E.rep p

def vecSet (E : ElementType T) (v : Vec A) (i : ℕ) (x : T) : BlockProgram A Unit :=
  if i ≥ v.len then trap
  else do
    let p ← elementAddr E.rep.size v.data i
    storeAt E.rep p x

def vecPop (E : ElementType T) (v : Vec A) : BlockProgram A (Vec A × T) :=
  if v.len = 0 then trap
  else do
    let len ← ofOption (checkedSub v.len 1)
    let p ← elementAddr E.rep.size v.data len
    let out ← loadAt E.rep p
    return ({ v with len := len }, out)

def vecClear (v : Vec A) : Vec A := { v with len := 0 }

def vecFree (E : ElementType T) (v : Vec A) : BlockProgram A (Vec A) := do
  releaseBlock E v
  return { v with data := 0, len := 0, cap := 0 }

/-! ## Runs -/

/-- An operation.  The allocator answers the request of a push with an address. -/
inductive VecOp (T : Type) where
  | push (x : T) (answer : ℕ)
  | set (i : ℕ) (x : T)
  | get (i : ℕ)
  | pop
  | clear
  | free

/-- The array behind an operation and the element that it gives to its caller. -/
def VecOp.run (E : ElementType T) (v : Vec A) : VecOp T → BlockProgram A (Vec A × Option T)
  | .push x answer => do
    let v ← vecPush E v x answer
    return (v, none)
  | .set i x => do
    vecSet E v i x
    return (v, none)
  | .get i => do
    let x ← vecGet E v i
    return (v, some x)
  | .pop => do
    let (v, x) ← vecPop E v
    return (v, some x)
  | .clear => pure (vecClear v, none)
  | .free => do
    let v ← vecFree E v
    return (v, none)

variable [DecidableEq A]

/-- A run of operations, with their elements, the last one first.  Between them others may write
outside of the blocks that are out. -/
inductive VecRun (E : ElementType T) (a : A) :
    List (VecOp T × Option T) → Vec A → Memory → List (OwnedBlock A) → Prop
  | new (m : Memory) : VecRun E a [] (vecNew a) m []
  | step {history v m blocks op v' out m' trace} (h : VecRun E a history v m blocks)
      (hfair : FairTrace blocks trace)
      (hop : VecOp.run E v op m = ⟨some (v', out), m', trace⟩) :
      VecRun E a ((op, out) :: history) v' m' (afterTrace blocks trace)
  | other {history v m blocks} {m' : Memory} (h : VecRun E a history v m blocks)
      (hkeep : ∀ b ∈ blocks, ∀ p, b.addr ≤ p → p < b.addr + b.size → m' p = m p) :
      VecRun E a history v m' blocks

/-! ## Lists -/

/-- What an operation does to a list of elements. -/
def VecOp.spec (xs : List T) : VecOp T → Option (List T × Option T)
  | .push x _ => some (xs ++ [x], none)
  | .set i x => if i < xs.length then some (xs.set i x, none) else none
  | .get i => xs[i]?.map fun x => (xs, some x)
  | .pop => xs.getLast?.map fun x => (xs.dropLast, some x)
  | .clear => some ([], none)
  | .free => some ([], none)

/-- The operations, with their elements, on a list that is empty at first. -/
inductive ListRun : List (VecOp T × Option T) → List T → Prop
  | nil : ListRun [] []
  | step {history xs op xs' out} (h : ListRun history xs)
      (hop : VecOp.spec xs op = some (xs', out)) : ListRun ((op, out) :: history) xs'

/-- The capacity of the next block. -/
def grownCap (cap : ℕ) : ℕ := if cap = 0 then 4 else cap * 2

/-- A push does not fit: the capacity of the larger block or its size is not a word. -/
def VecOp.Exceeds (size : ℕ) (v : Vec A) : VecOp T → Prop
  | .push _ _ => v.len = v.cap ∧ (2 ^ 64 ≤ grownCap v.cap ∨ 2 ^ 64 ≤ grownCap v.cap * size)
  | _ => False

end ModernC.Collections

/-!
## A growable array is a list

The elements in the block of an array are those of a list, also while the block is replaced.  The
array has one block where it has room for elements and none otherwise, touches no other memory, and
gives back the block with its address and size.
-/

namespace ModernC.Collections

open Framework Framework.Traced Alloc

variable {A T : Type}

/-- The blocks that an array has. -/
def Vec.owned (v : Vec A) (size : ℕ) : List (OwnedBlock A) :=
  if v.cap = 0 then [] else [⟨v.a, v.data, v.cap * size⟩]

/-- The array is the list. -/
structure Represents (E : ElementType T) (v : Vec A) (m : Memory) (blocks : List (OwnedBlock A))
    (xs : List T) : Prop where
  len_eq : v.len = xs.length
  len_le : v.len ≤ v.cap
  cap_lt : v.cap < 2 ^ 64
  size_lt : v.cap * E.rep.size < 2 ^ 64
  fits : v.cap ≠ 0 → v.data < 2 ^ 64 ∧ v.data + v.cap * E.rep.size ≤ 2 ^ 64
  blocks_eq : blocks = v.owned E.rep.size
  contents : ∀ (i : ℕ) (hi : i < xs.length), E.rep.load m (v.data + i * E.rep.size) = xs[i]

variable {E : ElementType T} {v : Vec A} {m : Memory} {blocks : List (OwnedBlock A)} {xs : List T}

/-! ## Addresses of elements -/

/-- A range of elements lies in the address space. -/
structure InSpace (size base cap : ℕ) : Prop where
  base_lt : base < 2 ^ 64
  size_lt : cap * size < 2 ^ 64
  end_le : base + cap * size ≤ 2 ^ 64

variable {cap i : ℕ}

lemma element_le (size : ℕ) (hi : i < cap) : i * size + size ≤ cap * size := by
  have hmul := Nat.mul_le_mul_right size (Nat.succ_le_of_lt hi)
  rwa [Nat.succ_mul] at hmul

lemma elementAddr_apply {size base : ℕ} (h : InSpace size base cap) (hi : i < cap) (m : Memory) :
    (elementAddr size base i : BlockProgram A ℕ) m = ⟨some (base + i * size), m, []⟩ := by
  have hle := element_le size hi
  have hend := h.end_le
  have hsize := h.size_lt
  have hbase := h.base_lt
  have hmul : checkedMul 64 i size = some (i * size) := checkedMul_eq_some.mpr ⟨by omega, rfl⟩
  have hadd : paOffset base (i * size) = some (base + i * size) := by
    refine paOffset_eq_some.mpr ⟨?_, rfl⟩
    by_cases hzero : size = 0
    · rw [hzero, Nat.mul_zero]
      exact hbase
    · omega
  rw [elementAddr, hmul, ofOption_bind_some, hadd]
  rfl

lemma Represents.inSpace (h : Represents E v m blocks xs) (hcap : v.cap ≠ 0) :
    InSpace E.rep.size v.data v.cap :=
  ⟨(h.fits hcap).1, h.size_lt, (h.fits hcap).2⟩

/-- An element is in the block. -/
lemma Represents.allowed (h : Represents E v m blocks xs) (hi : i < v.cap) :
    (BlockEvent.touch (v.data + i * E.rep.size) E.rep.size : BlockEvent A).Allowed blocks := by
  have hle := element_le E.rep.size hi
  refine ⟨⟨v.a, v.data, v.cap * E.rep.size⟩, ?_, Nat.le_add_right _ _, ?_⟩
  · rw [h.blocks_eq, Vec.owned, if_neg (by omega)]
    exact List.mem_singleton_self _
  · show v.data + i * E.rep.size + E.rep.size ≤ v.data + v.cap * E.rep.size
    omega

/-! ## Copying -/

/-- The elements are copied to a range apart from the first one, and nothing else changes. -/
lemma copyElements_spec {rep : Representation T} {src dst len : ℕ}
    (hsrc : InSpace rep.size src len) (hdst : InSpace rep.size dst cap) (hle : len ≤ cap)
    (hapart : src + len * rep.size ≤ dst ∨ dst + cap * rep.size ≤ src) {left : ℕ}
    (hleft : left + i = len) (m : Memory) :
    ∃ m' trace, (copyElements rep src dst left i : BlockProgram A Unit) m = ⟨some (), m', trace⟩ ∧
      (∀ event ∈ trace, ∃ j < len, event = .touch (src + j * rep.size) rep.size ∨
        event = .touch (dst + j * rep.size) rep.size) ∧
      (∀ j, i ≤ j → j < len →
        rep.load m' (dst + j * rep.size) = rep.load m (src + j * rep.size)) ∧
      ∀ p, p < dst + i * rep.size ∨ dst + cap * rep.size ≤ p → m' p = m p := by
  induction left generalizing i m with
  | zero =>
    refine ⟨m, [], rfl, fun _ hevent => absurd hevent List.not_mem_nil, ?_, fun _ _ => rfl⟩
    intro j hij hj
    omega
  | succ left ih =>
    have hi : i < len := by omega
    have hend := element_le rep.size hi
    have hcap := element_le rep.size (Nat.lt_of_lt_of_le hi hle)
    have hlencap := Nat.mul_le_mul_right rep.size hle
    have hnext : (i + 1) * rep.size = i * rep.size + rep.size := Nat.succ_mul i rep.size
    -- the element that this pass copies
    obtain ⟨m₁, hm₁⟩ : ∃ m₁, m₁ = rep.store m (dst + i * rep.size)
        (rep.load m (src + i * rep.size)) := ⟨_, rfl⟩
    obtain ⟨m', trace, hrest, htouch, hcopied, hkeep⟩ := ih (i := i + 1) (by omega) m₁
    have hrun : (copyElements rep src dst (left + 1) i : BlockProgram A Unit) m =
        ⟨some (), m', .touch (src + i * rep.size) rep.size ::
          .touch (dst + i * rep.size) rep.size :: trace⟩ := by
      rw [copyElements, bind_of_eq (elementAddr_apply hsrc hi m),
        bind_of_eq (elementAddr_apply hdst (Nat.lt_of_lt_of_le hi hle) m),
        bind_of_eq (loadAt_apply rep _ m), bind_of_eq (storeAt_apply rep _ _ m), ← hm₁, hrest]
      rfl
    refine ⟨m', _, hrun, ?_, ?_, ?_⟩
    · intro event hevent
      rcases List.mem_cons.mp hevent with rfl | hevent
      · exact ⟨i, hi, .inl rfl⟩
      · rcases List.mem_cons.mp hevent with rfl | hevent
        · exact ⟨i, hi, .inr rfl⟩
        · exact htouch event hevent
    · intro j hij hj
      by_cases heq : j = i
      · rw [heq, rep.load_congr fun b hlow hhigh => hkeep b (.inl (by omega)), hm₁, rep.load_store]
      · have hj' := element_le rep.size hj
        rw [hcopied j (by omega) hj, hm₁]
        exact rep.load_store_of_disjoint rep (by omega)
    · intro p hp
      rw [hkeep p (by omega), hm₁]
      exact rep.store_outside (by omega)

/-! ## Growing -/

lemma grownCap_pos (cap : ℕ) : cap < grownCap cap := by
  rw [grownCap]
  split <;> omega

lemma doubledCap_eq (cap : ℕ) :
    doubledCap cap = if grownCap cap < 2 ^ 64 then some (grownCap cap) else none := by
  rw [doubledCap, grownCap]
  by_cases hzero : cap = 0
  · rw [if_neg (not_not.mpr hzero), if_pos hzero, if_pos (by omega)]
  · rw [if_pos hzero, if_neg hzero, checkedMul]

/-- The array behind a growth. -/
def Vec.grown (v : Vec A) (answer : ℕ) : Vec A := { v with data := answer, cap := grownCap v.cap }

/-- The part of a growth up to its request. -/
lemma vecGrow_start {answer : ℕ} (hcap : grownCap v.cap < 2 ^ 64)
    (hsize : grownCap v.cap * E.rep.size < 2 ^ 64) (m : Memory) :
    vecGrow E v (v.cap + 1) answer m = Outcome.after
      [.alloc ⟨v.a, answer, grownCap v.cap * E.rep.size⟩ E.align]
      ((do
        copyElements E.rep v.data answer v.len 0
        releaseBlock E v
        return v.grown answer : BlockProgram A (Vec A)) m) := by
  have hneed : ¬grownCap v.cap < v.cap + 1 := Nat.not_lt_of_le (grownCap_pos v.cap)
  rw [vecGrow, doubledCap_eq, if_pos hcap, ofOption_bind_some, if_neg hneed,
    checkedMul_eq_some.mpr ⟨hsize, rfl⟩]
  rfl

lemma vecGrow_exceeds {answer : ℕ}
    (hexceeds : 2 ^ 64 ≤ grownCap v.cap ∨ 2 ^ 64 ≤ grownCap v.cap * E.rep.size) (m : Memory) :
    vecGrow E v (v.cap + 1) answer m = ⟨none, m, []⟩ := by
  have hneed : ¬grownCap v.cap < v.cap + 1 := Nat.not_lt_of_le (grownCap_pos v.cap)
  rw [vecGrow, doubledCap_eq]
  by_cases hcap : grownCap v.cap < 2 ^ 64
  · have hsize : checkedMul 64 (grownCap v.cap) E.rep.size = none := if_neg (by omega)
    rw [if_pos hcap, ofOption_bind_some, if_neg hneed, hsize]
    rfl
  · rw [if_neg hcap]
    rfl

/-- The block that an array gives back. -/
lemma releaseBlock_apply (h : Represents E v m blocks xs) (m' : Memory) :
    releaseBlock E v m' = ⟨some (), m', (v.owned E.rep.size).map .free⟩ := by
  rw [releaseBlock, Vec.owned]
  by_cases hzero : v.cap = 0
  · rw [if_neg (not_not.mpr hzero), if_pos hzero]
    rfl
  · rw [if_pos hzero, if_neg hzero, checkedMul_eq_some.mpr ⟨h.size_lt, rfl⟩]
    rfl

section Blocks

variable [DecidableEq A]

omit [DecidableEq A] in
/-- The elements of an array are apart from a fresh block. -/
lemma Represents.apart (h : Represents E v m blocks xs) {b : OwnedBlock A}
    (hapart : ∀ other ∈ blocks, b.Apart other) (hfull : v.len = v.cap) (hzero : v.cap ≠ 0) :
    v.data + v.len * E.rep.size ≤ b.addr ∨ b.addr + b.size ≤ v.data := by
  have hmem : ⟨v.a, v.data, v.cap * E.rep.size⟩ ∈ blocks := by
    rw [h.blocks_eq, Vec.owned, if_neg hzero]
    exact List.mem_singleton_self _
  rw [hfull]
  exact (hapart _ hmem).symm

omit [DecidableEq A] in
/-- Copying into the fresh block. -/
lemma Represents.copy (h : Represents E v m blocks xs) (hfull : v.len = v.cap) {answer : ℕ}
    (hnew : InSpace E.rep.size answer cap) (hle : v.len ≤ cap) (hapart : ∀ other ∈ blocks,
      (⟨v.a, answer, cap * E.rep.size⟩ : OwnedBlock A).Apart other) :
    ∃ m' copies, (copyElements E.rep v.data answer v.len 0 : BlockProgram A Unit) m =
        ⟨some (), m', copies⟩ ∧
      (∀ event ∈ copies, event.IsTouch ∧
        event.Allowed (⟨v.a, answer, cap * E.rep.size⟩ :: blocks)) ∧
      ∀ (i : ℕ) (hi : i < xs.length), E.rep.load m' (answer + i * E.rep.size) = xs[i] := by
  by_cases hzero : v.cap = 0
  · have hnone : v.len = 0 := by omega
    refine ⟨m, [], ?_, fun _ hevent => absurd hevent List.not_mem_nil, fun i hi => ?_⟩
    · rw [hnone]
      rfl
    · have hlen := h.len_eq
      omega
  · obtain ⟨m', copies, hcopy, htouch, hcopied, -⟩ := copyElements_spec (A := A)
      (hfull ▸ h.inSpace hzero) hnew hle (h.apart hapart hfull hzero) (i := 0)
      (Nat.add_zero v.len) m
    refine ⟨m', copies, hcopy, fun event hevent => ?_, fun i hi => ?_⟩
    · obtain ⟨j, hj, rfl | rfl⟩ := htouch event hevent
      · obtain ⟨b, hb, hcontains⟩ := h.allowed (i := j) (by omega)
        exact ⟨trivial, b, List.mem_cons_of_mem _ hb, hcontains⟩
      · have hend := element_le E.rep.size (Nat.lt_of_lt_of_le hj hle)
        refine ⟨trivial, _, List.mem_cons_self, Nat.le_add_right _ _, ?_⟩
        show answer + j * E.rep.size + E.rep.size ≤ answer + cap * E.rep.size
        omega
    · rw [hcopied i (Nat.zero_le i) (h.len_eq ▸ hi)]
      exact h.contents i hi

/-- The old block is given back behind the new one. -/
lemma free_owned (v : Vec A) (size : ℕ) (b : OwnedBlock A) :
    SoundTrace (b :: v.owned size) ((v.owned size).map .free) ∧
      afterTrace (b :: v.owned size) ((v.owned size).map .free) = [b] := by
  rw [Vec.owned]
  by_cases hzero : v.cap = 0
  · rw [if_pos hzero]
    exact ⟨trivial, rfl⟩
  · rw [if_neg hzero]
    refine ⟨⟨List.mem_cons_of_mem _ (List.mem_singleton_self _), trivial⟩, ?_⟩
    show [b, ⟨v.a, v.data, v.cap * size⟩].erase ⟨v.a, v.data, v.cap * size⟩ = [b]
    by_cases heq : b = ⟨v.a, v.data, v.cap * size⟩
    · rw [heq, List.erase_cons_head]
    · rw [List.erase_cons_tail (by simpa using heq), List.erase_cons_head]

/-- A growth keeps every element. -/
lemma Represents.grow (h : Represents E v m blocks xs) (hfull : v.len = v.cap)
    (hcap : grownCap v.cap < 2 ^ 64) (hsize : grownCap v.cap * E.rep.size < 2 ^ 64) {answer : ℕ}
    (hfair : FairTrace blocks (vecGrow E v (v.cap + 1) answer m).trace) :
    ∃ m' trace, vecGrow E v (v.cap + 1) answer m = ⟨some (v.grown answer), m', trace⟩ ∧
      SoundTrace blocks trace ∧ Represents E (v.grown answer) m' (afterTrace blocks trace) xs := by
  have hgrown := grownCap_pos v.cap
  rw [vecGrow_start hcap hsize] at hfair ⊢
  obtain ⟨⟨hplace, hend, hapart⟩, -⟩ := hfair
  have hnew : InSpace E.rep.size answer (grownCap v.cap) := ⟨hplace, hsize, hend⟩
  have hlen : v.len ≤ grownCap v.cap := by omega
  obtain ⟨m', copies, hcopy, htouch, hcopied⟩ := h.copy hfull hnew hlen hapart
  rw [bind_of_eq hcopy, bind_of_eq (releaseBlock_apply h m')]
  obtain ⟨b, hb⟩ : ∃ b : OwnedBlock A, b = ⟨v.a, answer, grownCap v.cap * E.rep.size⟩ := ⟨_, rfl⟩
  rw [← hb] at htouch ⊢
  have hkept : afterTrace (b :: blocks) copies = b :: blocks :=
    afterTrace_of_isTouch fun event hevent => (htouch event hevent).1
  obtain ⟨hfree, hafter⟩ := free_owned v E.rep.size b
  rw [← h.blocks_eq] at hfree hafter ⊢
  refine ⟨m', .alloc b E.align :: (copies ++ blocks.map .free), ?_, ⟨trivial, ?_⟩, ?_⟩
  · simp only [Outcome.after, pure_apply, List.append_nil, List.singleton_append]
  · refine throughout_append.mpr ⟨?_, ?_⟩
    · exact throughout_of_isTouch (fun event hevent => (htouch event hevent).1)
        fun event hevent => (htouch event hevent).2
    · show SoundTrace (afterTrace (b :: blocks) copies) (blocks.map .free)
      rwa [hkept]
  · have hblocks : afterTrace blocks (.alloc b E.align :: (copies ++ blocks.map .free)) = [b] := by
      show afterTrace (b :: blocks) (copies ++ blocks.map .free) = [b]
      rw [afterTrace_append, hkept, hafter]
    refine ⟨h.len_eq, hlen, hcap, hsize, fun _ => ⟨hplace, hend⟩, ?_, hcopied⟩
    rw [hblocks, hb, Vec.owned, if_neg]
    · rfl
    · show grownCap v.cap ≠ 0
      omega

/-! ## Operations -/

/-- An operation on an array does what it does to the list, with a sound trace.  It traps where the
operation on the list has no result, and where a push does not fit. -/
structure VecOp.Refines (E : ElementType T) (v : Vec A) (blocks : List (OwnedBlock A)) (xs : List T)
    (op : VecOp T) (o : Outcome Memory (BlockEvent A) (Vec A × Option T)) : Prop where
  sound : SoundTrace blocks o.trace
  traps : o.result = none ↔ VecOp.spec xs op = none ∨ op.Exceeds E.rep.size v
  returns : ∀ v' out, o.result = some (v', out) → ∃ xs',
    VecOp.spec xs op = some (xs', out) ∧ Represents E v' o.state (afterTrace blocks o.trace) xs'

variable {op : VecOp T} {o : Outcome Memory (BlockEvent A) (Vec A × Option T)}

lemma refines_some {v' : Vec A} {out : Option T} {m' : Memory} {trace : List (BlockEvent A)}
    {l : List T} (ho : o = ⟨some (v', out), m', trace⟩) (hsound : SoundTrace blocks trace)
    (hspec : VecOp.spec xs op = some (l, out)) (hnot : ¬op.Exceeds E.rep.size v)
    (hnext : Represents E v' m' (afterTrace blocks trace) l) : op.Refines E v blocks xs o := by
  subst ho
  refine ⟨hsound, ⟨fun h => absurd h (by simp), fun h => ?_⟩, ?_⟩
  · rcases h with h | h
    · rw [hspec] at h
      exact absurd h (by simp)
    · exact absurd h hnot
  · intro v'' out' h
    obtain ⟨rfl, rfl⟩ := Prod.mk.inj (Option.some.inj h)
    exact ⟨l, hspec, hnext⟩

lemma refines_none {m' : Memory} (ho : o = ⟨none, m', []⟩)
    (hnone : VecOp.spec xs op = none ∨ op.Exceeds E.rep.size v) : op.Refines E v blocks xs o := by
  subst ho
  exact ⟨trivial, ⟨fun _ => hnone, fun _ => rfl⟩, fun v' out h => absurd h (by simp)⟩

omit [DecidableEq A] in
/-- One more element, where there is room. -/
lemma Represents.append (h : Represents E v m blocks xs) (hroom : v.len < v.cap) (x : T) :
    Represents E { v with len := v.len + 1 }
      (E.rep.store m (v.data + v.len * E.rep.size) x) blocks (xs ++ [x]) := by
  have hlen := h.len_eq
  refine ⟨?_, hroom, h.cap_lt, h.size_lt, h.fits, h.blocks_eq, fun i hi => ?_⟩
  · show v.len + 1 = (xs ++ [x]).length
    rw [List.length_append, List.length_singleton, hlen]
  · show E.rep.load (E.rep.store m (v.data + v.len * E.rep.size) x) (v.data + i * E.rep.size) = _
    rw [List.length_append, List.length_singleton] at hi
    by_cases hlast : i = xs.length
    · subst hlast
      rw [hlen, E.rep.load_store, List.getElem_concat_length rfl]
    · have hbefore : i < xs.length := by omega
      have hend := element_le E.rep.size (hlen.symm ▸ hbefore)
      rw [E.rep.load_store_of_disjoint E.rep (by omega), h.contents i hbefore,
        List.getElem_append_left hbefore]

omit [DecidableEq A] in
/-- A store to an element. -/
lemma Represents.set (h : Represents E v m blocks xs) (i : ℕ) (x : T) :
    Represents E v (E.rep.store m (v.data + i * E.rep.size) x) blocks (xs.set i x) := by
  have hlen := h.len_eq
  refine ⟨?_, h.len_le, h.cap_lt, h.size_lt, h.fits, h.blocks_eq, fun j hj => ?_⟩
  · rw [List.length_set, hlen]
  · rw [List.length_set] at hj
    by_cases heq : j = i
    · subst heq
      rw [E.rep.load_store, List.getElem_set_self]
    · rw [List.getElem_set_ne (Ne.symm heq), ← h.contents j hj]
      rcases Nat.lt_or_gt_of_ne heq with hlt | hgt
      · have hend := element_le E.rep.size hlt
        exact E.rep.load_store_of_disjoint E.rep (by omega)
      · have hend := element_le E.rep.size hgt
        exact E.rep.load_store_of_disjoint E.rep (by omega)

omit [DecidableEq A] in
/-- The first elements. -/
lemma Represents.take (h : Represents E v m blocks xs) {n : ℕ} (hn : n ≤ v.len) :
    Represents E { v with len := n } m blocks (xs.take n) := by
  have hlen := h.len_eq
  refine ⟨?_, hn.trans h.len_le, h.cap_lt, h.size_lt, h.fits, h.blocks_eq, fun i hi => ?_⟩
  · show n = (xs.take n).length
    rw [List.length_take]
    omega
  · rw [List.getElem_take]
    exact h.contents i _

omit [DecidableEq A] in
lemma appendElement_apply (h : Represents E v m blocks xs) (hroom : v.len < v.cap) (x : T) :
    appendElement E v x m =
      ⟨some { v with len := v.len + 1 }, E.rep.store m (v.data + v.len * E.rep.size) x,
        [.touch (v.data + v.len * E.rep.size) E.rep.size]⟩ := by
  have hcap := h.cap_lt
  have hspace := h.inSpace (Nat.ne_of_gt (Nat.lt_of_le_of_lt (Nat.zero_le _) hroom))
  rw [appendElement, bind_of_eq (elementAddr_apply hspace hroom m),
    bind_of_eq (storeAt_apply E.rep _ x m), checkedAdd_eq_some.mpr ⟨by omega, rfl⟩]
  rfl

omit [DecidableEq A] in
lemma vecPush_room (h : Represents E v m blocks xs) (hroom : v.len < v.cap) (x : T) (answer : ℕ) :
    vecPush E v x answer m = ⟨some { v with len := v.len + 1 },
      E.rep.store m (v.data + v.len * E.rep.size) x,
      [.touch (v.data + v.len * E.rep.size) E.rep.size]⟩ := by
  have hcap := h.cap_lt
  have hreserve : vecReserve E v (v.len + 1) answer = pure v := if_pos hroom
  rw [vecPush, checkedAdd_eq_some.mpr ⟨by omega, rfl⟩, ofOption_bind_some, hreserve,
    bind_of_eq (pure_apply v m), appendElement_apply h hroom x]
  rfl

/-- A push to an array with room. -/
lemma Represents.push_room (h : Represents E v m blocks xs) (hroom : v.len < v.cap) (x : T)
    (answer : ℕ) :
    (VecOp.push x answer).Refines E v blocks xs (VecOp.run E v (.push x answer) m) := by
  refine refines_some (bind_of_eq (vecPush_room h hroom x answer)) ⟨h.allowed hroom, trivial⟩ rfl ?_
    (h.append hroom x)
  rintro ⟨hfull, -⟩
  omega

omit [DecidableEq A] in
/-- A push that does not fit. -/
lemma vecPush_exceeds (hfull : v.len = v.cap)
    (hexceeds : 2 ^ 64 ≤ grownCap v.cap ∨ 2 ^ 64 ≤ grownCap v.cap * E.rep.size) (x : T)
    (answer : ℕ) (m : Memory) : vecPush E v x answer m = ⟨none, m, []⟩ := by
  rw [vecPush]
  by_cases hneed : v.len + 1 < 2 ^ 64
  · rw [checkedAdd_eq_some.mpr ⟨hneed, rfl⟩, ofOption_bind_some, vecReserve, if_neg (by omega),
      hfull, bind_of_trap (vecGrow_exceeds hexceeds m)]
  · have hnone : checkedAdd 64 v.len 1 = none := if_neg hneed
    rw [hnone]
    rfl

/-- A push to a full array. -/
lemma Represents.push_full (h : Represents E v m blocks xs) (hfull : v.len = v.cap)
    (hcap : grownCap v.cap < 2 ^ 64) (hsize : grownCap v.cap * E.rep.size < 2 ^ 64) (x : T)
    (answer : ℕ) (hfair : FairTrace blocks (VecOp.run E v (.push x answer) m).trace) :
    (VecOp.push x answer).Refines E v blocks xs (VecOp.run E v (.push x answer) m) := by
  have hgrown := grownCap_pos v.cap
  have hstart : vecPush E v x answer =
      vecGrow E v (v.cap + 1) answer >>= fun v => appendElement E v x := by
    rw [vecPush, checkedAdd_eq_some.mpr ⟨by omega, rfl⟩, ofOption_bind_some, vecReserve,
      if_neg (by omega), hfull]
  have hfirst : FairTrace blocks (vecGrow E v (v.cap + 1) answer m).trace := by
    obtain ⟨rest, hrest⟩ := exists_trace_bind (vecPush E v x answer)
      (fun v => (pure (v, none) : BlockProgram A (Vec A × Option T))) m
    obtain ⟨rest', hrest'⟩ := exists_trace_bind (vecGrow E v (v.cap + 1) answer)
      (fun v => appendElement E v x) m
    have hall : FairTrace blocks ((vecPush E v x answer m).trace ++ rest) := by
      rw [← hrest]
      exact hfair
    rw [hstart, hrest', List.append_assoc] at hall
    exact (throughout_append.mp hall).1
  obtain ⟨m', trace, hgrow, hsound, hnext⟩ := h.grow hfull hcap hsize hfirst
  have hroom : (v.grown answer).len < (v.grown answer).cap := by
    show v.len < grownCap v.cap
    omega
  have hpush : vecPush E v x answer m = _ := hstart ▸ bind_of_eq hgrow
  rw [appendElement_apply hnext hroom x] at hpush
  refine refines_some (bind_of_eq hpush) ?_ rfl ?_ ?_
  · refine throughout_append.mpr ⟨throughout_append.mpr ⟨hsound, ?_⟩, trivial⟩
    exact ⟨hnext.allowed hroom, trivial⟩
  · rintro ⟨-, hexceeds⟩
    omega
  · have hblocks : afterTrace blocks ((trace ++ [.touch ((v.grown answer).data +
        (v.grown answer).len * E.rep.size) E.rep.size]) ++ []) = afterTrace blocks trace := by
      rw [afterTrace_append, afterTrace_append]
      rfl
    rw [← hblocks] at hnext
    exact hnext.append hroom x

/-- **An operation on an array does what it does to a list.** -/
lemma Represents.refines (h : Represents E v m blocks xs) (op : VecOp T)
    (hfair : FairTrace blocks (VecOp.run E v op m).trace) :
    op.Refines E v blocks xs (VecOp.run E v op m) := by
  have hlen := h.len_eq
  have hle := h.len_le
  have hspace : ∀ {i}, i < v.len → InSpace E.rep.size v.data v.cap :=
    fun hi => h.inSpace (by omega)
  cases op with
  | push x answer =>
    by_cases hroom : v.len < v.cap
    · exact h.push_room hroom x answer
    · have hfull : v.len = v.cap := by omega
      by_cases hexceeds : 2 ^ 64 ≤ grownCap v.cap ∨ 2 ^ 64 ≤ grownCap v.cap * E.rep.size
      · exact refines_none (bind_of_trap (vecPush_exceeds hfull hexceeds x answer m))
          (.inr ⟨hfull, hexceeds⟩)
      · obtain ⟨hcap, hsize⟩ := not_or.mp hexceeds
        exact h.push_full hfull (by omega) (by omega) x answer hfair
  | set i x =>
    by_cases hi : i < v.len
    · have hset : vecSet E v i x m = ⟨some (), E.rep.store m (v.data + i * E.rep.size) x,
          [.touch (v.data + i * E.rep.size) E.rep.size]⟩ := by
        rw [vecSet, if_neg (Nat.not_le_of_lt hi),
          bind_of_eq (elementAddr_apply (hspace hi) (hi.trans_le hle) m), storeAt_apply]
        rfl
      exact refines_some (bind_of_eq hset) ⟨h.allowed (hi.trans_le hle), trivial⟩
        (if_pos (hlen ▸ hi)) id (h.set i x)
    · have hset : vecSet E v i x m = ⟨none, m, []⟩ := by
        rw [vecSet, if_pos (Nat.le_of_not_lt hi)]
        rfl
      exact refines_none (bind_of_trap hset) (.inl (if_neg (hlen ▸ hi)))
  | get i =>
    by_cases hi : i < v.len
    · have hixs : i < xs.length := hlen ▸ hi
      have hget : vecGet E v i m = ⟨some xs[i], m,
          [.touch (v.data + i * E.rep.size) E.rep.size]⟩ := by
        rw [vecGet, if_neg (Nat.not_le_of_lt hi),
          bind_of_eq (elementAddr_apply (hspace hi) (hi.trans_le hle) m), loadAt_apply,
          h.contents i hixs]
        rfl
      refine refines_some (l := xs) (bind_of_eq hget) ⟨h.allowed (hi.trans_le hle), trivial⟩ ?_
        id h
      show (xs[i]?.map fun x => (xs, some x)) = _
      rw [List.getElem?_eq_getElem hixs]
      rfl
    · have hget : vecGet E v i m = ⟨none, m, []⟩ := by
        rw [vecGet, if_pos (Nat.le_of_not_lt hi)]
        rfl
      refine refines_none (bind_of_trap hget) (.inl ?_)
      show (xs[i]?.map fun x => (xs, some x)) = none
      rw [List.getElem?_eq_none (by omega)]
      rfl
  -- the last element is handed out, and its slot stays in the block
  | pop =>
    by_cases hempty : v.len = 0
    · have hpop : vecPop E v m = ⟨none, m, []⟩ := by
        rw [vecPop, if_pos hempty]
        rfl
      obtain rfl : xs = [] := List.length_eq_zero_iff.mp (hlen ▸ hempty)
      exact refines_none (bind_of_trap hpop) (.inl rfl)
    · have hlast : v.len - 1 < xs.length := by omega
      have hpop : vecPop E v m = ⟨some ({ v with len := v.len - 1 }, xs[v.len - 1]), m,
          [.touch (v.data + (v.len - 1) * E.rep.size) E.rep.size]⟩ := by
        have hin : v.len - 1 < v.cap := by omega
        rw [vecPop, if_neg hempty, checkedSub_eq_some.mpr ⟨by omega, rfl⟩, ofOption_bind_some,
          bind_of_eq (elementAddr_apply (hspace (by omega : v.len - 1 < v.len)) hin m),
          bind_of_eq (loadAt_apply E.rep _ m), h.contents _ hlast]
        rfl
      refine refines_some (l := xs.take (v.len - 1)) (bind_of_eq hpop)
        ⟨h.allowed (by omega), trivial⟩ ?_ id (h.take (by omega))
      have hne : xs ≠ [] := List.ne_nil_of_length_pos (by omega)
      show (xs.getLast?.map fun x => (xs.dropLast, some x)) = _
      rw [List.getLast?_eq_some_getLast hne, List.dropLast_eq_take, List.getLast_eq_getElem hne]
      simp only [Option.map_some, hlen]
  | clear =>
    exact refines_some (l := []) rfl trivial rfl id (h.take (Nat.zero_le _))
  -- an array that never grew owns no block
  | free =>
    have hrelease := releaseBlock_apply h m
    have hfree : vecFree E v m = _ := bind_of_eq hrelease
    obtain ⟨hsound, hafter⟩ : SoundTrace blocks ((v.owned E.rep.size).map .free) ∧
        afterTrace blocks ((v.owned E.rep.size).map .free) = [] := by
      rw [h.blocks_eq, Vec.owned]
      split
      · exact ⟨trivial, rfl⟩
      · exact ⟨⟨List.mem_singleton_self _, trivial⟩, List.erase_cons_head _ _⟩
    refine refines_some (l := []) (bind_of_eq hfree) ?_ rfl id ?_
    · exact throughout_append.mpr ⟨throughout_append.mpr ⟨hsound, trivial⟩, trivial⟩
    · rw [afterTrace_append, afterTrace_append, hafter]
      refine ⟨rfl, le_refl _, Nat.two_pow_pos 64, ?_, fun hzero => absurd rfl hzero, rfl, nofun⟩
      show 0 * E.rep.size < 2 ^ 64
      omega

end Blocks

/-! ## Runs -/

variable [DecidableEq A] {a : A} {history : List (VecOp T × Option T)}

omit [DecidableEq A] in
/-- Others write outside of the block. -/
lemma Represents.other (h : Represents E v m blocks xs) {m' : Memory}
    (hkeep : ∀ b ∈ blocks, ∀ p, b.addr ≤ p → p < b.addr + b.size → m' p = m p) :
    Represents E v m' blocks xs := by
  refine ⟨h.len_eq, h.len_le, h.cap_lt, h.size_lt, h.fits, h.blocks_eq, fun i hi => ?_⟩
  have hcap : i < v.cap := (h.len_eq ▸ hi : i < v.len).trans_le h.len_le
  obtain ⟨b, hb, hlow, hhigh⟩ := h.allowed hcap
  rw [← h.contents i hi]
  exact E.rep.load_congr fun p hp hp' =>
    hkeep b hb p (hlow.trans hp) (hp'.trans_le hhigh)

/-- **Along a run the array is the list that the operations make.** -/
theorem VecRun.represents (h : VecRun E a history v m blocks) :
    ∃ xs, ListRun history xs ∧ Represents E v m blocks xs := by
  induction h with
  | new m =>
    refine ⟨[], .nil, rfl, le_refl _, Nat.two_pow_pos 64, ?_, fun hzero => absurd rfl hzero, rfl,
      nofun⟩
    show 0 * E.rep.size < 2 ^ 64
    omega
  | step hrun hfair hop ih =>
    obtain ⟨xs, hlist, hrep⟩ := ih
    have hrefines := hrep.refines _ (by rw [hop]; exact hfair)
    rw [hop] at hrefines
    obtain ⟨xs', hspec, hnext⟩ := hrefines.returns _ _ rfl
    exact ⟨xs', .step hlist hspec, hnext⟩
  | other hrun hkeep ih =>
    obtain ⟨xs, hlist, hrep⟩ := ih
    exact ⟨xs, hlist, hrep.other hkeep⟩

/-- **A growable array refines a list and never loses its block**: in every run it has the elements
of the list that the operations make, and exactly the block of its capacity; every next operation
does what it does to the list, touches only that block and the one that replaces it, and gives back
the block that is out. -/
theorem VecRun.refines_list (h : VecRun E a history v m blocks) :
    ∃ xs, ListRun history xs ∧ vecLen v = xs.length ∧
      (∀ (i : ℕ) (hi : i < xs.length), E.rep.load m (v.data + i * E.rep.size) = xs[i]) ∧
      blocks = (if v.cap = 0 then [] else [⟨v.a, v.data, v.cap * E.rep.size⟩]) ∧
      ∀ op : VecOp T, FairTrace blocks (VecOp.run E v op m).trace →
        op.Refines E v blocks xs (VecOp.run E v op m) := by
  obtain ⟨xs, hlist, hrep⟩ := h.represents
  exact ⟨xs, hlist, hrep.len_eq, hrep.contents, hrep.blocks_eq, hrep.refines⟩

/-- Single bytes. -/
def byteType : ElementType UInt8 where
  rep := ⟨1, fun x => [x], fun bytes => bytes.headD 0, fun _ => rfl, fun _ => rfl⟩
  align := 1

/-- A push into a block of four. -/
lemma push_four : ∀ k < 4, ∀ (x : UInt8) (m : Memory),
    VecOp.run byteType ⟨64, k, 4, ()⟩ (.push x 0) m = ⟨some (⟨64, k + 1, 4, ()⟩, none),
      byteType.rep.store m (64 + k) x, [.touch (64 + k) 1]⟩
  | 0, _, _, _ | 1, _, _, _ | 2, _, _, _ | 3, _, _, _ => rfl

/-- The fifth push moves the elements into a block of eight. -/
lemma push_fifth (m : Memory) : ∃ m' trace,
    VecOp.run byteType ⟨64, 4, 4, ()⟩ (.push 5 80) m =
      ⟨some (⟨80, 5, 8, ()⟩, none), m', trace⟩ ∧
    FairTrace [⟨(), 64, 4⟩] trace ∧ afterTrace [⟨(), 64, 4⟩] trace = [⟨(), 80, 8⟩] ∧ m' 84 = 5 := by
  refine ⟨_, _, rfl, ⟨⟨?_, ?_, ?_⟩, ?_⟩, rfl, rfl⟩
  · show 80 < 2 ^ 64
    omega
  · show 80 + 8 ≤ 2 ^ 64
    omega
  · intro other hother
    rw [List.mem_singleton.mp hother]
    exact .inr (by decide)
  · exact ⟨trivial, trivial, trivial, trivial, trivial, trivial, trivial, trivial, trivial, trivial,
      trivial⟩

/-- An array grows twice, and a pop gives the last of five elements back. -/
theorem refines_list_popped : ∃ (v : Vec Unit) (m : Memory) (history : _) (xs : List UInt8),
    VecRun byteType () ((.pop, some 5) :: history) v m [⟨(), 80, 8⟩] ∧
      ListRun ((.pop, some 5) :: history) xs ∧ vecLen v = xs.length ∧ xs.length = 4 := by
  have hfirst : VecOp.run byteType (vecNew ()) (.push 1 64) (fun _ => 0) =
      ⟨some (⟨64, 1, 4, ()⟩, none), byteType.rep.store (fun _ => 0) 64 1,
        [.alloc ⟨(), 64, 4⟩ 1, .touch 64 1]⟩ := rfl
  have hfair : FairTrace ([] : List (OwnedBlock Unit)) [.alloc ⟨(), 64, 4⟩ 1, .touch 64 1] := by
    refine ⟨⟨?_, ?_, by simp⟩, trivial, trivial⟩
    · show 64 < 2 ^ 64
      omega
    · show 64 + 4 ≤ 2 ^ 64
      omega
  have htouch : ∀ {blocks : List (OwnedBlock Unit)} {p : ℕ}, FairTrace blocks [.touch p 1] :=
    ⟨trivial, trivial⟩
  have hfour := (((VecRun.step (.new fun _ => 0) hfair hfirst).step htouch
    (push_four 1 (by omega) 2 _)).step htouch (push_four 2 (by omega) 3 _)).step htouch
    (push_four 3 (by omega) 4 _)
  obtain ⟨m, trace, hgrow, hfairGrow, hafter, hlast⟩ := push_fifth _
  have hpop : VecOp.run byteType ⟨80, 5, 8, ()⟩ .pop m =
      ⟨some (⟨80, 4, 8, ()⟩, some (m 84)), m, [.touch 84 1]⟩ := rfl
  have hrun := (hfour.step hfairGrow hgrow).step htouch hpop
  rw [hlast] at hrun
  have hblocks : afterTrace (afterTrace [⟨(), 64, 4⟩] trace) [.touch 84 1] = [⟨(), 80, 8⟩] := by
    rw [hafter]
    rfl
  obtain ⟨xs, hlist, hlength, -⟩ := hrun.refines_list
  exact ⟨_, m, _, xs, hblocks ▸ hrun, hlist, hlength, hlength.symm⟩

end ModernC.Collections
