import ModernC.Bytes.ByteReader

/-!
# Shared blocks

A block holds a value and the number of its handles.  A clone counts up, a drop counts down, and
the drop of the last handle gives the block back to the allocator it is from.  The main result is
`ArcRun.exact`, about every run of the operations.
-/

namespace ModernC.Collections

open Framework Framework.Traced Bytes

/-- The layout of an `ArcBlock<T>`: the size of the value, the place of the count, `sizeof` and
`alignof`. -/
structure ArcLayout where
  valueSize : ℕ
  countOffset : ℕ
  size : ℕ
  align : ℕ
  value_le : valueSize ≤ countOffset
  count_le : countOffset + 4 ≤ size
deriving DecidableEq

/-- A handle of an `Arc<T>`. -/
structure Arc (A : Type) where
  layout : ArcLayout
  block : ℕ
  allocator : A
deriving DecidableEq

/-- The four bytes of a count. -/
def u32Representation : Representation UInt32 where
  size := 4
  encode value := [(value &&& 0x000000FF).toUInt8, ((value >>> 8) &&& 0x000000FF).toUInt8,
    ((value >>> 16) &&& 0x000000FF).toUInt8, (value >>> 24).toUInt8]
  decode
    | [b0, b1, b2, b3] => le32 b0 b1 b2 b3
    | _ => 0
  length_encode _ := rfl
  decode_encode value := UInt32.toNat_inj.mp (toNat_bytes32 value)

/-- The bytes of a value, all of the same number. -/
def bytesRepresentation (size : ℕ) :
    Representation { bytes : List UInt8 // bytes.length = size } where
  size := size
  encode bytes := bytes
  decode bytes := if h : bytes.length = size then ⟨bytes, h⟩ else ⟨List.replicate size 0, by simp⟩
  length_encode bytes := bytes.2
  decode_encode bytes := dif_pos bytes.2

/-- A value of the type of a layout. -/
abbrev ArcLayout.Value (layout : ArcLayout) : Type :=
  { bytes : List UInt8 // bytes.length = layout.valueSize }

variable {A : Type}

/-- The address of the count. -/
def Arc.countAddr (h : Arc A) : ℕ := h.block + h.layout.countOffset

def arcNew (layout : ArcLayout) (a : A) (value : layout.Value) (answer : ℕ) :
    BlockProgram A (Arc A) := do
  let addr ← allocBytes a layout.size layout.align answer
  let h : Arc A := ⟨layout, addr, a⟩
  storeAt u32Representation h.countAddr 1
  storeAt (bytesRepresentation layout.valueSize) addr value
  return h

def arcNewUninit (layout : ArcLayout) (a : A) (answer : ℕ) : BlockProgram A (Arc A) := do
  let addr ← allocBytes a layout.size layout.align answer
  let h : Arc A := ⟨layout, addr, a⟩
  storeAt u32Representation h.countAddr 1
  return h

def arcClone (h : Arc A) : BlockProgram A (Arc A) := do
  let cur ← loadAt u32Representation h.countAddr
  if cur = 0xFFFFFFFF then trap
  else do
    storeAt u32Representation h.countAddr (cur + 1)
    return h

/-- The pointer to the value. -/
def arcGet (h : Arc A) : BlockProgram A ℕ := pure h.block

def arcGetMut (h : Arc A) : BlockProgram A ℕ := do
  let cur ← loadAt u32Representation h.countAddr
  if cur ≠ 1 then trap
  else return h.block

def arcDrop (h : Arc A) : BlockProgram A Bool := do
  let prev ← loadAt u32Representation h.countAddr
  storeAt u32Representation h.countAddr (prev - 1)
  if prev = 1 then do
    freeBytes h.allocator h.block h.layout.size
    return true
  else return false

/-! ## Runs -/

/-- An operation.  The allocator answers a request with an address. -/
inductive ArcOp (A : Type) where
  | new (layout : ArcLayout) (a : A) (value : layout.Value) (answer : ℕ)
  | newUninit (layout : ArcLayout) (a : A) (answer : ℕ)
  | clone (h : Arc A)
  | drop (h : Arc A)
  | get (h : Arc A)
  | getMut (h : Arc A)

/-- What an operation gives to its caller. -/
inductive ArcAnswer (A : Type) where
  | handle (h : Arc A)
  | freed (freed : Bool)
  | pointer (p : ℕ)

def ArcOp.run : ArcOp A → BlockProgram A (ArcAnswer A)
  | .new layout a value answer => do
    let h ← arcNew layout a value answer
    return .handle h
  | .newUninit layout a answer => do
    let h ← arcNewUninit layout a answer
    return .handle h
  | .clone h => do
    let h ← arcClone h
    return .handle h
  | .drop h => do
    let freed ← arcDrop h
    return .freed freed
  | .get h => do
    let p ← arcGet h
    return .pointer p
  | .getMut h => do
    let p ← arcGetMut h
    return .pointer p

/-- The handle that an operation is called with. -/
def ArcOp.operand : ArcOp A → Option (Arc A)
  | .new .. | .newUninit .. => none
  | .clone h | .drop h | .get h | .getMut h => some h

variable [DecidableEq A]

/-- The live handles behind an operation.  A drop consumes its handle. -/
def ArcOp.handles (op : ArcOp A) (answer : ArcAnswer A) (handles : List (Arc A)) : List (Arc A) :=
  match op, answer with
  | .drop h, _ => handles.erase h
  | _, .handle h => h :: handles
  | _, _ => handles

/-- The memory, the blocks that are out and the live handles. -/
structure ArcState (A : Type) where
  mem : Memory
  blocks : List (OwnedBlock A)
  handles : List (Arc A)

/-- A run of operations on live handles.  Between them the values in the blocks may change, and what
is outside of the blocks, but not the counts. -/
inductive ArcRun : ArcState A → Prop
  | init (m : Memory) : ArcRun ⟨m, [], []⟩
  | step {s answer m trace} {op : ArcOp A} (h : ArcRun s) (hlive : ∀ h ∈ op.operand, h ∈ s.handles)
      (hfair : FairTrace s.blocks trace) (hop : op.run s.mem = ⟨some answer, m, trace⟩) :
      ArcRun ⟨m, afterTrace s.blocks trace, op.handles answer s.handles⟩
  | other {s} {m : Memory} (h : ArcRun s)
      (hkeep : ∀ h ∈ s.handles, ∀ a, h.countAddr ≤ a → a < h.countAddr + 4 → m a = s.mem a) :
      ArcRun { s with mem := m }

end ModernC.Collections

/-!
## Counts and handles agree

In every run the count of a block is the number of its live handles, every block that is out has a
handle, and a block is given back by the drop of its last handle.
-/

namespace ModernC.Collections

open Framework Framework.Traced

variable {A : Type}

/-- The block of a handle. -/
def Arc.owned (h : Arc A) : OwnedBlock A := ⟨h.allocator, h.block, h.layout.size⟩

/-- The count that is stored for a handle. -/
def Arc.stored (h : Arc A) (m : Memory) : UInt32 := u32Representation.load m h.countAddr

lemma Arc.contains_count (h : Arc A) : h.owned.Contains h.countAddr 4 := by
  have hle := h.layout.count_le
  refine ⟨Nat.le_add_right _ _, ?_⟩
  show h.block + h.layout.countOffset + 4 ≤ h.block + h.layout.size
  omega

lemma Arc.contains_value (h : Arc A) : h.owned.Contains h.block h.layout.valueSize := by
  have hle := h.layout.count_le
  have hvalue := h.layout.value_le
  refine ⟨le_refl _, ?_⟩
  show h.block + h.layout.valueSize ≤ h.block + h.layout.size
  omega

lemma Arc.size_pos (h : Arc A) : 0 < h.owned.size := by
  have hle := h.layout.count_le
  show 0 < h.layout.size
  omega

/-! ## The operations -/

variable {m : Memory}

lemma arcNewUninit_eq (layout : ArcLayout) (a : A) (answer : ℕ) (m : Memory) :
    arcNewUninit layout a answer m =
      ⟨some ⟨layout, answer, a⟩,
        u32Representation.store m (answer + layout.countOffset) 1,
        [.alloc ⟨a, answer, layout.size⟩ layout.align,
          .touch (answer + layout.countOffset) 4]⟩ := rfl

lemma arcNew_eq (layout : ArcLayout) (a : A) (value : layout.Value) (answer : ℕ) (m : Memory) :
    arcNew layout a value answer m =
      ⟨some ⟨layout, answer, a⟩,
        (bytesRepresentation layout.valueSize).store
          (u32Representation.store m (answer + layout.countOffset) 1) answer value,
        [.alloc ⟨a, answer, layout.size⟩ layout.align, .touch (answer + layout.countOffset) 4,
          .touch answer layout.valueSize]⟩ := rfl

variable {h : Arc A}

lemma arcClone_saturated (hmax : h.stored m = 0xFFFFFFFF) :
    arcClone h m = ⟨none, m, [.touch h.countAddr 4]⟩ := by
  have hload : loadAt (A := A) u32Representation h.countAddr m =
      ⟨some (h.stored m), m, [.touch h.countAddr 4]⟩ := rfl
  rw [arcClone, bind_of_eq hload, if_pos hmax]
  rfl

lemma arcClone_eq (hmax : h.stored m ≠ 0xFFFFFFFF) :
    arcClone h m = ⟨some h, u32Representation.store m h.countAddr (h.stored m + 1),
      [.touch h.countAddr 4, .touch h.countAddr 4]⟩ := by
  have hload : loadAt (A := A) u32Representation h.countAddr m =
      ⟨some (h.stored m), m, [.touch h.countAddr 4]⟩ := rfl
  rw [arcClone, bind_of_eq hload, if_neg hmax]
  rfl

lemma arcGetMut_eq (h : Arc A) (m : Memory) :
    arcGetMut h m =
      ⟨if h.stored m = 1 then some h.block else none, m, [.touch h.countAddr 4]⟩ := by
  have hload : loadAt (A := A) u32Representation h.countAddr m =
      ⟨some (h.stored m), m, [.touch h.countAddr 4]⟩ := rfl
  rw [arcGetMut, bind_of_eq hload]
  by_cases hone : h.stored m = 1
  · rw [if_neg (not_not.mpr hone), if_pos hone]
    rfl
  · rw [if_pos hone, if_neg hone]
    rfl

lemma arcDrop_last (hone : h.stored m = 1) :
    arcDrop h m = ⟨some true, u32Representation.store m h.countAddr (h.stored m - 1),
      [.touch h.countAddr 4, .touch h.countAddr 4, .free h.owned]⟩ := by
  have hload : loadAt (A := A) u32Representation h.countAddr m =
      ⟨some (h.stored m), m, [.touch h.countAddr 4]⟩ := rfl
  rw [arcDrop, bind_of_eq hload, if_pos hone]
  rfl

lemma arcDrop_shared (hone : h.stored m ≠ 1) :
    arcDrop h m = ⟨some false, u32Representation.store m h.countAddr (h.stored m - 1),
      [.touch h.countAddr 4, .touch h.countAddr 4]⟩ := by
  have hload : loadAt (A := A) u32Representation h.countAddr m =
      ⟨some (h.stored m), m, [.touch h.countAddr 4]⟩ := rfl
  rw [arcDrop, bind_of_eq hload, if_neg hone]
  rfl

/-! ## The invariant -/

variable [DecidableEq A]

/-- What holds between the operations. -/
structure ArcState.Invariant (s : ArcState A) : Prop where
  nodup : s.blocks.Nodup
  apart : ∀ b ∈ s.blocks, ∀ b' ∈ s.blocks, b ≠ b' → b.Apart b'
  owned : ∀ h ∈ s.handles, h.owned ∈ s.blocks
  held : ∀ b ∈ s.blocks, ∃ h ∈ s.handles, h.owned = b
  same : ∀ h ∈ s.handles, ∀ h' ∈ s.handles, h.owned = h'.owned → h = h'
  counted : ∀ h ∈ s.handles, (h.stored s.mem).toNat = s.handles.count h

variable {s : ArcState A}

omit [DecidableEq A] in
/-- A count in another block is not touched. -/
lemma Arc.stored_congr {m' : Memory} {b : OwnedBlock A} (hapart : h.owned.Apart b)
    (hkeep : ∀ a, a < b.addr ∨ b.addr + b.size ≤ a → m' a = m a) : h.stored m' = h.stored m := by
  have hcontains := h.contains_count
  apply u32Representation.load_congr
  intro a hlow hhigh
  apply hkeep
  have hsize : u32Representation.size = 4 := rfl
  rw [hsize] at hhigh
  rcases hapart with hapart | hapart
  · left
    exact (hhigh.trans_le hcontains.2).trans_le hapart
  · right
    exact hapart.trans (hcontains.1.trans hlow)

omit [DecidableEq A] in
/-- A store to the count of a block stays in it. -/
lemma Arc.store_outside (m : Memory) (count : UInt32) {a : ℕ}
    (ha : a < h.owned.addr ∨ h.owned.addr + h.owned.size ≤ a) :
    u32Representation.store m h.countAddr count a = m a := by
  have hcontains := h.contains_count
  have hlow := hcontains.1
  have hhigh := hcontains.2
  apply u32Representation.store_outside
  show a < h.countAddr ∨ h.countAddr + 4 ≤ a
  omega

/-- A new block comes with its first handle. -/
lemma ArcState.Invariant.new (hs : s.Invariant) (hapart : ∀ b ∈ s.blocks, h.owned.Apart b)
    (hkeep : ∀ a, a < h.owned.addr ∨ h.owned.addr + h.owned.size ≤ a → m a = s.mem a)
    (hone : h.stored m = 1) :
    ArcState.Invariant ⟨m, h.owned :: s.blocks, h :: s.handles⟩ := by
  have hpos := h.size_pos
  have hfresh : h.owned ∉ s.blocks := by
    intro hmem
    rcases hapart _ hmem with hself | hself <;> omega
  have hnew : h ∉ s.handles := fun hmem => hfresh (hs.owned h hmem)
  constructor
  · exact List.nodup_cons.mpr ⟨hfresh, hs.nodup⟩
  · intro b hb b' hb' hne
    rcases List.mem_cons.mp hb with rfl | hb <;> rcases List.mem_cons.mp hb' with rfl | hb'
    · exact absurd rfl hne
    · exact hapart b' hb'
    · exact (hapart b hb).symm
    · exact hs.apart b hb b' hb' hne
  · intro h' hh'
    rcases List.mem_cons.mp hh' with rfl | hh'
    · exact List.mem_cons_self
    · exact List.mem_cons_of_mem _ (hs.owned h' hh')
  · intro b hb
    rcases List.mem_cons.mp hb with rfl | hb
    · exact ⟨h, List.mem_cons_self, rfl⟩
    · obtain ⟨h', hh', hb'⟩ := hs.held b hb
      exact ⟨h', List.mem_cons_of_mem _ hh', hb'⟩
  · intro h₁ hh₁ h₂ hh₂ heq
    rcases List.mem_cons.mp hh₁ with rfl | hold₁ <;> rcases List.mem_cons.mp hh₂ with rfl | hold₂
    · rfl
    · exact absurd (hs.owned h₂ hold₂) (heq ▸ hfresh)
    · exact absurd (hs.owned h₁ hold₁) (heq ▸ hfresh)
    · exact hs.same h₁ hold₁ h₂ hold₂ heq
  · intro h' hh'
    dsimp only
    rcases List.mem_cons.mp hh' with rfl | hh'
    · rw [hone, List.count_cons_self, List.count_eq_zero_of_not_mem hnew]
      rfl
    · have hne : h ≠ h' := fun heq => hnew (heq ▸ hh')
      have hother : h'.owned.Apart h.owned := (hapart _ (hs.owned h' hh')).symm
      rw [Arc.stored_congr hother hkeep, hs.counted h' hh', List.count_cons_of_ne hne]

/-- The counts of the others stay when one is stored. -/
lemma ArcState.Invariant.stored_of_ne (hs : s.Invariant) {h' : Arc A} (hh : h ∈ s.handles)
    (hh' : h' ∈ s.handles) (hne : h' ≠ h) (count : UInt32) :
    h'.stored (u32Representation.store s.mem h.countAddr count) = h'.stored s.mem := by
  have hblocks : h'.owned ≠ h.owned := fun heq => hne (hs.same h' hh' h hh heq)
  exact Arc.stored_congr (hs.apart _ (hs.owned h' hh') _ (hs.owned h hh) hblocks)
    fun a ha => Arc.store_outside s.mem count ha

omit [DecidableEq A] in
lemma Arc.stored_store (h : Arc A) (m : Memory) (count : UInt32) :
    h.stored (u32Representation.store m h.countAddr count) = count :=
  u32Representation.load_store m h.countAddr count

/-- One more handle, or one less that is not the last one. -/
lemma ArcState.Invariant.recount (hs : s.Invariant) (hh : h ∈ s.handles)
    {handles : List (Arc A)} {count : UInt32} (hmem : ∀ h', h' ∈ handles ↔ h' ∈ s.handles)
    (hcount : count.toNat = handles.count h)
    (hothers : ∀ h', h' ≠ h → handles.count h' = s.handles.count h') :
    ArcState.Invariant ⟨u32Representation.store s.mem h.countAddr count, s.blocks, handles⟩ := by
  constructor
  · exact hs.nodup
  · exact hs.apart
  · exact fun h' hh' => hs.owned h' ((hmem h').mp hh')
  · intro b hb
    obtain ⟨h', hh', hb'⟩ := hs.held b hb
    exact ⟨h', (hmem h').mpr hh', hb'⟩
  · exact fun h₁ hh₁ h₂ hh₂ heq => hs.same h₁ ((hmem h₁).mp hh₁) h₂ ((hmem h₂).mp hh₂) heq
  · intro h' hh'
    dsimp only
    by_cases heq : h' = h
    · rw [heq, Arc.stored_store, hcount]
    · rw [hs.stored_of_ne hh ((hmem h').mp hh') heq, hothers h' heq,
        hs.counted h' ((hmem h').mp hh')]

/-- The last handle goes, and its block with it. -/
lemma ArcState.Invariant.release (hs : s.Invariant) (hh : h ∈ s.handles)
    (hone : s.handles.count h = 1) (count : UInt32) :
    ArcState.Invariant ⟨u32Representation.store s.mem h.countAddr count,
      s.blocks.erase h.owned, s.handles.erase h⟩ := by
  have hgone : h ∉ s.handles.erase h := by
    rw [← List.count_pos_iff, List.count_erase_self, hone]
    omega
  have hold : ∀ {h'}, h' ∈ s.handles.erase h → h' ∈ s.handles ∧ h' ≠ h := by
    intro h' hh'
    exact ⟨List.mem_of_mem_erase hh', fun heq => hgone (heq ▸ hh')⟩
  have hblocks : ∀ {b}, b ∈ s.blocks.erase h.owned ↔ b ≠ h.owned ∧ b ∈ s.blocks :=
    hs.nodup.mem_erase_iff
  constructor
  · exact hs.nodup.erase _
  · exact fun b hb b' hb' => hs.apart b (hblocks.mp hb).2 b' (hblocks.mp hb').2
  · intro h' hh'
    obtain ⟨hmem, hne⟩ := hold hh'
    exact hblocks.mpr ⟨fun heq => hne (hs.same h' hmem h hh heq), hs.owned h' hmem⟩
  · intro b hb
    obtain ⟨hne, hmem⟩ := hblocks.mp hb
    obtain ⟨h', hh', rfl⟩ := hs.held b hmem
    exact ⟨h', (List.mem_erase_of_ne fun heq => hne (congrArg Arc.owned heq)).mpr hh', rfl⟩
  · exact fun h₁ hh₁ h₂ hh₂ heq => hs.same h₁ (hold hh₁).1 h₂ (hold hh₂).1 heq
  · intro h' hh'
    obtain ⟨hmem, hne⟩ := hold hh'
    dsimp only
    rw [hs.stored_of_ne hh hmem hne, hs.counted h' hmem, List.count_erase_of_ne hne]

/-! ## Steps -/

lemma toNat_succ {c : UInt32} (h : c ≠ 0xFFFFFFFF) : (c + 1).toNat = c.toNat + 1 := by
  have hlt := c.toNat_lt
  have hne : c.toNat ≠ 0xFFFFFFFF := fun heq => h (UInt32.toNat_inj.mp heq)
  rw [UInt32.toNat_add]
  simp only [UInt32.reduceToNat]
  omega

lemma toNat_pred {c : UInt32} (h : 0 < c.toNat) : (c - 1).toNat = c.toNat - 1 := by
  have hlt := c.toNat_lt
  rw [UInt32.toNat_sub]
  simp only [UInt32.reduceToNat]
  omega

/-- The count is one where the handle is the only one. -/
lemma ArcState.Invariant.stored_eq_one (hs : s.Invariant) (hh : h ∈ s.handles) :
    h.stored s.mem = 1 ↔ s.handles.count h = 1 := by
  rw [← hs.counted h hh]
  exact UInt32.toNat_inj.symm

/-- What an operation answers.  It traps only where no more handles can be counted, or where a
handle is not the only one. -/
def ArcOp.answer (handles : List (Arc A)) : ArcOp A → Option (ArcAnswer A)
  | .new layout a _ answer | .newUninit layout a answer => some (.handle ⟨layout, answer, a⟩)
  | .clone h => if handles.count h = 2 ^ 32 - 1 then none else some (.handle h)
  | .drop h => some (.freed (handles.count h = 1))
  | .get h => some (.pointer h.block)
  | .getMut h => if handles.count h = 1 then some (.pointer h.block) else none

/-- What an operation gives back: the block of the last handle. -/
def ArcOp.frees (handles : List (Arc A)) : ArcOp A → List (OwnedBlock A)
  | .drop h => if handles.count h = 1 then [h.owned] else []
  | _ => []

/-- The blocks that are given back. -/
def freedBlocks (trace : List (BlockEvent A)) : List (OwnedBlock A) :=
  trace.filterMap fun event =>
    match event with
    | .free block => some block
    | _ => none

/-- **Counts and handles agree along a run.** -/
theorem ArcRun.invariant (h : ArcRun s) : s.Invariant := by
  induction h with
  | init => constructor <;> simp
  | @step s answer m trace op hrun hlive hfair hop ih =>
    cases op with
    | new layout a value place =>
      have heq : Outcome.mk (some answer) m trace = Outcome.mk _ _ _ :=
        hop.symm.trans (bind_of_eq (arcNew_eq layout a value place s.mem))
      obtain ⟨hanswer, hm, htrace⟩ := Outcome.mk.inj heq
      obtain rfl := Option.some.inj hanswer
      subst hm htrace
      obtain ⟨⟨-, -, hapart⟩, -⟩ := hfair
      refine ih.new (h := ⟨layout, place, a⟩) hapart (fun b hb => ?_) ?_
      · have hvalue := (Arc.contains_value (⟨layout, place, a⟩ : Arc A)).2
        refine ((bytesRepresentation layout.valueSize).store_outside ?_).trans
          (Arc.store_outside (h := ⟨layout, place, a⟩) s.mem 1 hb)
        show b < place ∨ place + layout.valueSize ≤ b
        exact hb.imp id fun hb => hvalue.trans hb
      · refine (u32Representation.load_store_of_disjoint
          (bytesRepresentation layout.valueSize) ?_).trans (u32Representation.load_store _ _ 1)
        right
        exact Nat.add_le_add_left layout.value_le place
    | newUninit layout a place =>
      have heq : Outcome.mk (some answer) m trace = Outcome.mk _ _ _ :=
        hop.symm.trans (bind_of_eq (arcNewUninit_eq layout a place s.mem))
      obtain ⟨hanswer, hm, htrace⟩ := Outcome.mk.inj heq
      obtain rfl := Option.some.inj hanswer
      subst hm htrace
      obtain ⟨⟨-, -, hapart⟩, -⟩ := hfair
      exact ih.new (h := ⟨layout, place, a⟩) hapart
        (fun b hb => Arc.store_outside (h := ⟨layout, place, a⟩) s.mem 1 hb)
        (Arc.stored_store _ s.mem 1)
    | clone h =>
      have hh : h ∈ s.handles := hlive h rfl
      by_cases hmax : h.stored s.mem = 0xFFFFFFFF
      · have heq : Outcome.mk (some answer) m trace = Outcome.mk _ _ _ :=
          hop.symm.trans (bind_of_trap (arcClone_saturated hmax))
        exact absurd (Outcome.mk.inj heq).1 (by simp)
      · have heq : Outcome.mk (some answer) m trace = Outcome.mk _ _ _ :=
          hop.symm.trans (bind_of_eq (arcClone_eq hmax))
        obtain ⟨hanswer, hm, htrace⟩ := Outcome.mk.inj heq
        obtain rfl := Option.some.inj hanswer
        subst hm htrace
        refine ih.recount hh (fun h' => ?_) ?_ fun h' hne => List.count_cons_of_ne (Ne.symm hne)
        · exact ⟨fun hmem => (List.mem_cons.mp hmem).elim (fun heq => heq ▸ hh) id,
            List.mem_cons_of_mem _⟩
        · show (h.stored s.mem + 1).toNat = (h :: s.handles).count h
          rw [toNat_succ hmax, ih.counted h hh, List.count_cons_self]
    -- the last handle takes its block along, an earlier one only its count
    | drop h =>
      have hh : h ∈ s.handles := hlive h rfl
      have hpos : 0 < s.handles.count h := List.count_pos_iff.mpr hh
      by_cases hone : h.stored s.mem = 1
      · have heq : Outcome.mk (some answer) m trace = Outcome.mk _ _ _ :=
          hop.symm.trans (bind_of_eq (arcDrop_last hone))
        obtain ⟨hanswer, hm, htrace⟩ := Outcome.mk.inj heq
        obtain rfl := Option.some.inj hanswer
        subst hm htrace
        exact ih.release hh ((ih.stored_eq_one hh).mp hone) _
      · have heq : Outcome.mk (some answer) m trace = Outcome.mk _ _ _ :=
          hop.symm.trans (bind_of_eq (arcDrop_shared hone))
        obtain ⟨hanswer, hm, htrace⟩ := Outcome.mk.inj heq
        obtain rfl := Option.some.inj hanswer
        subst hm htrace
        have htwo : s.handles.count h ≠ 1 := fun hcount => hone ((ih.stored_eq_one hh).mpr hcount)
        refine ih.recount hh (fun h' => ?_) ?_ fun h' hne => List.count_erase_of_ne hne
        · refine ⟨List.mem_of_mem_erase, fun hmem => ?_⟩
          by_cases heq : h' = h
          · rw [heq, ← List.count_pos_iff]
            show 0 < (s.handles.erase h).count h
            rw [List.count_erase_self]
            omega
          · exact (List.mem_erase_of_ne heq).mpr hmem
        · show (h.stored s.mem - 1).toNat = (s.handles.erase h).count h
          rw [toNat_pred (by rw [ih.counted h hh]; exact hpos), ih.counted h hh,
            List.count_erase_self]
    | get h =>
      have heq : Outcome.mk (some answer) m trace = Outcome.mk _ _ _ := hop.symm
      obtain ⟨hanswer, hm, htrace⟩ := Outcome.mk.inj heq
      obtain rfl := Option.some.inj hanswer
      subst hm htrace
      exact ih
    | getMut h =>
      rcases hone : (if h.stored s.mem = 1 then some h.block else none) with _ | p
      · have hrun := arcGetMut_eq h s.mem
        rw [hone] at hrun
        have heq : Outcome.mk (some answer) m trace = Outcome.mk _ _ _ :=
          hop.symm.trans (bind_of_trap hrun)
        exact absurd (Outcome.mk.inj heq).1 (by simp)
      · have hrun := arcGetMut_eq h s.mem
        rw [hone] at hrun
        have heq : Outcome.mk (some answer) m trace = Outcome.mk _ _ _ :=
          hop.symm.trans (bind_of_eq hrun)
        obtain ⟨hanswer, hm, htrace⟩ := Outcome.mk.inj heq
        obtain rfl := Option.some.inj hanswer
        subst hm htrace
        exact ih
  | @other s m hrun hkeep ih =>
    refine ⟨ih.nodup, ih.apart, ih.owned, ih.held, ih.same, fun h hh => ?_⟩
    rw [← ih.counted h hh]
    exact congrArg UInt32.toNat (u32Representation.load_congr fun a hlow hhigh =>
      hkeep h hh a hlow hhigh)

/-! ## One operation -/

/-- A touch of the count of a live handle. -/
lemma ArcState.Invariant.allowed_count (hs : s.Invariant) (hh : h ∈ s.handles) :
    (BlockEvent.touch h.countAddr 4 : BlockEvent A).Allowed s.blocks :=
  ⟨h.owned, hs.owned h hh, h.contains_count⟩

/-- An operation on live handles touches live blocks, answers as it should and gives back the block
of a last handle. -/
lemma ArcState.Invariant.run (hs : s.Invariant) (op : ArcOp A)
    (hlive : ∀ h ∈ op.operand, h ∈ s.handles) :
    SoundTrace s.blocks (op.run s.mem).trace ∧ (op.run s.mem).result = op.answer s.handles ∧
      freedBlocks (op.run s.mem).trace = op.frees s.handles := by
  cases op with
  | new layout a value place =>
    have hrun : (ArcOp.new layout a value place).run s.mem = _ :=
      bind_of_eq (arcNew_eq layout a value place s.mem)
    rw [hrun]
    refine ⟨⟨trivial, ?_, ?_, trivial⟩, rfl, rfl⟩
    · exact ⟨_, List.mem_cons_self, (⟨layout, place, a⟩ : Arc A).contains_count⟩
    · exact ⟨_, List.mem_cons_self, (⟨layout, place, a⟩ : Arc A).contains_value⟩
  | newUninit layout a place =>
    have hrun : (ArcOp.newUninit layout a place).run s.mem = _ :=
      bind_of_eq (arcNewUninit_eq layout a place s.mem)
    rw [hrun]
    refine ⟨⟨trivial, ?_, trivial⟩, rfl, rfl⟩
    exact ⟨_, List.mem_cons_self, (⟨layout, place, a⟩ : Arc A).contains_count⟩
  | clone h =>
    have hh : h ∈ s.handles := hlive h rfl
    have hallowed := hs.allowed_count hh
    have hmax : h.stored s.mem = 0xFFFFFFFF ↔ s.handles.count h = 2 ^ 32 - 1 := by
      rw [← hs.counted h hh]
      exact UInt32.toNat_inj.symm
    by_cases hfull : h.stored s.mem = 0xFFFFFFFF
    · have hrun : (ArcOp.clone h).run s.mem = _ := bind_of_trap (arcClone_saturated hfull)
      rw [hrun, ArcOp.answer, if_pos (hmax.mp hfull)]
      exact ⟨⟨hallowed, trivial⟩, rfl, rfl⟩
    · have hrun : (ArcOp.clone h).run s.mem = _ := bind_of_eq (arcClone_eq hfull)
      rw [hrun, ArcOp.answer, if_neg fun hcount => hfull (hmax.mpr hcount)]
      exact ⟨⟨hallowed, hallowed, trivial⟩, rfl, rfl⟩
  | drop h =>
    have hh : h ∈ s.handles := hlive h rfl
    have hallowed := hs.allowed_count hh
    have hone := hs.stored_eq_one hh
    by_cases hlast : h.stored s.mem = 1
    · have hrun : (ArcOp.drop h).run s.mem = _ := bind_of_eq (arcDrop_last hlast)
      rw [hrun, ArcOp.answer, ArcOp.frees, if_pos (hone.mp hlast),
        decide_eq_true (hone.mp hlast)]
      exact ⟨⟨hallowed, hallowed, hs.owned h hh, trivial⟩, rfl, rfl⟩
    · have hshared : s.handles.count h ≠ 1 := fun hcount => hlast (hone.mpr hcount)
      have hrun : (ArcOp.drop h).run s.mem = _ := bind_of_eq (arcDrop_shared hlast)
      rw [hrun, ArcOp.answer, ArcOp.frees, if_neg hshared, decide_eq_false hshared]
      exact ⟨⟨hallowed, hallowed, trivial⟩, rfl, rfl⟩
  | get h => exact ⟨trivial, rfl, rfl⟩
  | getMut h =>
    have hh : h ∈ s.handles := hlive h rfl
    have hallowed := hs.allowed_count hh
    have hone := hs.stored_eq_one hh
    have hmut := arcGetMut_eq h s.mem
    by_cases hunique : h.stored s.mem = 1
    · rw [if_pos hunique] at hmut
      have hrun : (ArcOp.getMut h).run s.mem = _ := bind_of_eq hmut
      rw [hrun, ArcOp.answer, if_pos (hone.mp hunique)]
      exact ⟨⟨hallowed, trivial⟩, rfl, rfl⟩
    · rw [if_neg hunique] at hmut
      have hrun : (ArcOp.getMut h).run s.mem = _ := bind_of_trap hmut
      rw [hrun, ArcOp.answer, if_neg fun hcount => hunique (hone.mpr hcount)]
      exact ⟨⟨hallowed, trivial⟩, rfl, rfl⟩

/-- The handles of a block are all the same. -/
lemma ArcState.Invariant.countP_owned (hs : s.Invariant) (hh : h ∈ s.handles) :
    s.handles.countP (fun h' => h'.owned = h.owned) = s.handles.count h := by
  apply List.countP_congr
  intro h' hh'
  rw [decide_eq_true_iff, beq_iff_eq]
  exact ⟨fun heq => hs.same h' hh' h hh heq, congrArg Arc.owned⟩

/-- **Reference counting is exact**: in every run each block that is out has a handle and counts its
handles, every handle has its block, and an operation touches only blocks that are out, answers as
it should, and gives back a block exactly when it drops the last handle. -/
theorem ArcRun.exact (h : ArcRun s) :
    (∀ b ∈ s.blocks, ∃ h ∈ s.handles, h.owned = b ∧
      (h.stored s.mem).toNat = s.handles.countP fun h' => h'.owned = b) ∧
    (∀ h ∈ s.handles, h.owned ∈ s.blocks ∧
      s.handles.countP (fun h' => h'.owned = h.owned) = s.handles.count h) ∧
    ∀ op : ArcOp A, (∀ h ∈ op.operand, h ∈ s.handles) →
      SoundTrace s.blocks (op.run s.mem).trace ∧ (op.run s.mem).result = op.answer s.handles ∧
        freedBlocks (op.run s.mem).trace = op.frees s.handles := by
  have hs := h.invariant
  refine ⟨fun b hb => ?_, fun h hh => ⟨hs.owned h hh, hs.countP_owned hh⟩, hs.run⟩
  obtain ⟨h, hh, rfl⟩ := hs.held b hb
  exact ⟨h, hh, rfl, by rw [hs.countP_owned hh, hs.counted h hh]⟩

/-- A block with an eight-byte value. -/
def wordLayout : ArcLayout := ⟨8, 8, 16, 8, by omega, by omega⟩

/-- The only handle of a block gives it back. -/
theorem exact_newUninit : ∃ s : ArcState Unit, s.handles = [⟨wordLayout, 64, ()⟩] ∧
    freedBlocks ((ArcOp.drop ⟨wordLayout, 64, ()⟩).run s.mem).trace = [⟨(), 64, 16⟩] := by
  have hop : (ArcOp.newUninit wordLayout () 64).run (fun _ => 0) =
      ⟨some (.handle ⟨wordLayout, 64, ()⟩), u32Representation.store (fun _ => 0) 72 1,
        [.alloc ⟨(), 64, 16⟩ 8, .touch 72 4]⟩ := rfl
  have hfair : FairTrace ([] : List (OwnedBlock Unit)) [.alloc ⟨(), 64, 16⟩ 8, .touch 72 4] := by
    refine ⟨⟨?_, ?_, by simp⟩, trivial, trivial⟩
    · show 64 < 2 ^ 64
      omega
    · show 64 + 16 ≤ 2 ^ 64
      omega
  have hrun : ArcRun (⟨u32Representation.store (fun _ => 0) 72 1, [⟨(), 64, 16⟩],
      [⟨wordLayout, 64, ()⟩]⟩ : ArcState Unit) :=
    .step (.init fun _ => 0) (by simp [ArcOp.operand]) hfair hop
  have hdrop := hrun.exact.2.2 (.drop ⟨wordLayout, 64, ()⟩) (by simp [ArcOp.operand])
  have hcount : ([⟨wordLayout, 64, ()⟩] : List (Arc Unit)).count ⟨wordLayout, 64, ()⟩ = 1 :=
    List.count_singleton_self
  refine ⟨⟨_, [⟨(), 64, 16⟩], [⟨wordLayout, 64, ()⟩]⟩, rfl, hdrop.2.2.trans ?_⟩
  rw [ArcOp.frees, if_pos hcount]
  rfl

end ModernC.Collections
