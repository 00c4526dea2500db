import ModernC.Framework.ByteMemory

/-!
# Programs with a trace

A program changes a state, notes what it does, and has a result unless it traps.  What it did in
front of a trap stays done.
-/

namespace ModernC.Framework

/-- How a program ends.  There is no result where it trapped. -/
structure Outcome (σ ε α : Type) where
  result : Option α
  state : σ
  trace : List ε

/-- A program over states `σ` that notes events `ε`. -/
def Traced (σ ε α : Type) : Type := σ → Outcome σ ε α

variable {σ ε α β : Type}

/-- The outcome of the rest of a program, behind what was noted so far. -/
def Outcome.after (noted : List ε) (outcome : Outcome σ ε α) : Outcome σ ε α :=
  { outcome with trace := noted ++ outcome.trace }

namespace Traced

instance : Monad (Traced σ ε) where
  pure a := fun s => ⟨some a, s, []⟩
  bind p f := fun s =>
    match (p s).result with
    | none => ⟨none, (p s).state, (p s).trace⟩
    | some a => (f a (p s).state).after (p s).trace

def trap : Traced σ ε α := fun s => ⟨none, s, []⟩

/-- A computation that touches nothing. -/
def ofOption : Option α → Traced σ ε α
  | some a => pure a
  | none => trap

/-! ## Evaluation -/

variable {p : Traced σ ε α} {f : α → Traced σ ε β} {s s' : σ} {noted : List ε} {a : α}

lemma pure_apply (a : α) (s : σ) : (pure a : Traced σ ε α) s = ⟨some a, s, []⟩ := rfl

/-- A program goes on with the result of its first part. -/
lemma bind_of_eq (h : p s = ⟨some a, s', noted⟩) : (p >>= f) s = (f a s').after noted := by
  show (match (p s).result with
    | none => (⟨none, (p s).state, (p s).trace⟩ : Outcome σ ε β)
    | some a => (f a (p s).state).after (p s).trace) = _
  rw [h]

/-- A program traps where its first part does. -/
lemma bind_of_trap (h : p s = ⟨none, s', noted⟩) : (p >>= f) s = ⟨none, s', noted⟩ := by
  show (match (p s).result with
    | none => (⟨none, (p s).state, (p s).trace⟩ : Outcome σ ε β)
    | some a => (f a (p s).state).after (p s).trace) = _
  rw [h]

/-- A program has no result if its first part has none. -/
lemma result_bind_of_first (h : (p s).result = none) : ((p >>= f) s).result = none := by
  rcases hp : p s with ⟨_ | a, s', noted⟩
  · rw [bind_of_trap hp]
  · exact absurd (h.symm.trans (congrArg Outcome.result hp)) nofun

/-- Nor if the rest has none, whatever the first part did. -/
lemma result_bind_of_rest (h : ∀ a s', (f a s').result = none) : ((p >>= f) s).result = none := by
  rcases hp : p s with ⟨_ | a, s', noted⟩
  · rw [bind_of_trap hp]
  · rw [bind_of_eq hp]
    exact h a s'

/-- What the first part of a program notes stands at the front. -/
lemma exists_trace_bind (p : Traced σ ε α) (f : α → Traced σ ε β) (s : σ) :
    ∃ rest, ((p >>= f) s).trace = (p s).trace ++ rest := by
  rcases h : p s with ⟨_ | a, s', noted⟩
  · rw [bind_of_trap h]
    exact ⟨[], (List.append_nil _).symm⟩
  · rw [bind_of_eq h]
    exact ⟨_, rfl⟩

lemma ofOption_bind_some (f : α → Traced σ ε β) (a : α) : ofOption (some a) >>= f = f a := rfl

lemma bind_pure_right (p : Traced σ ε α) : p >>= pure = p := by
  funext s
  rcases h : p s with ⟨_ | a, s', noted⟩
  · rw [bind_of_trap h]
  · rw [bind_of_eq h, pure_apply, Outcome.after, List.append_nil]

/-! ## What a program keeps -/

/-- In every run, whether it traps or not, the program relates the states around it and notes only
such events. -/
def Keeps (related : σ → σ → Prop) (allowed : ε → Prop) (p : Traced σ ε α) : Prop :=
  ∀ s, related s (p s).state ∧ ∀ event ∈ (p s).trace, allowed event

variable {related : σ → σ → Prop} {allowed : ε → Prop}

lemma keeps_pure (hrefl : ∀ s, related s s) (a : α) :
    Keeps related allowed (pure a : Traced σ ε α) :=
  fun s => ⟨hrefl s, fun _ hevent => absurd hevent List.not_mem_nil⟩

lemma keeps_trap (hrefl : ∀ s, related s s) : Keeps related allowed (trap : Traced σ ε α) :=
  fun s => ⟨hrefl s, fun _ hevent => absurd hevent List.not_mem_nil⟩

lemma keeps_ofOption (hrefl : ∀ s, related s s) (o : Option α) :
    Keeps related allowed (ofOption o : Traced σ ε α) := by
  cases o with
  | none => exact keeps_trap hrefl
  | some a => exact keeps_pure hrefl a

/-- The rule for sequences. -/
lemma Keeps.bind (htrans : ∀ s s' s'', related s s' → related s' s'' → related s s'')
    (hp : Keeps related allowed p) (hf : ∀ a, Keeps related allowed (f a)) :
    Keeps related allowed (p >>= f) := by
  intro s
  obtain ⟨hstate, htrace⟩ := hp s
  rcases h : p s with ⟨_ | a, s', noted⟩
  · rw [h] at hstate htrace
    rw [bind_of_trap h]
    exact ⟨hstate, htrace⟩
  · rw [h] at hstate htrace
    rw [bind_of_eq h]
    obtain ⟨hstate', htrace'⟩ := hf a s'
    refine ⟨htrans s s' _ hstate hstate', fun event hevent => ?_⟩
    rcases List.mem_append.mp hevent with hevent | hevent
    · exact htrace event hevent
    · exact htrace' event hevent

end Traced

end ModernC.Framework

/-!
## Programs with blocks of memory

A program asks allocators for blocks, touches memory and gives blocks back.  Its trace is sound
where it touches only blocks that are out and gives back only such blocks.  What an allocator
answers is a parameter of the request; it is fair where the block is apart from the ones that are
out.
-/

namespace ModernC.Framework

/-- A block, with the allocator that it is from. -/
structure OwnedBlock (A : Type) where
  allocator : A
  addr : ℕ
  size : ℕ
deriving DecidableEq

inductive BlockEvent (A : Type) where
  /-- Some bytes are read or written. -/
  | touch (a n : ℕ)
  | alloc (block : OwnedBlock A) (align : ℕ)
  | free (block : OwnedBlock A)
deriving DecidableEq

variable {A : Type}

abbrev BlockProgram (A : Type) (α : Type) : Type := Traced Memory (BlockEvent A) α

/-! ## Requests -/

/-- A request that the allocator answers with an address. -/
def allocBytes (a : A) (size align answer : ℕ) : BlockProgram A ℕ :=
  fun m => ⟨some answer, m, [.alloc ⟨a, answer, size⟩ align]⟩

def freeBytes (a : A) (addr size : ℕ) : BlockProgram A Unit :=
  fun m => ⟨some (), m, [.free ⟨a, addr, size⟩]⟩

/-- `p.*`, read -/
def loadAt {T : Type} (rep : Representation T) (a : ℕ) : BlockProgram A T :=
  fun m => ⟨some (rep.load m a), m, [.touch a rep.size]⟩

/-- `p.*`, written -/
def storeAt {T : Type} (rep : Representation T) (a : ℕ) (x : T) : BlockProgram A Unit :=
  fun m => ⟨some (), rep.store m a x, [.touch a rep.size]⟩

lemma loadAt_apply {T : Type} (rep : Representation T) (a : ℕ) (m : Memory) :
    (loadAt rep a : BlockProgram A T) m = ⟨some (rep.load m a), m, [.touch a rep.size]⟩ := rfl

lemma storeAt_apply {T : Type} (rep : Representation T) (a : ℕ) (x : T) (m : Memory) :
    (storeAt rep a x : BlockProgram A Unit) m =
      ⟨some (), rep.store m a x, [.touch a rep.size]⟩ := rfl

/-! ## Traces -/

/-- The two blocks have no byte in common. -/
def OwnedBlock.Apart (b b' : OwnedBlock A) : Prop :=
  b.addr + b.size ≤ b'.addr ∨ b'.addr + b'.size ≤ b.addr

/-- The bytes are in the block. -/
def OwnedBlock.Contains (b : OwnedBlock A) (a n : ℕ) : Prop :=
  b.addr ≤ a ∧ a + n ≤ b.addr + b.size

variable [DecidableEq A]

/-- The blocks that are out behind an event. -/
def afterEvent (blocks : List (OwnedBlock A)) : BlockEvent A → List (OwnedBlock A)
  | .touch _ _ => blocks
  | .alloc block _ => block :: blocks
  | .free block => blocks.erase block

def afterTrace (blocks : List (OwnedBlock A)) (trace : List (BlockEvent A)) :
    List (OwnedBlock A) :=
  trace.foldl afterEvent blocks

omit [DecidableEq A] in
/-- The program may do this while the blocks are out. -/
def BlockEvent.Allowed (blocks : List (OwnedBlock A)) : BlockEvent A → Prop
  | .touch a n => ∃ block ∈ blocks, block.Contains a n
  | .alloc _ _ => True
  | .free block => block ∈ blocks

omit [DecidableEq A] in
/-- An allocator may answer so while the blocks are out. -/
def BlockEvent.Fair (blocks : List (OwnedBlock A)) : BlockEvent A → Prop
  | .alloc block _ => block.addr < 2 ^ 64 ∧ block.addr + block.size ≤ 2 ^ 64 ∧
      ∀ other ∈ blocks, block.Apart other
  | _ => True

/-- Every event meets a condition on the blocks that are out at the time. -/
def Throughout (holds : List (OwnedBlock A) → BlockEvent A → Prop) :
    List (OwnedBlock A) → List (BlockEvent A) → Prop
  | _, [] => True
  | blocks, event :: trace => holds blocks event ∧ Throughout holds (afterEvent blocks event) trace

/-- The program touches and gives back only what is out. -/
abbrev SoundTrace : List (OwnedBlock A) → List (BlockEvent A) → Prop :=
  Throughout BlockEvent.Allowed

/-- The allocators answer with fresh blocks. -/
abbrev FairTrace : List (OwnedBlock A) → List (BlockEvent A) → Prop :=
  Throughout BlockEvent.Fair

variable {holds : List (OwnedBlock A) → BlockEvent A → Prop} {blocks : List (OwnedBlock A)}
  {trace trace' : List (BlockEvent A)}

lemma afterTrace_append :
    afterTrace blocks (trace ++ trace') = afterTrace (afterTrace blocks trace) trace' :=
  List.foldl_append

lemma throughout_append : Throughout holds blocks (trace ++ trace') ↔
    Throughout holds blocks trace ∧ Throughout holds (afterTrace blocks trace) trace' := by
  induction trace generalizing blocks with
  | nil => exact ⟨fun h => ⟨trivial, h⟩, And.right⟩
  | cons event trace ih =>
    rw [List.cons_append, Throughout, Throughout, ih, and_assoc]
    rfl

/-- The event leaves the blocks alone. -/
def BlockEvent.IsTouch : BlockEvent A → Prop
  | .touch _ _ => True
  | _ => False

lemma afterTrace_of_isTouch (h : ∀ event ∈ trace, event.IsTouch) :
    afterTrace blocks trace = blocks := by
  induction trace with
  | nil => rfl
  | cons event trace ih =>
    have hevent := h event List.mem_cons_self
    cases event with
    | touch a n => exact ih fun next hnext => h next (List.mem_cons_of_mem _ hnext)
    | alloc | _ => exact absurd hevent id

lemma throughout_of_isTouch (h : ∀ event ∈ trace, event.IsTouch)
    (hholds : ∀ event ∈ trace, holds blocks event) : Throughout holds blocks trace := by
  induction trace with
  | nil => trivial
  | cons event trace ih =>
    refine ⟨hholds event List.mem_cons_self, ?_⟩
    have htouch : ∀ next ∈ [event], next.IsTouch := fun next hnext =>
      h next (List.mem_singleton.mp hnext ▸ List.mem_cons_self)
    have hsame : afterEvent blocks event = blocks := afterTrace_of_isTouch htouch
    rw [hsame]
    exact ih (fun next hnext => h next (List.mem_cons_of_mem _ hnext))
      fun next hnext => hholds next (List.mem_cons_of_mem _ hnext)

end ModernC.Framework
