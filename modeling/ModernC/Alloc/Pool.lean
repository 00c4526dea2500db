import Mathlib.Data.Set.Card
import ModernC.Framework.CheckedWords

/-!
# The object pool

A pool of `N` slots gives out handles, each with the generation that its slot has.  To free a slot
counts its generation up.
-/

namespace ModernC.Alloc

open Framework

structure Pool (T : Type) (N : ℕ) where
  slots : Fin N → T
  gen : Fin N → ℕ
  used : Fin N → Bool
  initialized : Fin N → Bool
  count : ℕ

structure PoolRef where
  index : ℕ
  gen : ℕ
deriving DecidableEq

inductive PoolError where
  | full
  | staleHandle
  | uninitialized
deriving DecidableEq

variable {T : Type} {N : ℕ}

/-- The slots keep what was in them before. -/
def poolInit (p : Pool T N) : Pool T N :=
  { slots := p.slots, gen := fun _ => 0, used := fun _ => false, initialized := fun _ => false,
    count := 0 }

/-- The first slot that is free. -/
def freeSlot (p : Pool T N) : Option (Fin N) := (List.finRange N).find? fun i => !p.used i

def poolAlloc (p : Pool T N) : Option (Except PoolError PoolRef × Pool T N) :=
  match freeSlot p with
  | none => some (.error .full, p)
  | some i => do
    let count ← checkedAdd 64 p.count 1
    return (.ok ⟨i, p.gen i⟩,
      { p with
        used := Function.update p.used i true
        initialized := Function.update p.initialized i false
        count := count })

/-- The slot behind a live handle. -/
def liveSlot (p : Pool T N) (r : PoolRef) : Option (Fin N) :=
  if h : r.index < N then
    if p.used ⟨r.index, h⟩ = true ∧ p.gen ⟨r.index, h⟩ = r.gen then some ⟨r.index, h⟩ else none
  else none

def poolFree (p : Pool T N) (r : PoolRef) : Option (Except PoolError Bool × Pool T N) :=
  match liveSlot p r with
  | none => some (.error .staleHandle, p)
  | some i => do
    let gen ← checkedAdd 32 (p.gen i) 1
    let count ← checkedSub p.count 1
    return (.ok true,
      { p with
        used := Function.update p.used i false
        initialized := Function.update p.initialized i false
        gen := Function.update p.gen i gen
        count := count })

def poolSet (p : Pool T N) (r : PoolRef) (value : T) : Except PoolError Bool × Pool T N :=
  match liveSlot p r with
  | none => (.error .staleHandle, p)
  | some i =>
    (.ok true,
      { p with
        slots := Function.update p.slots i value
        initialized := Function.update p.initialized i true })

def poolLoad (p : Pool T N) (r : PoolRef) : Except PoolError T :=
  match liveSlot p r with
  | none => .error .staleHandle
  | some i => if p.initialized i then .ok (p.slots i) else .error .uninitialized

/-! ## Runs -/

/-- An operation with its answer. -/
inductive PoolEvent (T : Type) where
  | alloc (answer : Except PoolError PoolRef)
  | set (r : PoolRef) (value : T) (answer : Except PoolError Bool)
  | load (r : PoolRef) (answer : Except PoolError T)
  | free (r : PoolRef) (answer : Except PoolError Bool)

/-- The handle was given out. -/
def Issued (r : PoolRef) (history : List (PoolEvent T)) : Prop := .alloc (.ok r) ∈ history

def Freed (r : PoolRef) (history : List (PoolEvent T)) : Prop := .free r (.ok true) ∈ history

/-- A run of operations that do not trap on a pool, with its events, the last one first.  Its
handles are copies of handles that were given out. -/
inductive PoolRun (p0 : Pool T N) : List (PoolEvent T) → Pool T N → Prop
  | init : PoolRun p0 [] (poolInit p0)
  | alloc {history p answer p'} (h : PoolRun p0 history p) (hop : poolAlloc p = some (answer, p')) :
      PoolRun p0 (.alloc answer :: history) p'
  | set {history p answer p'} {r : PoolRef} {value : T} (h : PoolRun p0 history p)
      (hr : Issued r history) (hop : poolSet p r value = (answer, p')) :
      PoolRun p0 (.set r value answer :: history) p'
  | load {history p} {r : PoolRef} (h : PoolRun p0 history p) (hr : Issued r history) :
      PoolRun p0 (.load r (poolLoad p r) :: history) p
  | free {history p answer p'} {r : PoolRef} (h : PoolRun p0 history p) (hr : Issued r history)
      (hop : poolFree p r = some (answer, p')) : PoolRun p0 (.free r answer :: history) p'

end ModernC.Alloc

/-!
## Generations keep handles apart

Over a whole run a handle is accepted exactly until its object is freed, however often the slot is
used again, and a load returns what was set last.
-/

namespace ModernC.Alloc

open Framework

variable {T : Type} {N : ℕ} {p p' p0 : Pool T N} {r : PoolRef} {history : List (PoolEvent T)}

/-! ## What a step does -/

variable {i : Fin N} {event : PoolEvent T}

lemma liveSlot_eq_some :
    liveSlot p r = some i ↔ r = ⟨i, p.gen i⟩ ∧ p.used i = true := by
  obtain ⟨index, gen⟩ := r
  rw [liveSlot]
  constructor
  · intro h
    split at h
    · next hindex =>
      split at h
      · next hlive =>
        obtain rfl := Option.some.inj h
        exact ⟨by rw [hlive.2], hlive.1⟩
      · exact absurd h nofun
    · exact absurd h nofun
  · rintro ⟨hr, hused⟩
    obtain ⟨rfl, rfl⟩ := PoolRef.mk.inj hr
    rw [dif_pos i.isLt, if_pos ⟨hused, rfl⟩]

lemma freeSlot_eq_some (h : freeSlot p = some i) : p.used i = false := by
  simpa using List.find?_some h

lemma freeSlot_eq_none (h : freeSlot p = none) (i : Fin N) : p.used i = true := by
  simpa using List.find?_eq_none.mp h i (List.mem_finRange i)

/-- The pool with a slot given out. -/
def Pool.take (p : Pool T N) (i : Fin N) : Pool T N :=
  { p with
    used := Function.update p.used i true
    initialized := Function.update p.initialized i false
    count := p.count + 1 }

@[simp] lemma Pool.take_gen (p : Pool T N) (i : Fin N) : (p.take i).gen = p.gen := rfl

/-- The pool with a slot given back. -/
def Pool.release (p : Pool T N) (i : Fin N) : Pool T N :=
  { p with
    used := Function.update p.used i false
    initialized := Function.update p.initialized i false
    gen := Function.update p.gen i (p.gen i + 1)
    count := p.count - 1 }

/-- The pool with a value written. -/
def Pool.write (p : Pool T N) (i : Fin N) (value : T) : Pool T N :=
  { p with
    slots := Function.update p.slots i value
    initialized := Function.update p.initialized i true }

lemma poolAlloc_cases {answer : Except PoolError PoolRef} (h : poolAlloc p = some (answer, p')) :
    (answer = .error .full ∧ p' = p ∧ ∀ i, p.used i = true) ∨
      ∃ i, p.used i = false ∧ answer = .ok ⟨i, p.gen i⟩ ∧ p' = p.take i := by
  rw [poolAlloc] at h
  split at h
  · next hfree =>
    obtain ⟨rfl, rfl⟩ := Prod.mk.inj (Option.some.inj h)
    exact .inl ⟨rfl, rfl, freeSlot_eq_none hfree⟩
  · next i hfree =>
    obtain ⟨count, hcount, hanswer⟩ := Option.bind_eq_some_iff.mp h
    obtain ⟨-, rfl⟩ := checkedAdd_eq_some.mp hcount
    obtain ⟨rfl, rfl⟩ := Prod.mk.inj (Option.some.inj hanswer)
    exact .inr ⟨i, freeSlot_eq_some hfree, rfl, rfl⟩

lemma poolSet_cases {value : T} {answer : Except PoolError Bool}
    (h : poolSet p r value = (answer, p')) :
    (answer = .error .staleHandle ∧ p' = p ∧ liveSlot p r = none) ∨
      ∃ i : Fin N, r = ⟨i, p.gen i⟩ ∧ p.used i = true ∧ answer = .ok true ∧
        p' = p.write i value := by
  rw [poolSet] at h
  split at h
  · next hstale =>
    obtain ⟨rfl, rfl⟩ := Prod.mk.inj h
    exact .inl ⟨rfl, rfl, hstale⟩
  · next i hlive =>
    obtain ⟨rfl, rfl⟩ := Prod.mk.inj h
    obtain ⟨hr, hused⟩ := liveSlot_eq_some.mp hlive
    exact .inr ⟨i, hr, hused, rfl, rfl⟩

lemma poolFree_cases {answer : Except PoolError Bool} (h : poolFree p r = some (answer, p')) :
    (answer = .error .staleHandle ∧ p' = p ∧ liveSlot p r = none) ∨
      ∃ i : Fin N, r = ⟨i, p.gen i⟩ ∧ p.used i = true ∧ answer = .ok true ∧ p' = p.release i := by
  rw [poolFree] at h
  split at h
  · next hstale =>
    obtain ⟨rfl, rfl⟩ := Prod.mk.inj (Option.some.inj h)
    exact .inl ⟨rfl, rfl, hstale⟩
  · next i hlive =>
    obtain ⟨gen, hgen, hrest⟩ := Option.bind_eq_some_iff.mp h
    obtain ⟨count, hcount, hanswer⟩ := Option.bind_eq_some_iff.mp hrest
    obtain ⟨-, rfl⟩ := checkedAdd_eq_some.mp hgen
    obtain ⟨-, rfl⟩ := checkedSub_eq_some.mp hcount
    obtain ⟨rfl, rfl⟩ := Prod.mk.inj (Option.some.inj hanswer)
    obtain ⟨hr, hused⟩ := liveSlot_eq_some.mp hlive
    exact .inr ⟨i, hr, hused, rfl, rfl⟩

/-! ## The invariant -/

/-- The value that was set last through a handle. -/
def lastSet (r : PoolRef) : List (PoolEvent T) → Option T
  | [] => none
  | .set r' value (.ok _) :: history => if r' = r then some value else lastSet r history
  | _ :: history => lastSet r history

/-- The slots in use. -/
def Pool.usedSlots (p : Pool T N) : Finset (Fin N) := Finset.univ.filter fun i => p.used i = true

lemma Pool.mem_usedSlots : i ∈ p.usedSlots ↔ p.used i = true := by
  simp [Pool.usedSlots]

/-- What a pool knows of its history. -/
structure Tracks (history : List (PoolEvent T)) (p : Pool T N) : Prop where
  index_lt : ∀ r, Issued r history → r.index < N
  gen_le : ∀ (i : Fin N) gen, Issued ⟨i, gen⟩ history → gen ≤ p.gen i
  used_iff : ∀ i : Fin N, p.used i = true ↔ Issued ⟨i, p.gen i⟩ history
  issued_of_freed : ∀ r, Freed r history → Issued r history
  freed_iff : ∀ (i : Fin N) gen, Issued ⟨i, gen⟩ history →
    (Freed ⟨i, gen⟩ history ↔ gen < p.gen i)
  content : ∀ i : Fin N, p.used i = true →
    lastSet ⟨i, p.gen i⟩ history = if p.initialized i then some (p.slots i) else none
  unset : ∀ r, ¬Issued r history → lastSet r history = none
  count_eq : p.count = p.usedSlots.card

lemma issued_cons :
    Issued r (event :: history) ↔ .alloc (.ok r) = event ∨ Issued r history := List.mem_cons

lemma freed_cons :
    Freed r (event :: history) ↔ .free r (.ok true) = event ∨ Freed r history := List.mem_cons

/-- An event that changes nothing. -/
lemma Tracks.cons (h : Tracks history p)
    (hissued : ∀ r, .alloc (.ok r) ≠ event) (hfreed : ∀ r, .free r (.ok true) ≠ event)
    (hset : ∀ r, lastSet r (event :: history) = lastSet r history) :
    Tracks (event :: history) p := by
  have hi : ∀ r, Issued r (event :: history) ↔ Issued r history := fun r =>
    issued_cons.trans (or_iff_right (hissued r))
  have hf : ∀ r, Freed r (event :: history) ↔ Freed r history := fun r =>
    freed_cons.trans (or_iff_right (hfreed r))
  constructor
  · exact fun r hr => h.index_lt r ((hi r).mp hr)
  · exact fun i gen hr => h.gen_le i gen ((hi _).mp hr)
  · exact fun i => (h.used_iff i).trans (hi _).symm
  · exact fun r hr => (hi r).mpr (h.issued_of_freed r ((hf r).mp hr))
  · exact fun i gen hr => (hf _).trans (h.freed_iff i gen ((hi _).mp hr))
  · exact fun i hused => (hset _).trans (h.content i hused)
  · exact fun r hr => (hset r).trans (h.unset r fun hold => hr ((hi r).mpr hold))
  · exact h.count_eq

lemma tracks_init (p : Pool T N) : Tracks [] (poolInit p) := by
  constructor
  · exact fun r => nofun
  · exact fun i gen => nofun
  · exact fun i => iff_of_false nofun nofun
  · exact fun r => nofun
  · exact fun i gen => nofun
  · exact fun i => nofun
  · exact fun r _ => rfl
  · simp [poolInit, Pool.usedSlots]

/-- The handle of a free slot was never given out. -/
lemma Tracks.not_issued (h : Tracks history p) (hused : p.used i = false) :
    ¬Issued ⟨i, p.gen i⟩ history := by
  rw [← h.used_iff, hused]
  decide

lemma Tracks.take (h : Tracks history p) (hused : p.used i = false) :
    Tracks (.alloc (.ok ⟨i, p.gen i⟩) :: history) (p.take i) := by
  have hnew := h.not_issued hused
  have hi : ∀ r, Issued r (.alloc (.ok ⟨i, p.gen i⟩) :: history) ↔
      r = ⟨i, p.gen i⟩ ∨ Issued r history := fun r => issued_cons.trans (by simp)
  have hf : ∀ r, Freed r (.alloc (.ok ⟨i, p.gen i⟩) :: history) ↔ Freed r history :=
    fun r => freed_cons.trans (by simp)
  -- the slot was free, so its generation is one that no reference has
  constructor
  · rintro r hr
    rcases (hi r).mp hr with rfl | hr
    · exact i.isLt
    · exact h.index_lt r hr
  · rintro j gen hr
    rcases (hi _).mp hr with heq | hr
    · obtain ⟨hindex, rfl⟩ := PoolRef.mk.inj heq
      obtain rfl := Fin.ext hindex
      exact le_refl _
    · exact h.gen_le j gen hr
  · intro j
    by_cases hj : j = i
    · subst hj
      exact iff_of_true (Function.update_self ..) ((hi _).mpr (.inl rfl))
    · have hne : (⟨j, p.gen j⟩ : PoolRef) ≠ ⟨i, p.gen i⟩ := fun heq =>
        hj (Fin.ext (PoolRef.mk.inj heq).1)
      rw [Pool.take_gen, hi, or_iff_right hne, ← h.used_iff]
      simp [Pool.take, Function.update_of_ne hj]
  · exact fun r hr => (hi r).mpr (.inr (h.issued_of_freed r ((hf r).mp hr)))
  · intro j gen hr
    rw [hf]
    rcases (hi _).mp hr with heq | hr
    · rw [heq]
      obtain ⟨hindex, rfl⟩ := PoolRef.mk.inj heq
      obtain rfl := Fin.ext hindex
      exact iff_of_false (fun hfreed => hnew (h.issued_of_freed _ hfreed)) (lt_irrefl _)
    · exact h.freed_iff j gen hr
  · intro j hj
    by_cases heq : j = i
    · subst heq
      simpa [Pool.take, lastSet] using h.unset _ hnew
    · simpa [Pool.take, lastSet, heq] using h.content j (by simpa [Pool.take, heq] using hj)
  · exact fun r hr => h.unset r fun hold => hr ((hi r).mpr (.inr hold))
  · have hinsert : (p.take i).usedSlots = insert i p.usedSlots := by
      ext j
      rw [Finset.mem_insert, Pool.mem_usedSlots, Pool.mem_usedSlots, Pool.take]
      by_cases hj : j = i
      · simp [hj]
      · simp [hj]
    have hnot : i ∉ p.usedSlots := by simp [Pool.mem_usedSlots, hused]
    rw [hinsert, Finset.card_insert_of_notMem hnot, ← h.count_eq]
    rfl

lemma Tracks.write (h : Tracks history p) (hused : p.used i = true) (value : T) :
    Tracks (.set ⟨i, p.gen i⟩ value (.ok true) :: history) (p.write i value) := by
  have hi : ∀ r, Issued r (.set ⟨i, p.gen i⟩ value (.ok true) :: history) ↔ Issued r history :=
    fun r => issued_cons.trans (by simp)
  have hf : ∀ r, Freed r (.set ⟨i, p.gen i⟩ value (.ok true) :: history) ↔ Freed r history :=
    fun r => freed_cons.trans (by simp)
  constructor
  · exact fun r hr => h.index_lt r ((hi r).mp hr)
  · exact fun j gen hr => h.gen_le j gen ((hi _).mp hr)
  · exact fun j => (h.used_iff j).trans (hi _).symm
  · exact fun r hr => (hi r).mpr (h.issued_of_freed r ((hf r).mp hr))
  · exact fun j gen hr => (hf _).trans (h.freed_iff j gen ((hi _).mp hr))
  · intro j hj
    rw [lastSet]
    by_cases heq : j = i
    · subst heq
      simp [Pool.write]
    · have hne : (⟨i, p.gen i⟩ : PoolRef) ≠ ⟨j, p.gen j⟩ := fun href =>
        heq (Fin.ext (PoolRef.mk.inj href).1.symm)
      have hold := h.content j hj
      simpa [Pool.write, heq, hne] using hold
  · intro r hr
    have hnot : ¬Issued r history := fun hold => hr ((hi r).mpr hold)
    have hne : (⟨i, p.gen i⟩ : PoolRef) ≠ r := by
      rintro rfl
      exact hnot ((h.used_iff i).mp hused)
    rw [lastSet, if_neg hne]
    exact h.unset r hnot
  · exact h.count_eq

lemma Tracks.release (h : Tracks history p) (hused : p.used i = true) :
    Tracks (.free ⟨i, p.gen i⟩ (.ok true) :: history) (p.release i) := by
  have hlive := (h.used_iff i).mp hused
  have hi : ∀ r, Issued r (.free ⟨i, p.gen i⟩ (.ok true) :: history) ↔ Issued r history :=
    fun r => issued_cons.trans (by simp)
  have hf : ∀ r, Freed r (.free ⟨i, p.gen i⟩ (.ok true) :: history) ↔
      r = ⟨i, p.gen i⟩ ∨ Freed r history := fun r => freed_cons.trans (by simp)
  have hself : (p.release i).gen i = p.gen i + 1 := Function.update_self ..
  have hother : ∀ j, j ≠ i → (p.release i).gen j = p.gen j := fun j hj =>
    Function.update_of_ne hj ..
  constructor
  · exact fun r hr => h.index_lt r ((hi r).mp hr)
  · intro j gen hr
    have hle := h.gen_le j gen ((hi _).mp hr)
    by_cases hj : j = i
    · subst hj
      omega
    · rw [hother j hj]
      exact hle
  · intro j
    rw [hi]
    by_cases hj : j = i
    · subst hj
      refine iff_of_false (by simp [Pool.release]) fun hr => ?_
      have hle := h.gen_le j _ hr
      omega
    · rw [hother j hj, ← h.used_iff]
      simp [Pool.release, hj]
  · intro r hr
    rcases (hf r).mp hr with rfl | hr
    · exact (hi _).mpr hlive
    · exact (hi r).mpr (h.issued_of_freed r hr)
  · intro j gen hr
    have hold := (hi _).mp hr
    rw [hf, h.freed_iff j gen hold]
    by_cases hj : j = i
    · subst hj
      have hle := h.gen_le j gen hold
      rw [hself, PoolRef.mk.injEq]
      omega
    · have hne : (⟨j, gen⟩ : PoolRef) ≠ ⟨i, p.gen i⟩ := fun heq =>
        hj (Fin.ext (PoolRef.mk.inj heq).1)
      rw [hother j hj, or_iff_right hne]
  · intro j hj
    by_cases heq : j = i
    · subst heq
      simp [Pool.release] at hj
    · rw [hother j heq, lastSet]
      · simpa [Pool.release, heq] using h.content j (by simpa [Pool.release, heq] using hj)
      · simp
  · exact fun r hr => h.unset r fun hold => hr ((hi r).mpr hold)
  · have herase : (p.release i).usedSlots = p.usedSlots.erase i := by
      ext j
      rw [Finset.mem_erase, Pool.mem_usedSlots, Pool.mem_usedSlots, Pool.release]
      by_cases hj : j = i
      · simp [hj]
      · simp [hj]
    have hmem : i ∈ p.usedSlots := by simp [Pool.mem_usedSlots, hused]
    rw [herase, Finset.card_erase_of_mem hmem, ← h.count_eq]
    rfl

/-- **A run keeps track.** -/
theorem PoolRun.tracks (h : PoolRun p0 history p) : Tracks history p := by
  induction h with
  | init => exact tracks_init p0
  | alloc h hop ih =>
    rcases poolAlloc_cases hop with ⟨rfl, rfl, -⟩ | ⟨i, hused, rfl, rfl⟩
    · exact ih.cons (by simp) (by simp) fun r => rfl
    · exact ih.take hused
  | set h hr hop ih =>
    rcases poolSet_cases hop with ⟨rfl, rfl, -⟩ | ⟨i, rfl, hused, rfl, rfl⟩
    · exact ih.cons (by simp) (by simp) fun r => rfl
    · exact ih.write hused _
  | load h hr ih => exact ih.cons (by simp) (by simp) fun r => rfl
  | free h hr hop ih =>
    rcases poolFree_cases hop with ⟨rfl, rfl, -⟩ | ⟨i, rfl, hused, rfl, rfl⟩
    · exact ih.cons (by simp) (by simp) fun r => rfl
    · exact ih.release hused

/-! ## Safety -/

/-- A handle that was given out reaches its slot until it is freed. -/
lemma Tracks.liveSlot_eq_none (h : Tracks history p) (hr : Issued r history) :
    liveSlot p r = none ↔ Freed r history := by
  obtain ⟨index, gen⟩ := r
  obtain ⟨i, rfl⟩ : ∃ i : Fin N, index = i := ⟨⟨index, h.index_lt _ hr⟩, rfl⟩
  rw [h.freed_iff i gen hr]
  have hle := h.gen_le i gen hr
  rcases Nat.lt_or_ge gen (p.gen i) with hlt | hge
  · refine iff_of_true ?_ hlt
    rw [Option.eq_none_iff_forall_ne_some]
    intro j hj
    obtain ⟨heq, -⟩ := liveSlot_eq_some.mp hj
    obtain ⟨hindex, rfl⟩ := PoolRef.mk.inj heq
    obtain rfl := Fin.ext hindex
    exact absurd hlt (lt_irrefl _)
  · obtain rfl : gen = p.gen i := le_antisymm hle hge
    refine iff_of_false ?_ (lt_irrefl _)
    rw [liveSlot_eq_some.mpr ⟨rfl, (h.used_iff i).mpr hr⟩]
    exact Option.some_ne_none i

/-- The handles that are live. -/
def liveRefs (history : List (PoolEvent T)) : Set PoolRef :=
  {r | Issued r history ∧ ¬Freed r history}

lemma Tracks.ncard_liveRefs (h : Tracks history p) : (liveRefs history).ncard = p.count := by
  have hinj : Function.Injective fun i : Fin N => (⟨i, p.gen i⟩ : PoolRef) := fun i j heq =>
    Fin.ext (PoolRef.mk.inj heq).1
  have himage : liveRefs history =
      ((p.usedSlots.image fun i : Fin N => (⟨i, p.gen i⟩ : PoolRef) : Finset PoolRef) :
        Set PoolRef) := by
    ext r
    rw [Finset.coe_image]
    constructor
    · rintro ⟨hissued, hfreed⟩
      rw [← h.liveSlot_eq_none hissued] at hfreed
      obtain ⟨i, hi⟩ := Option.ne_none_iff_exists'.mp hfreed
      obtain ⟨rfl, hused⟩ := liveSlot_eq_some.mp hi
      exact ⟨i, by simp [Pool.mem_usedSlots, hused], rfl⟩
    · rintro ⟨i, hi, rfl⟩
      have hused : p.used i = true := by simpa [Pool.mem_usedSlots] using hi
      have hissued := (h.used_iff i).mp hused
      exact ⟨hissued, fun hfreed => lt_irrefl _ ((h.freed_iff i _ hissued).mp hfreed)⟩
  rw [himage, Set.ncard_coe_finset, Finset.card_image_of_injective _ hinj]
  exact h.count_eq.symm

/-- What the pool answers for a handle: an error once it is freed, and before what was set. -/
structure Answers (history : List (PoolEvent T)) (p : Pool T N) (r : PoolRef) : Prop where
  load : poolLoad p r = .error .staleHandle ↔ Freed r history
  set : ∀ value, (poolSet p r value).1 = .error .staleHandle ↔ Freed r history
  free : poolFree p r = some (.error .staleHandle, p) ↔ Freed r history
  value : ¬Freed r history →
    poolLoad p r = (lastSet r history).elim (.error .uninitialized) .ok

lemma Tracks.answers (h : Tracks history p) (hr : Issued r history) : Answers history p r := by
  have hlive := h.liveSlot_eq_none hr
  rcases hslot : liveSlot p r with _ | i
  · have hfreed := hlive.mp hslot
    refine ⟨iff_of_true ?_ hfreed, fun value => iff_of_true ?_ hfreed, iff_of_true ?_ hfreed,
      fun hnot => absurd hfreed hnot⟩
    · rw [poolLoad, hslot]
    · rw [poolSet, hslot]
    · rw [poolFree, hslot]
  · have hfreed : ¬Freed r history := by
      rw [← hlive, hslot]
      exact Option.some_ne_none i
    obtain ⟨rfl, hused⟩ := liveSlot_eq_some.mp hslot
    have hvalue : poolLoad p ⟨i, p.gen i⟩ =
        (lastSet ⟨i, p.gen i⟩ history).elim (.error .uninitialized) .ok := by
      rw [h.content i hused, poolLoad, hslot]
      dsimp only
      split <;> rfl
    refine ⟨iff_of_false ?_ hfreed, fun value => iff_of_false ?_ hfreed, iff_of_false ?_ hfreed,
      fun _ => hvalue⟩
    · rw [poolLoad, hslot]
      dsimp only
      split <;> simp
    · rw [poolSet, hslot]
      simp
    · intro hstale
      rcases poolFree_cases hstale with ⟨-, -, hnone⟩ | ⟨j, -, -, hok, -⟩
      · exact absurd (hslot.symm.trans hnone) (Option.some_ne_none i)
      · exact absurd hok (by simp)

/-- **In every run a handle is accepted until its object is freed and never again, no handle is
given out twice, and the count is the number of live handles.** -/
theorem PoolRun.pool_safe (h : PoolRun p0 history p) :
    (∀ r, Issued r history → Answers history p r) ∧
      (∀ r p', poolAlloc p = some (.ok r, p') → ¬Issued r history) ∧
        p.count = (liveRefs history).ncard := by
  refine ⟨fun r hr => h.tracks.answers hr, fun r p' halloc => ?_, h.tracks.ncard_liveRefs.symm⟩
  rcases poolAlloc_cases halloc with ⟨hfull, -⟩ | ⟨i, hused, hok, -⟩
  · exact absurd hfull (by simp)
  · rw [Except.ok.inj hok]
    exact h.tracks.not_issued hused

/-- Two slots: both are taken, the first is freed, taken again and set. -/
lemma poolRun_reused : ∃ p, PoolRun
    (⟨fun _ => false, fun _ => 0, fun _ => false, fun _ => false, 0⟩ : Pool Bool 2)
    [.set ⟨0, 1⟩ true (.ok true), .alloc (.ok ⟨0, 1⟩), .free ⟨0, 0⟩ (.ok true),
      .alloc (.ok ⟨1, 0⟩), .alloc (.ok ⟨0, 0⟩)] p := by
  have hfirst : Issued ⟨0, 0⟩ [.alloc (.ok ⟨1, 0⟩), (.alloc (.ok ⟨0, 0⟩) : PoolEvent Bool)] :=
    List.mem_cons_of_mem _ List.mem_cons_self
  exact ⟨_, .set (.alloc (.free (.alloc (.alloc .init rfl) rfl) hfirst rfl) rfl)
    List.mem_cons_self rfl⟩

/-- The handle that was freed is refused, and the one that has its slot now reads what was set. -/
theorem pool_safe_reused : ∃ p : Pool Bool 2, poolLoad p ⟨0, 0⟩ = .error .staleHandle ∧
    poolLoad p ⟨0, 1⟩ = .ok true := by
  obtain ⟨p, hrun⟩ := poolRun_reused
  obtain ⟨hanswers, -⟩ := hrun.pool_safe
  refine ⟨p, (hanswers ⟨0, 0⟩ (by simp [Issued])).load.mpr (by simp [Freed]), ?_⟩
  exact (hanswers ⟨0, 1⟩ (by simp [Issued])).value (by simp [Freed])

end ModernC.Alloc
