import Mathlib.Data.Nat.ModEq
import ModernC.Framework.CheckedWords

/-!
# Bounded queues

A ring keeps the elements of a queue in a segment of its slots that may go past the last slot and
on at the first one. The main result is `RingRun.refines_boundedQueue`, about every run from an
empty ring.
-/

namespace ModernC.Collections

open Framework

/-- `Ring<T, N>`, with the slot of the next push and the slot of the oldest element. -/
structure Ring (T : Type) (N : ℕ) where
  slots : Vector T N
  head : ℕ
  tail : ℕ
  count : ℕ

variable {T : Type} {N : ℕ}

def ringInit (r : Ring T N) : Ring T N := { r with head := 0, tail := 0, count := 0 }

def ringLen (r : Ring T N) : ℕ := r.count

def ringIsEmpty (r : Ring T N) : Bool := r.count == 0

def ringIsFull (r : Ring T N) : Bool := r.count == N

def ringPush (r : Ring T N) (x : T) : Option (Ring T N × Bool) :=
  if r.count = N then some (r, false)
  else do
    let slots ← storeSlot r.slots r.head x
    let next ← checkedAdd 64 r.head 1
    let head ← checkedMod next N
    let count ← checkedAdd 64 r.count 1
    return ({ r with slots := slots, head := head, count := count }, true)

def ringFront (r : Ring T N) : Option T := if r.count = 0 then none else r.slots[r.tail]?

def ringPop (r : Ring T N) : Option (Ring T N × T) :=
  if r.count = 0 then none
  else do
    let x ← r.slots[r.tail]?
    let next ← checkedAdd 64 r.tail 1
    let tail ← checkedMod next N
    let count ← checkedSub r.count 1
    return ({ r with tail := tail, count := count }, x)

/-! ## Runs -/

inductive RingOp (T : Type) where
  | init
  | push (x : T)
  | front
  | pop

inductive RingAnswer (T : Type) where
  | done
  | flag (accepted : Bool)
  | elem (x : T)

/-- The ring behind a call and what the call answers, unless it traps. -/
def RingOp.run (r : Ring T N) : RingOp T → Option (Ring T N × RingAnswer T)
  | .init => some (ringInit r, .done)
  | .push x => (ringPush r x).map fun (r', accepted) => (r', .flag accepted)
  | .front => (ringFront r).map fun x => (r, .elem x)
  | .pop => (ringPop r).map fun (r', x) => (r', .elem x)

/-- A run of calls, the last one first.  At first the ring is one of zeros or what `ring_init` makes
of any memory, so that nothing is known about its slots. -/
inductive RingRun : List (RingOp T × RingAnswer T) → Ring T N → Prop
  | start (slots : Vector T N) : RingRun [] ⟨slots, 0, 0, 0⟩
  | step {history r r' answer} (op : RingOp T) (h : RingRun history r)
      (hop : op.run r = some (r', answer)) : RingRun ((op, answer) :: history) r'

/-! ## Queues -/

/-- A queue of at most `N` elements, the oldest one first. -/
structure BoundedQueue (T : Type) (N : ℕ) where
  elems : List T
  length_le : elems.length ≤ N

namespace BoundedQueue

def empty : BoundedQueue T N := ⟨[], Nat.zero_le N⟩

/-- A full queue refuses an element. -/
def enqueue (q : BoundedQueue T N) (x : T) : BoundedQueue T N × Bool :=
  if h : q.elems.length < N then (⟨q.elems ++ [x], by simpa using Nat.succ_le_of_lt h⟩, true) else (q, false)

/-- The queue without its oldest element. -/
def dequeue (q : BoundedQueue T N) : BoundedQueue T N :=
  ⟨q.elems.tail, by
    rw [List.length_tail]
    exact (Nat.sub_le _ 1).trans q.length_le⟩

end BoundedQueue

/-- What a call does to a queue.  It has no result where it takes an element of an empty queue. -/
def RingOp.spec (q : BoundedQueue T N) : RingOp T → Option (BoundedQueue T N × RingAnswer T)
  | .init => some (.empty, .done)
  | .push x => some ((q.enqueue x).1, .flag (q.enqueue x).2)
  | .front => q.elems.head?.map fun x => (q, .elem x)
  | .pop => q.elems.head?.map fun x => (q.dequeue, .elem x)

/-- The same calls on a queue that is empty at first. -/
inductive QueueRun : List (RingOp T × RingAnswer T) → BoundedQueue T N → Prop
  | empty : QueueRun [] .empty
  | step {history q q' answer} (op : RingOp T) (h : QueueRun history q)
      (hop : op.spec q = some (q', answer)) : QueueRun ((op, answer) :: history) q'

/-! ## Segments -/

/-- Within one turn different offsets lead to different slots. -/
lemma cyclic_injective {start i j : ℕ} (hi : i < N) (hj : j < N)
    (h : (start + i) % N = (start + j) % N) : i = j :=
  (Nat.ModEq.add_left_cancel' start h).eq_of_lt_of_lt hi hj

/-- The elements of the queue are in the segment of the slots from the tail on, and the head is the
slot behind it. -/
structure Ring.Holds (r : Ring T N) (q : BoundedQueue T N) : Prop where
  count_eq : r.count = q.elems.length
  tail_lt : 0 < N → r.tail < N
  head_eq : r.head = (r.tail + r.count) % N
  contents : ∀ (i : ℕ) (hi : i < q.elems.length),
    r.slots[(r.tail + i) % N]? = some q.elems[i]

variable {r r' : Ring T N} {q q' : BoundedQueue T N} {x : T}

lemma holds_start (slots : Vector T N) :
    (⟨slots, 0, 0, 0⟩ : Ring T N).Holds .empty :=
  ⟨rfl, id, (Nat.zero_mod N).symm, nofun⟩

namespace Ring.Holds

lemma head_lt (h : r.Holds q) (hroom : r.count ≠ N) : r.head < N := by
  have hcount := h.count_eq
  have hle := q.length_le
  rw [h.head_eq]
  exact Nat.mod_lt _ (by omega)

lemma tail_lt_of_count (h : r.Holds q) (hsome : r.count ≠ 0) : r.tail < N := by
  have hcount := h.count_eq
  have hle := q.length_le
  exact h.tail_lt (by omega)

/-- **A push** into a ring with room puts the element behind the segment. -/
lemma push (h : r.Holds q) (hN : N < 2 ^ 64) (hroom : r.count ≠ N) (x : T) :
    ∃ r', ringPush r x = some (r', true) ∧ r'.Holds (q.enqueue x).1 := by
  have hcount := h.count_eq
  have hle := q.length_le
  have hhead := h.head_lt hroom
  have hlt : q.elems.length < N := by omega
  have hrun : ringPush r x = some (⟨r.slots.set r.head x, (r.head + 1) % N, r.tail, r.count + 1⟩,
      true) := by
    rw [ringPush, if_neg hroom, storeSlot, dif_pos hhead, checkedAdd_eq_some.mpr ⟨by omega, rfl⟩,
      checkedAdd_eq_some.mpr ⟨by omega, rfl⟩]
    simp [checkedMod_eq_some.mpr ⟨(by omega : N ≠ 0), rfl⟩]
  refine ⟨_, hrun, ?_⟩
  rw [BoundedQueue.enqueue, dif_pos hlt]
  refine ⟨?_, h.tail_lt, ?_, fun i hi => ?_⟩
  · simp [hcount]
  · show (r.head + 1) % N = (r.tail + (r.count + 1)) % N
    rw [h.head_eq, Nat.mod_add_mod, Nat.add_assoc]
  · show (r.slots.set r.head x)[(r.tail + i) % N]? = some (q.elems ++ [x])[i]
    rw [List.length_append, List.length_singleton] at hi
    by_cases hlast : i = q.elems.length
    · subst hlast
      have hslot : (r.tail + q.elems.length) % N = r.head := by rw [h.head_eq, hcount]
      rw [hslot, Vector.getElem?_set_self hhead, List.getElem_concat_length rfl]
    · have hold : i < q.elems.length := by omega
      have hne : r.head ≠ (r.tail + i) % N := by
        intro heq
        rw [h.head_eq] at heq
        have hsame := cyclic_injective (by omega) (by omega) heq
        omega
      rw [Vector.getElem?_set_ne hhead hne, h.contents i hold, List.getElem_append_left hold]

/-- The slot at the tail has the oldest element. -/
lemma oldest (h : r.Holds q) (hsome : r.count ≠ 0) :
    r.slots[r.tail]? = q.elems.head? := by
  have hpos : 0 < q.elems.length := Nat.pos_of_ne_zero (h.count_eq ▸ hsome)
  have hfirst := h.contents 0 hpos
  rw [Nat.add_zero, Nat.mod_eq_of_lt (h.tail_lt_of_count hsome)] at hfirst
  rw [hfirst, List.head?_eq_getElem?, List.getElem?_eq_getElem hpos]

lemma elems_eq_nil (h : r.Holds q) (hnone : r.count = 0) : q.elems = [] :=
  List.length_eq_zero_iff.mp (h.count_eq ▸ hnone)

lemma front_eq (h : r.Holds q) : ringFront r = q.elems.head? := by
  rw [ringFront]
  by_cases hnone : r.count = 0
  · rw [if_pos hnone, h.elems_eq_nil hnone]
    rfl
  · rw [if_neg hnone, h.oldest hnone]

/-- **A pop** moves the tail behind the oldest element. -/
lemma pop (h : r.Holds q) (hN : N < 2 ^ 64) (hsome : r.count ≠ 0) :
    ∃ r' x, ringPop r = some (r', x) ∧ q.elems.head? = some x ∧ r'.Holds q.dequeue := by
  have hcount := h.count_eq
  have hle := q.length_le
  have htail := h.tail_lt_of_count hsome
  obtain ⟨x, hx⟩ : ∃ x, q.elems.head? = some x :=
    ⟨_, List.head?_eq_some_head (List.ne_nil_of_length_pos (by omega))⟩
  have hrun : ringPop r = some (⟨r.slots, r.head, (r.tail + 1) % N, r.count - 1⟩, x) := by
    rw [ringPop, if_neg hsome, h.oldest hsome, hx, checkedAdd_eq_some.mpr ⟨by omega, rfl⟩,
      checkedSub_eq_some.mpr ⟨by omega, rfl⟩]
    simp [checkedMod_eq_some.mpr ⟨(by omega : N ≠ 0), rfl⟩]
  refine ⟨_, x, hrun, hx, ?_, fun hpos => Nat.mod_lt _ hpos, ?_, fun i hi => ?_⟩
  · simp [BoundedQueue.dequeue, hcount]
  · show r.head = ((r.tail + 1) % N + (r.count - 1)) % N
    rw [h.head_eq, Nat.mod_add_mod]
    congr 1
    omega
  · have hi' : i < q.elems.tail.length := hi
    rw [List.length_tail] at hi'
    have helem : q.dequeue.elems[i] = q.elems[i + 1] := List.getElem_tail hi
    show r.slots[((r.tail + 1) % N + i) % N]? = _
    rw [helem, ← h.contents (i + 1) (by omega), Nat.mod_add_mod, Nat.add_assoc, Nat.add_comm 1 i]

/-- **A call on a ring does what it does to the queue**, and traps where that has no result. -/
lemma call (h : r.Holds q) (hN : N < 2 ^ 64) (op : RingOp T) :
    (op.run r = none ∧ op.spec q = none) ∨ ∃ r' q' answer,
      op.run r = some (r', answer) ∧ op.spec q = some (q', answer) ∧ r'.Holds q' := by
  cases op with
  | init => exact .inr ⟨_, _, _, rfl, rfl, holds_start r.slots⟩
  | push x =>
    refine .inr ?_
    by_cases hfull : r.count = N
    · have hrefused : q.enqueue x = (q, false) := by
        apply dif_neg
        rw [← h.count_eq, hfull]
        exact Nat.lt_irrefl N
      refine ⟨r, q, .flag false, ?_, ?_, h⟩
      · rw [RingOp.run, ringPush, if_pos hfull]
        rfl
      · rw [RingOp.spec, hrefused]
    · obtain ⟨r', hrun, hnext⟩ := h.push hN hfull x
      refine ⟨r', (q.enqueue x).1, .flag true, ?_, ?_, hnext⟩
      · rw [RingOp.run, hrun]
        rfl
      · have hle := q.length_le
        have hlt : q.elems.length < N := by
          rw [h.count_eq] at hfull
          omega
        rw [RingOp.spec, BoundedQueue.enqueue, dif_pos hlt]
  | front =>
    rw [RingOp.run, RingOp.spec, h.front_eq]
    cases q.elems.head? with
    | none => exact .inl ⟨rfl, rfl⟩
    | some x => exact .inr ⟨r, q, .elem x, rfl, rfl, h⟩
  | pop =>
    rw [RingOp.run, RingOp.spec]
    by_cases hnone : r.count = 0
    · rw [ringPop, if_pos hnone, h.elems_eq_nil hnone]
      exact .inl ⟨rfl, rfl⟩
    · obtain ⟨r', x, hrun, hx, hnext⟩ := h.pop hN hnone
      rw [hrun, hx]
      exact .inr ⟨r', q.dequeue, .elem x, rfl, rfl, hnext⟩

end Ring.Holds

/-- Along a run the segment has the elements of the queue that the calls make. -/
lemma RingRun.holds {history : List (RingOp T × RingAnswer T)} (hN : N < 2 ^ 64)
    (h : RingRun history r) : ∃ q : BoundedQueue T N, QueueRun history q ∧ r.Holds q := by
  induction h with
  | start slots => exact ⟨.empty, .empty, holds_start slots⟩
  | step op hrun hop ih =>
    obtain ⟨q, hqueue, hholds⟩ := ih
    rcases hholds.call hN op with ⟨hnone, -⟩ | ⟨r', q', answer, hcall, hspec, hnext⟩
    · rw [hnone] at hop
      exact nomatch hop
    · rw [hcall] at hop
      obtain ⟨rfl, rfl⟩ := Prod.mk.inj (Option.some.inj hop)
      exact ⟨q', .step op hqueue hspec, hnext⟩

/-- **A ring is a bounded queue**: in every run it answers as the queue does, and has its elements.
A push is taken exactly where fewer than `N` elements are stored and changes nothing otherwise, a
front or a pop gives the oldest element and traps only where there is none, and a slot that the next
call reads or writes is one of the `N`. -/
theorem RingRun.refines_boundedQueue {history : List (RingOp T × RingAnswer T)} (hN : N < 2 ^ 64)
    (h : RingRun history r) : ∃ q : BoundedQueue T N, QueueRun history q ∧
      ringLen r = q.elems.length ∧ ringIsEmpty r = q.elems.isEmpty ∧
      (ringIsFull r ↔ q.elems.length = N) ∧
      (∀ x, (∃ r', ringPush r x = some (r', true)) ↔ q.elems.length < N) ∧
      (∀ x, q.elems.length = N → ringPush r x = some (r, false)) ∧
      ringFront r = q.elems.head? ∧ (ringPop r).map Prod.snd = q.elems.head? ∧
      (r.count ≠ N → r.head < N) ∧ (r.count ≠ 0 → r.tail < N) := by
  obtain ⟨q, hqueue, hholds⟩ := h.holds hN
  have hcount := hholds.count_eq
  have hle := q.length_le
  have hrefused : ∀ x, q.elems.length = N → ringPush r x = some (r, false) := fun x hfull =>
    if_pos (hcount.trans hfull)
  refine ⟨q, hqueue, hcount, ?_, ?_, fun x => ⟨?_, fun hlt => ?_⟩, hrefused, hholds.front_eq, ?_,
    hholds.head_lt, hholds.tail_lt_of_count⟩
  · rw [ringIsEmpty, hcount]
    cases q.elems <;> rfl
  · rw [ringIsFull, hcount, beq_iff_eq]
  · rintro ⟨r', hrun⟩
    by_contra hnot
    rw [hrefused x (by omega)] at hrun
    exact nomatch hrun
  · obtain ⟨r', hrun, -⟩ := hholds.push hN (by omega) x
    exact ⟨r', hrun⟩
  · by_cases hnone : r.count = 0
    · rw [ringPop, if_pos hnone, hholds.elems_eq_nil hnone]
      rfl
    · obtain ⟨r', x, hrun, hx, -⟩ := hholds.pop hN hnone
      rw [hrun, hx]
      rfl

/-- Three slots, where the fourth push comes behind a pop and goes to the first slot. -/
theorem refines_boundedQueue_wrapped : ∃ (history : List (RingOp ℕ × RingAnswer ℕ)) (r : Ring ℕ 3)
    (q : BoundedQueue ℕ 3), RingRun history r ∧ QueueRun history q ∧ ringLen r = 3 ∧
      r.slots = #v[4, 2, 3] ∧ ringFront r = q.elems.head? ∧ ringFront r = some 2 := by
  have hrun : RingRun _ (⟨#v[4, 2, 3], 1, 1, 3⟩ : Ring ℕ 3) :=
    .step (.push 4) (.step .pop (.step (.push 3) (.step (.push 2) (.step (.push 1)
      (.start #v[0, 0, 0]) rfl) rfl) rfl) rfl) rfl
  obtain ⟨q, hqueue, -, -, -, -, -, hfront, -⟩ := hrun.refines_boundedQueue (by decide)
  exact ⟨_, _, q, hrun, hqueue, rfl, rfl, hfront, rfl⟩

end ModernC.Collections
