import Mathlib.Data.Fintype.Card
import ModernC.Framework.CheckedWords

/-!
# The ticket lock

Threads take tickets from one counter and wait for another to reach them.  A step is one atomic
operation of one thread.  The ticket counter wraps around; the counter that is served is advanced
by a checked addition, behind which a thread may trap.
-/

namespace ModernC.Sync

open Framework

/-- Where a thread stands in `spin_lock` and `spin_unlock`. -/
inductive GatePc where
  | outside
  | waiting (my : ℕ)
  | holding
  | releasing (cur : ℕ)
  | trapped
deriving DecidableEq

/-- A `Spinlock`, and where the threads stand. -/
structure Gate (Thread : Type) where
  nextTicket : ℕ
  nowServing : ℕ
  pc : Thread → GatePc

/-- The step of a thread. -/
inductive GateEvent (Thread : Type) where
  | draw (t : Thread)
  | wait (t : Thread)
  | acquire (t : Thread)
  | load (t : Thread)
  | release (t : Thread)
  | trap (t : Thread)

variable {Thread : Type} [DecidableEq Thread]

/-- Zero-initialized storage. -/
def Gate.zero : Gate Thread := ⟨0, 0, fun _ => .outside⟩

def Gate.moveTo (g : Gate Thread) (t : Thread) (pc : GatePc) : Gate Thread :=
  { g with pc := Function.update g.pc t pc }

/-- The atomic operations of `spin_lock` and `spin_unlock`. -/
inductive GateStep : Gate Thread → GateEvent Thread → Gate Thread → Prop
  | draw {g t} (h : g.pc t = .outside) :
      GateStep g (.draw t) { g.moveTo t (.waiting g.nextTicket) with
        nextTicket := (g.nextTicket + 1) % 2 ^ 32 }
  | wait {g t my} (h : g.pc t = .waiting my) (hne : g.nowServing ≠ my) : GateStep g (.wait t) g
  | acquire {g t my} (h : g.pc t = .waiting my) (heq : g.nowServing = my) :
      GateStep g (.acquire t) (g.moveTo t .holding)
  | load {g t} (h : g.pc t = .holding) :
      GateStep g (.load t) (g.moveTo t (.releasing g.nowServing))
  | release {g t cur next} (h : g.pc t = .releasing cur) (hadd : checkedAdd 32 cur 1 = some next) :
      GateStep g (.release t) { g.moveTo t .outside with nowServing := next }
  | trap {g t cur} (h : g.pc t = .releasing cur) (hadd : checkedAdd 32 cur 1 = none) :
      GateStep g (.trap t) (g.moveTo t .trapped)

variable [Fintype Thread]

/-- The threads with a ticket that is not released. -/
def Gate.outstanding (g : Gate Thread) : Finset Thread :=
  Finset.univ.filter fun t => g.pc t ≠ .outside

/-- A run in which fewer than 2³² tickets are outstanding, with its events, the last one first. -/
inductive GateRun : List (GateEvent Thread) → Gate Thread → Prop
  | zero : GateRun [] .zero
  | step {history g event g'} (h : GateRun history g) (hstep : GateStep g event g')
      (hfew : g'.outstanding.card < 2 ^ 32) : GateRun (event :: history) g'

/-! ## Histories -/

/-- The threads in the order of their tickets, the last one first. -/
def drawn : List (GateEvent Thread) → List Thread
  | [] => []
  | .draw t :: history => t :: drawn history
  | _ :: history => drawn history

/-- The threads in the order in which they got the lock, the last one first. -/
def acquired : List (GateEvent Thread) → List Thread
  | [] => []
  | .acquire t :: history => t :: acquired history
  | _ :: history => acquired history

/-- The threads in the order in which they released the lock, the last one first. -/
def released : List (GateEvent Thread) → List Thread
  | [] => []
  | .release t :: history => t :: released history
  | _ :: history => released history

/-- The thread has the lock: it is served and has not released it. -/
def Gate.Holds (g : Gate Thread) (t : Thread) : Prop :=
  g.pc t ≠ .outside ∧ ∀ my, g.pc t ≠ .waiting my

end ModernC.Sync

/-!
## Tickets are served in order

The threads with a ticket stand in a queue: one that has the lock at most, and behind it the ones
that wait, with tickets that follow one another.
-/

namespace ModernC.Sync

open Framework

variable {Thread : Type} {g g' : Gate Thread} {history : List (GateEvent Thread)}

/-- The threads wait with the tickets from `base` on, the first of them last in the list. -/
def WaitsFrom (pc : Thread → GatePc) (base : ℕ) : List Thread → Prop
  | [] => True
  | t :: waiting => pc t = .waiting ((base + waiting.length) % 2 ^ 32) ∧ WaitsFrom pc base waiting

variable {pc : Thread → GatePc} {base : ℕ} {waiting : List Thread} {t t' : Thread}

lemma waitsFrom_concat :
    WaitsFrom pc base (waiting ++ [t]) ↔
      WaitsFrom pc (base + 1) waiting ∧ pc t = .waiting (base % 2 ^ 32) := by
  induction waiting with
  | nil => simp [WaitsFrom]
  | cons next waiting ih =>
    have hlength : base + (waiting ++ [t]).length = base + 1 + waiting.length := by
      rw [List.length_append, List.length_singleton]
      omega
    rw [List.cons_append, WaitsFrom, WaitsFrom, ih, hlength, and_assoc]

lemma WaitsFrom.congr {pc' : Thread → GatePc}
    (h : WaitsFrom pc base waiting) (heq : ∀ t ∈ waiting, pc' t = pc t) :
    WaitsFrom pc' base waiting := by
  induction waiting with
  | nil => trivial
  | cons t waiting ih =>
    refine ⟨(heq t List.mem_cons_self).trans h.1, ih h.2 fun next hnext => ?_⟩
    exact heq next (List.mem_cons_of_mem t hnext)

/-- A thread of the queue waits with the ticket of its place. -/
lemma WaitsFrom.exists_ticket (h : WaitsFrom pc base waiting) (ht : t ∈ waiting) :
    ∃ front back, waiting = front ++ t :: back ∧
      pc t = .waiting ((base + back.length) % 2 ^ 32) := by
  induction waiting with
  | nil => exact absurd ht List.not_mem_nil
  | cons next waiting ih =>
    rcases List.mem_cons.mp ht with rfl | ht
    · exact ⟨[], waiting, rfl, h.1⟩
    · obtain ⟨front, back, rfl, hticket⟩ := ih h.2 ht
      exact ⟨next :: front, back, rfl, hticket⟩

/-- The queue of a gate: the threads that wait and the one that has the lock. -/
structure Queue (history : List (GateEvent Thread)) (g : Gate Thread)
    (waiting holder : List Thread) : Prop where
  drawn_eq : drawn history = waiting ++ acquired history
  acquired_eq : acquired history = holder ++ released history
  nowServing_eq : g.nowServing = (released history).length
  nowServing_lt : g.nowServing < 2 ^ 32
  nextTicket_eq : g.nextTicket = (g.nowServing + holder.length + waiting.length) % 2 ^ 32
  waits : WaitsFrom g.pc (g.nowServing + holder.length) waiting
  holds : ∀ t ∈ holder,
    g.pc t = .holding ∨ g.pc t = .releasing g.nowServing ∨
      (g.pc t = .trapped ∧ g.nowServing + 1 = 2 ^ 32)
  single : holder.length ≤ 1
  nodup : (waiting ++ holder).Nodup
  outside : ∀ t, t ∉ waiting ++ holder → g.pc t = .outside

lemma queue_zero : Queue [] (.zero : Gate Thread) [] [] where
  drawn_eq := rfl
  acquired_eq := rfl
  nowServing_eq := rfl
  nowServing_lt := Nat.two_pow_pos 32
  nextTicket_eq := rfl
  waits := trivial
  holds := nofun
  single := Nat.zero_le 1
  nodup := List.nodup_nil
  outside := fun _ _ => rfl

variable {waiting holder : List Thread}

lemma holds_of_holding (h : g.pc t = .holding) : g.Holds t := by
  simp [Gate.Holds, h]

lemma holds_of_releasing {cur : ℕ} (h : g.pc t = .releasing cur) : g.Holds t := by
  simp [Gate.Holds, h]

lemma holds_of_trapped (h : g.pc t = .trapped) : g.Holds t := by
  simp [Gate.Holds, h]

lemma Queue.mem_waiting (h : Queue history g waiting holder) {my : ℕ}
    (ht : g.pc t = .waiting my) : t ∈ waiting := by
  by_contra hnot
  by_cases hholder : t ∈ holder
  · rcases h.holds t hholder with hpc | hpc | ⟨hpc, -⟩
    all_goals
      rw [ht] at hpc
      exact absurd hpc (by simp)
  · have hpc := h.outside t (by simp [hnot, hholder])
    rw [ht] at hpc
    exact absurd hpc (by simp)

/-- A thread that is neither outside nor waiting has the lock. -/
lemma Queue.mem_holder (h : Queue history g waiting holder) (ht : g.Holds t) :
    t ∈ holder := by
  by_contra hnot
  by_cases hwaiting : t ∈ waiting
  · obtain ⟨front, back, -, hpc⟩ := h.waits.exists_ticket hwaiting
    exact ht.2 _ hpc
  · exact ht.1 (h.outside t (by simp [hnot, hwaiting]))

/-- What was read is still served when it is written back. -/
lemma Queue.cur_eq (h : Queue history g waiting holder) {cur : ℕ}
    (ht : g.pc t = .releasing cur) : cur = g.nowServing := by
  rcases h.holds t (h.mem_holder (holds_of_releasing ht)) with hpc | hpc | ⟨hpc, -⟩
  · exact absurd (ht.symm.trans hpc) (by simp)
  · exact GatePc.releasing.inj (ht.symm.trans hpc)
  · exact absurd (ht.symm.trans hpc) (by simp)

lemma Queue.holder_eq (h : Queue history g waiting holder) (ht : g.Holds t) :
    holder = [t] := by
  obtain ⟨front, back, rfl⟩ := List.append_of_mem (h.mem_holder ht)
  have hsingle := h.single
  rw [List.length_append, List.length_cons] at hsingle
  obtain rfl : front = [] := List.length_eq_zero_iff.mp (by omega)
  obtain rfl : back = [] := List.length_eq_zero_iff.mp (by omega)
  rfl

/-- **Exclusion**: one thread has the lock at most. -/
lemma Queue.exclusive (h : Queue history g waiting holder) (ht : g.Holds t)
    (ht' : g.Holds t') : t = t' := by
  have heq := (h.holder_eq ht).symm.trans (h.holder_eq ht')
  exact (List.cons.inj heq).1

lemma Queue.mem_iff (h : Queue history g waiting holder) :
    t ∈ waiting ++ holder ↔ g.pc t ≠ .outside := by
  refine ⟨fun ht hpc => ?_, fun hpc => ?_⟩
  · rcases List.mem_append.mp ht with ht | ht
    · obtain ⟨front, back, -, hticket⟩ := h.waits.exists_ticket ht
      rw [hticket] at hpc
      exact absurd hpc (by simp)
    · rcases h.holds t ht with hholds | hholds | ⟨hholds, -⟩
      all_goals
        rw [hholds] at hpc
        exact absurd hpc (by simp)
  · by_contra hnot
    exact hpc (h.outside t hnot)

lemma Queue.card_outstanding [DecidableEq Thread] [Fintype Thread]
    (h : Queue history g waiting holder) :
    g.outstanding.card = waiting.length + holder.length := by
  have heq : g.outstanding = (waiting ++ holder).toFinset := by
    ext t
    rw [Gate.outstanding, Finset.mem_filter_univ, List.mem_toFinset, h.mem_iff]
  rw [heq, List.toFinset_card_of_nodup h.nodup, List.length_append]

/-! ## Steps -/

variable [DecidableEq Thread]

lemma moveTo_pc_of_ne (g : Gate Thread) (h : t' ≠ t) (pc : GatePc) :
    (g.moveTo t pc).pc t' = g.pc t' :=
  Function.update_of_ne h ..

lemma moveTo_pc_self (g : Gate Thread) (t : Thread) (pc : GatePc) :
    (g.moveTo t pc).pc t = pc :=
  Function.update_self ..

/-- A thread takes the next place. -/
lemma Queue.draw (h : Queue history g waiting holder) (ht : g.pc t = .outside) :
    Queue (.draw t :: history)
      { g.moveTo t (.waiting g.nextTicket) with nextTicket := (g.nextTicket + 1) % 2 ^ 32 }
      (t :: waiting) holder := by
  have hnot : t ∉ waiting ++ holder := fun hmem => h.mem_iff.mp hmem ht
  have hne : ∀ t' ∈ waiting ++ holder, t' ≠ t := fun t' hmem heq => hnot (heq ▸ hmem)
  have hkeep : ∀ t' ∈ waiting ++ holder, (g.moveTo t (.waiting g.nextTicket)).pc t' = g.pc t' :=
    fun t' hmem => moveTo_pc_of_ne g (hne t' hmem) _
  constructor
  · rw [drawn, h.drawn_eq]
    rfl
  · exact h.acquired_eq
  · exact h.nowServing_eq
  · exact h.nowServing_lt
  · have hnext := h.nextTicket_eq
    simp only [Gate.moveTo, List.length_cons]
    omega
  · refine ⟨?_, h.waits.congr fun t' hmem => hkeep t' (List.mem_append_left _ hmem)⟩
    exact (moveTo_pc_self g t _).trans (congrArg GatePc.waiting h.nextTicket_eq)
  · intro t' hmem
    have hold := h.holds t' hmem
    rw [← hkeep t' (List.mem_append_right _ hmem)] at hold
    exact hold
  · exact h.single
  · exact List.nodup_cons.mpr ⟨hnot, h.nodup⟩
  · intro t' hmem
    rw [List.cons_append, List.mem_cons, not_or] at hmem
    exact (moveTo_pc_of_ne g hmem.1 _).trans (h.outside t' hmem.2)

omit [DecidableEq Thread] in
/-- The thread that is served is the first of those that wait. -/
lemma Queue.first_waiting (h : Queue history g waiting holder) {my : ℕ}
    (ht : g.pc t = .waiting my) (heq : g.nowServing = my)
    (hfew : waiting.length + holder.length < 2 ^ 32) :
    holder = [] ∧ ∃ waiting', waiting = waiting' ++ [t] := by
  obtain ⟨front, back, rfl, hticket⟩ := h.waits.exists_ticket (h.mem_waiting ht)
  rw [ht] at hticket
  have hmy := GatePc.waiting.inj hticket
  have hlt := h.nowServing_lt
  rw [List.length_append, List.length_cons] at hfew
  have hzero : holder.length + back.length = 0 := by omega
  obtain rfl : holder = [] := List.length_eq_zero_iff.mp (by omega)
  obtain rfl : back = [] := List.length_eq_zero_iff.mp (by omega)
  exact ⟨rfl, front, rfl⟩

lemma Queue.acquire {waiting' : List Thread} (h : Queue history g (waiting' ++ [t]) []) :
    Queue (.acquire t :: history) (g.moveTo t .holding) waiting' [t] := by
  have hnodup := h.nodup
  rw [List.append_nil] at hnodup
  have hnot : t ∉ waiting' := fun hmem =>
    (List.disjoint_of_nodup_append hnodup) hmem (List.mem_singleton_self t)
  obtain ⟨hwaits, -⟩ := waitsFrom_concat.mp h.waits
  constructor
  · have hdrawn : drawn (.acquire t :: history) = drawn history := rfl
    rw [hdrawn, acquired, h.drawn_eq, List.append_assoc]
    rfl
  · rw [acquired, h.acquired_eq]
    rfl
  · exact h.nowServing_eq
  · exact h.nowServing_lt
  · have hnext := h.nextTicket_eq
    rw [List.length_append, List.length_singleton] at hnext
    simp only [Gate.moveTo, List.length_singleton, List.length_nil] at hnext ⊢
    omega
  · exact hwaits.congr fun t' hmem =>
      moveTo_pc_of_ne g (ne_of_mem_of_not_mem hmem hnot) _
  · intro t' hmem
    rw [List.mem_singleton.mp hmem]
    exact .inl (moveTo_pc_self g t _)
  · exact le_refl _
  · exact hnodup
  · intro t' hmem
    have hne : t' ≠ t := fun heq => hmem (by simp [heq])
    exact (moveTo_pc_of_ne g hne _).trans (h.outside t' (by simpa using hmem))

/-- The thread with the lock goes on. -/
lemma Queue.goOn {pc : GatePc} {event : GateEvent Thread} (h : Queue history g waiting [t])
    (hpc : pc = .releasing g.nowServing ∨ pc = .trapped ∧ g.nowServing + 1 = 2 ^ 32)
    (hdrawn : drawn (event :: history) = drawn history)
    (hacquired : acquired (event :: history) = acquired history)
    (hreleased : released (event :: history) = released history) :
    Queue (event :: history) (g.moveTo t pc) waiting [t] := by
  have hnot : t ∉ waiting := fun hmem =>
    (List.disjoint_of_nodup_append h.nodup) hmem (List.mem_singleton_self t)
  constructor
  · rw [hdrawn, hacquired, h.drawn_eq]
  · rw [hacquired, hreleased, h.acquired_eq]
  · rw [hreleased]
    exact h.nowServing_eq
  · exact h.nowServing_lt
  · exact h.nextTicket_eq
  · exact h.waits.congr fun t' hmem =>
      moveTo_pc_of_ne g (ne_of_mem_of_not_mem hmem hnot) _
  · intro t' hmem
    rw [List.mem_singleton.mp hmem, moveTo_pc_self]
    exact .inr hpc
  · exact le_refl _
  · exact h.nodup
  · intro t' hmem
    have hne : t' ≠ t := fun heq => hmem (by simp [heq])
    exact (moveTo_pc_of_ne g hne _).trans (h.outside t' hmem)

lemma Queue.release (h : Queue history g waiting [t]) (hlt : g.nowServing + 1 < 2 ^ 32) :
    Queue (.release t :: history)
      { g.moveTo t .outside with nowServing := g.nowServing + 1 } waiting [] := by
  have hnot : t ∉ waiting := fun hmem =>
    (List.disjoint_of_nodup_append h.nodup) hmem (List.mem_singleton_self t)
  constructor
  · exact h.drawn_eq
  · have hacquired : acquired (.release t :: history) = acquired history := rfl
    rw [hacquired, released, h.acquired_eq]
    rfl
  · rw [released, List.length_cons, ← h.nowServing_eq]
  · exact hlt
  · exact h.nextTicket_eq
  · exact h.waits.congr fun t' hmem =>
      moveTo_pc_of_ne g (ne_of_mem_of_not_mem hmem hnot) _
  · exact nofun
  · exact Nat.zero_le 1
  · rw [List.append_nil]
    exact h.nodup.of_append_left
  · intro t' hmem
    rw [List.append_nil] at hmem
    by_cases heq : t' = t
    · rw [heq]
      exact moveTo_pc_self g t _
    · exact (moveTo_pc_of_ne g heq _).trans (h.outside t' (by simp [hmem, heq]))

variable [Fintype Thread]

lemma GateRun.few (h : GateRun history g) : g.outstanding.card < 2 ^ 32 := by
  cases h with
  | zero =>
    rw [queue_zero.card_outstanding]
    exact Nat.two_pow_pos 32
  | step _ _ hfew => exact hfew

/-- **A run keeps its queue.** -/
theorem GateRun.queue (h : GateRun history g) : ∃ waiting holder, Queue history g waiting holder := by
  induction h with
  | zero => exact ⟨[], [], queue_zero⟩
  | step hrun hstep hfew ih =>
    obtain ⟨waiting, holder, hqueue⟩ := ih
    cases hstep with
    | draw ht => exact ⟨_, _, hqueue.draw ht⟩
    | wait ht hne => exact ⟨waiting, holder, { hqueue with }⟩
    | acquire ht heq =>
      have hbefore := hrun.few
      rw [hqueue.card_outstanding] at hbefore
      obtain ⟨rfl, waiting', rfl⟩ := hqueue.first_waiting ht heq hbefore
      exact ⟨_, _, hqueue.acquire⟩
    | load ht =>
      obtain rfl := hqueue.holder_eq (holds_of_holding ht)
      exact ⟨_, _, hqueue.goOn (.inl rfl) rfl rfl rfl⟩
    | @release t cur next ht hadd =>
      obtain ⟨hlt, rfl⟩ := checkedAdd_eq_some.mp hadd
      obtain rfl := hqueue.holder_eq (holds_of_releasing ht)
      obtain rfl := hqueue.cur_eq ht
      exact ⟨_, _, hqueue.release hlt⟩
    | @trap t cur ht hadd =>
      have hle := checkedAdd_eq_none.mp hadd
      obtain rfl := hqueue.holder_eq (holds_of_releasing ht)
      obtain rfl := hqueue.cur_eq ht
      have hlt := hqueue.nowServing_lt
      exact ⟨_, _, hqueue.goOn (.inr ⟨rfl, by omega⟩) rfl rfl rfl⟩

/-! ## Exclusion and order -/

/-- **One thread has the lock at most.** -/
theorem GateRun.exclusive (h : GateRun history g) (ht : g.Holds t) (ht' : g.Holds t') : t = t':= by
  obtain ⟨waiting, holder, hqueue⟩ := h.queue
  exact hqueue.exclusive ht ht'

/-- **The lock is given in the order of the tickets.** -/
theorem GateRun.acquired_suffix (h : GateRun history g) : acquired history <:+ drawn history := by
  obtain ⟨waiting, holder, hqueue⟩ := h.queue
  exact ⟨waiting, hqueue.drawn_eq.symm⟩

/-- The counters stay in step: between them are the tickets that are outstanding. -/
lemma GateRun.nextTicket_eq (h : GateRun history g) :
    g.nextTicket = (g.nowServing + g.outstanding.card) % 2 ^ 32 := by
  obtain ⟨waiting, holder, hqueue⟩ := h.queue
  rw [hqueue.card_outstanding, hqueue.nextTicket_eq, Nat.add_assoc, Nat.add_comm holder.length]

end ModernC.Sync
