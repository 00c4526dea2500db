import ModernC.Sync.RwLock
import ModernC.Sync.SeqLock

/-!
# Locks wear out

The counter that a ticket lock serves is advanced by a checked addition, so its 2³²th release
traps.  The counter of a sequence lock goes up twice for each write, so the 2³¹th write traps at
its end.  No operation traps before.  The main result is `locks_trap_iff`, about every interleaving
of finitely many threads.
-/

namespace ModernC.Sync

open Framework

variable {Thread : Type} [DecidableEq Thread] [Fintype Thread]

/-! ## Ticket locks -/

/-- How often `spin_unlock` came to its addition. -/
def attempts : List (GateEvent Thread) → ℕ
  | [] => 0
  | .release _ :: history | .trap _ :: history => attempts history + 1
  | _ :: history => attempts history

/-- A gate counts its releases until one traps. -/
def Gate.Counts (g : Gate Thread) (count : ℕ) : Prop :=
  ((∀ t, g.pc t ≠ .trapped) ∧ count = g.nowServing) ∨
    ((∃ t, g.pc t = .trapped) ∧ count = g.nowServing + 1 ∧ g.nowServing + 1 = 2 ^ 32)

variable {history : List (GateEvent Thread)} {t : Thread} {pc : SeqPc} {gatePc : GatePc}

lemma GateRun.counts {g : Gate Thread} (h : GateRun history g) : g.Counts (attempts history):= by
  induction h with
  | zero => exact .inl ⟨nofun, rfl⟩
  | @step history g event g' hrun hstep hfew ih =>
    have hrun' := GateRun.step hrun hstep hfew
    obtain ⟨waiting, holder, hqueue⟩ := hrun.queue
    have hmove : ∀ {t pc}, pc ≠ .trapped → (∀ t, g.pc t ≠ .trapped) →
        ∀ t', (g.moveTo t pc).pc t' ≠ .trapped := by
      intro t pc hpc hnone t'
      by_cases ht : t' = t
      · rw [ht, moveTo_pc_self]
        exact hpc
      · rw [moveTo_pc_of_ne g ht]
        exact hnone t'
    rcases ih with ⟨hnone, hcount⟩ | ⟨⟨trapped, htrapped⟩, hcount, hlast⟩
    · cases hstep with
      | draw | acquire | load => exact .inl ⟨hmove (by simp) hnone, hcount⟩
      | wait => exact .inl ⟨hnone, hcount⟩
      | release ht hadd =>
        obtain ⟨-, rfl⟩ := checkedAdd_eq_some.mp hadd
        obtain rfl := hqueue.cur_eq ht
        exact .inl ⟨hmove (by simp) hnone, congrArg (· + 1) hcount⟩
      | trap ht hadd =>
        have hle := checkedAdd_eq_none.mp hadd
        obtain rfl := hqueue.cur_eq ht
        have hlt := hqueue.nowServing_lt
        have hlast : g.nowServing + 1 = 2 ^ 32 := by omega
        exact .inr ⟨⟨_, moveTo_pc_self g _ _⟩, congrArg (· + 1) hcount, hlast⟩
    · -- the thread that trapped keeps the lock
      have hkeeps := holds_of_trapped htrapped
      have hother : ∀ {t pc}, g.pc t = pc → g.Holds t → pc = .trapped := by
        rintro t pc hpc hholds
        rw [hrun.exclusive hholds hkeeps, htrapped] at hpc
        exact hpc.symm
      cases hstep with
      | @draw t ht =>
        have hne : trapped ≠ t := by
          rintro rfl
          exact absurd (ht.symm.trans htrapped) (by simp)
        exact .inr ⟨⟨trapped, (moveTo_pc_of_ne g hne _).trans htrapped⟩, hcount, hlast⟩
      | wait => exact .inr ⟨⟨trapped, htrapped⟩, hcount, hlast⟩
      | @acquire t my ht =>
        have hne : trapped ≠ t := by
          rintro rfl
          exact absurd (ht.symm.trans htrapped) (by simp)
        have hstill := (moveTo_pc_of_ne g hne .holding).trans htrapped
        exact absurd (hrun'.exclusive (holds_of_trapped hstill)
          (holds_of_holding (moveTo_pc_self g t _))) hne
      | load ht => exact absurd (hother ht (holds_of_holding ht)) (by simp)
      | release ht | trap ht => exact absurd (hother ht (holds_of_releasing ht)) (by simp)

/-- **A ticket lock traps at its 2³²th release and not before.** -/
theorem GateRun.trap_iff {g : Gate Thread}
    (h : GateRun history g) : (∀ t, g.pc t ≠ .trapped) ↔ attempts history < 2 ^ 32 := by
  obtain ⟨waiting, holder, hqueue⟩ := h.queue
  have hlt := hqueue.nowServing_lt
  rcases h.counts with ⟨hnone, hcount⟩ | ⟨⟨t, htrapped⟩, hcount, hlast⟩
  · exact iff_of_true hnone (by omega)
  · exact iff_of_false (fun hnone => hnone t htrapped) (by omega)

/-! ## Sequence locks -/

/-- Where a writer stands at the gate. -/
def SeqPc.Allows : SeqPc → GatePc → Prop
  | .idle, pc => pc = .outside
  | .locking, pc => pc = .holding ∨ ∃ my, pc = .waiting my
  | .beginning _, pc | .writing, pc | .ending _, pc | .trapped, pc => pc = .holding
  | .unlocking, pc => pc ≠ .outside ∧ ∀ my, pc ≠ .waiting my

/-- Between the gate and a write. -/
def SeqPc.IsQuiet (pc : SeqPc) : Prop := pc = .idle ∨ pc = .locking

/-- The counter and the number of ends, for a writer behind so many releases. -/
def SeqPc.Phase (releases seq count : ℕ) : SeqPc → Prop
  | .idle | .locking => True
  | .beginning cur => cur = 2 * releases ∧ seq = 2 * releases ∧ count = releases
  | .writing => seq = 2 * releases + 1 ∧ count = releases
  | .ending cur => cur = 2 * releases + 1 ∧ seq = 2 * releases + 1 ∧ count = releases
  | .unlocking => seq = 2 * releases + 2 ∧ count = releases + 1
  | .trapped => seq = 2 * releases + 1 ∧ 2 * releases + 2 = 2 ^ 32 ∧ count = releases + 1

/-- What holds of a sequence lock between the steps. -/
structure SeqLock.Invariant (s : SeqLock Thread) (count : ℕ) : Prop where
  allowed : ∀ t, (s.pc t).Allows (s.gate.pc t)
  phase : ∀ t, (s.pc t).Phase s.gate.nowServing s.seq count
  quiet : (∀ t, (s.pc t).IsQuiet) → s.seq = 2 * s.gate.nowServing ∧ count = s.gate.nowServing
  seq_lt : s.seq < 2 ^ 32

variable {s : SeqLock Thread} {count : ℕ}

omit [DecidableEq Thread] [Fintype Thread] in
lemma SeqLock.Invariant.holds (h : s.Invariant count) (ht : ¬(s.pc t).IsQuiet) :
    s.gate.Holds t := by
  have hallowed := h.allowed t
  rcases hpc : s.pc t with _ | _ | cur | _ | cur | _ | _
  · exact absurd (.inl hpc) ht
  · exact absurd (.inr hpc) ht
  all_goals rw [hpc] at hallowed
  · exact holds_of_holding hallowed
  · exact holds_of_holding hallowed
  · exact holds_of_holding hallowed
  · exact hallowed
  · exact holds_of_holding hallowed

/-- The others are quiet while one thread has the gate. -/
lemma SeqLock.Invariant.others (h : s.Invariant count)
    (hgate : GateRun history s.gate) (ht : s.gate.Holds t) {t' : Thread}
    (hne : t' ≠ t) : (s.pc t').IsQuiet := by
  by_contra hbusy
  exact hne (hgate.exclusive (h.holds hbusy) ht)

omit [DecidableEq Thread] [Fintype Thread] in
lemma phase_of_isQuiet (h : pc.IsQuiet) (releases seq count : ℕ) :
    pc.Phase releases seq count := by
  rcases h with rfl | rfl <;> trivial

omit [Fintype Thread] in
lemma SeqLock.Invariant.allowed_update (h : s.Invariant count)
    (hallows : pc.Allows gatePc) (t' : Thread) :
    (Function.update s.pc t pc t').Allows (Function.update s.gate.pc t gatePc t') := by
  by_cases heq : t' = t
  · rw [heq, Function.update_self, Function.update_self]
    exact hallows
  · rw [Function.update_of_ne heq, Function.update_of_ne heq]
    exact h.allowed t'

/-- A step of the thread with the gate. -/
lemma SeqLock.Invariant.advance (h : s.Invariant count)
    (hgate : GateRun history s.gate) (ht : s.gate.Holds t) {gate : Gate Thread} {seq count' : ℕ}
    (hgatePc : gate.pc = Function.update s.gate.pc t gatePc) (hallows : pc.Allows gatePc)
    (hphase : pc.Phase gate.nowServing seq count')
    (hquiet : pc.IsQuiet → seq = 2 * gate.nowServing ∧ count' = gate.nowServing)
    (hseq : seq < 2 ^ 32) :
    SeqLock.Invariant ⟨gate, seq, Function.update s.pc t pc⟩ count' := by
  constructor
  · intro t'
    dsimp only
    rw [hgatePc]
    exact h.allowed_update hallows t'
  · intro t'
    dsimp only
    by_cases heq : t' = t
    · rw [heq, Function.update_self]
      exact hphase
    · rw [Function.update_of_ne heq]
      exact phase_of_isQuiet (h.others hgate ht heq) _ _ _
  · intro hall
    have hself := hall t
    dsimp only at hself
    rw [Function.update_self] at hself
    exact hquiet hself
  · exact hseq

omit [Fintype Thread] in
/-- A step on the gate of a thread in front of a write. -/
lemma SeqLock.Invariant.enter (h : s.Invariant count)
    {gate : Gate Thread} (hold : (s.pc t).IsQuiet) (hnew : pc.IsQuiet)
    (hgatePc : gate.pc = Function.update s.gate.pc t gatePc) (hallows : pc.Allows gatePc)
    (hserving : gate.nowServing = s.gate.nowServing) :
    SeqLock.Invariant ⟨gate, s.seq, Function.update s.pc t pc⟩ count := by
  constructor
  · intro t'
    dsimp only
    rw [hgatePc]
    exact h.allowed_update hallows t'
  · intro t'
    dsimp only
    rw [hserving]
    by_cases heq : t' = t
    · rw [heq, Function.update_self]
      exact phase_of_isQuiet hnew _ _ _
    · rw [Function.update_of_ne heq]
      exact h.phase t'
  · intro hall
    dsimp only
    rw [hserving]
    refine h.quiet fun t' => ?_
    by_cases heq : t' = t
    · rw [heq]
      exact hold
    · have hother := hall t'
      dsimp only at hother
      rwa [Function.update_of_ne heq] at hother
  · exact h.seq_lt

omit [DecidableEq Thread] [Fintype Thread] in
lemma invariant_seqZero : (SeqLock.zero : SeqLock Thread).Invariant 0 where
  allowed := fun _ => rfl
  phase := fun _ => trivial
  quiet := fun _ => ⟨rfl, rfl⟩
  seq_lt := Nat.two_pow_pos 32

/-- A step of the thread with the gate that leaves the gate alone. -/
lemma SeqLock.Invariant.work (h : s.Invariant count)
    (hgate : GateRun history s.gate) (ht : s.gate.pc t = .holding)
    {seq count' : ℕ} (hallows : pc.Allows .holding) (hbusy : ¬pc.IsQuiet)
    (hphase : pc.Phase s.gate.nowServing seq count') (hseq : seq < 2 ^ 32) :
    SeqLock.Invariant ⟨s.gate, seq, Function.update s.pc t pc⟩ count' :=
  h.advance hgate (holds_of_holding ht) (by rw [← ht, Function.update_eq_self]) hallows hphase
    (fun hquiet => absurd hquiet hbusy) hseq

variable {history : List (SeqEvent Thread)}

/-- **A run keeps the invariant.** -/
theorem SeqRun.invariant (h : SeqRun history s) :
    s.Invariant (finishes history) := by
  induction h with
  | zero => exact invariant_seqZero
  | @step history s event s' hrun hstep _ ih =>
    have hgateRun := hrun.gate
    have hseq := ih.seq_lt
    have hphase : ∀ {t pc}, s.pc t = pc → pc.Phase s.gate.nowServing s.seq (finishes history) :=
      fun hpc => hpc ▸ ih.phase _
    have hallows : ∀ {t pc}, s.pc t = pc → pc.Allows (s.gate.pc t) :=
      fun hpc => hpc ▸ ih.allowed _
    -- only the two stores and the gate move a counter
    cases hstep with
    | draw hpc hgate =>
      cases hgate
      exact ih.enter (.inl hpc) (.inr rfl) rfl (.inr ⟨_, rfl⟩) rfl
    | wait hpc hgate =>
      cases hgate
      exact ih
    | @acquire t gate hpc hgate =>
      cases hgate
      have henter : SeqLock.Invariant
          ⟨s.gate.moveTo t .holding, s.seq, Function.update s.pc t .locking⟩ (finishes history) :=
        ih.enter (.inr hpc) (.inr rfl) rfl (.inl rfl) rfl
      rwa [← hpc, Function.update_eq_self] at henter
    | @beginLoad t hpc hholding =>
      have hall : ∀ t', (s.pc t').IsQuiet := by
        intro t'
        by_cases heq : t' = t
        · rw [heq]
          exact .inr hpc
        · exact ih.others hgateRun (holds_of_holding hholding) heq
      obtain ⟨hvalue, hcount⟩ := ih.quiet hall
      exact ih.work hgateRun hholding rfl (by simp [SeqPc.IsQuiet]) ⟨hvalue, hvalue, hcount⟩ hseq
    | beginStore hpc hadd =>
      obtain ⟨hlt, rfl⟩ := checkedAdd_eq_some.mp hadd
      obtain ⟨rfl, -, hcount⟩ := hphase hpc
      exact ih.work hgateRun (hallows hpc) rfl (by simp [SeqPc.IsQuiet]) ⟨rfl, hcount⟩ hlt
    | beginTrap hpc hadd =>
      have hle := checkedAdd_eq_none.mp hadd
      obtain ⟨hcur, hvalue, -⟩ := hphase hpc
      exact absurd hle (by omega)
    | endLoad hpc =>
      obtain ⟨hvalue, hcount⟩ := hphase hpc
      exact ih.work hgateRun (hallows hpc) rfl (by simp [SeqPc.IsQuiet])
        ⟨hvalue, hvalue, hcount⟩ hseq
    | endStore hpc hadd =>
      obtain ⟨hlt, rfl⟩ := checkedAdd_eq_some.mp hadd
      obtain ⟨rfl, -, hcount⟩ := hphase hpc
      exact ih.work hgateRun (hallows hpc) ⟨by simp, by simp⟩ (by simp [SeqPc.IsQuiet])
        ⟨rfl, congrArg (· + 1) hcount⟩ hlt
    | endTrap hpc hadd =>
      have hle := checkedAdd_eq_none.mp hadd
      obtain ⟨hcur, hvalue, hcount⟩ := hphase hpc
      exact ih.work hgateRun (hallows hpc) rfl (by simp [SeqPc.IsQuiet])
        ⟨hvalue, by omega, congrArg (· + 1) hcount⟩ hseq
    | @load t gate hpc hgate =>
      cases hgate
      have hload : SeqLock.Invariant ⟨s.gate.moveTo t (.releasing s.gate.nowServing), s.seq,
          Function.update s.pc t .unlocking⟩ (finishes history) :=
        ih.advance hgateRun (hallows hpc) rfl ⟨by simp, by simp⟩ (hphase hpc)
          (fun hquiet => absurd hquiet (by simp [SeqPc.IsQuiet])) hseq
      rwa [← hpc, Function.update_eq_self] at hload
    | @release t gate hpc hgate =>
      obtain ⟨waiting, holder, hqueue⟩ := hgateRun.queue
      cases hgate with
      | release ht hadd =>
        obtain ⟨-, rfl⟩ := checkedAdd_eq_some.mp hadd
        obtain rfl := hqueue.cur_eq ht
        obtain ⟨hvalue, hcount⟩ := hphase hpc
        exact ih.advance hgateRun (hallows hpc) rfl rfl trivial
          (fun _ => ⟨hvalue.trans (Nat.mul_succ 2 _).symm, hcount⟩) hseq
    | @trap t gate hpc hgate =>
      cases hgate
      have htrap : SeqLock.Invariant
          ⟨s.gate.moveTo t .trapped, s.seq, Function.update s.pc t .unlocking⟩ (finishes history) :=
        ih.advance hgateRun (hallows hpc) rfl ⟨by simp, by simp⟩ (hphase hpc)
          (fun hquiet => absurd hquiet (by simp [SeqPc.IsQuiet])) hseq
      rwa [← hpc, Function.update_eq_self] at htrap

/-- The gate of a sequence lock does not trap: the counter would have been full before. -/
lemma SeqRun.gate_pc_ne (h : SeqRun history s) (t : Thread) :
    s.gate.pc t ≠ .trapped := by
  intro htrapped
  have hinvariant := h.invariant
  have hseq := hinvariant.seq_lt
  have hphase := hinvariant.phase t
  have hallowed := hinvariant.allowed t
  have hlast : s.gate.nowServing + 1 = 2 ^ 32 := by
    rcases h.gate.counts with ⟨hnone, -⟩ | ⟨-, -, hlast⟩
    · exact absurd htrapped (hnone t)
    · exact hlast
  rw [htrapped] at hallowed
  rcases hpc : s.pc t with _ | _ | cur | _ | cur | _ | _
  all_goals rw [hpc] at hallowed hphase
  case unlocking =>
    obtain ⟨hvalue, -⟩ := hphase
    omega
  case locking => rcases hallowed with hgate | ⟨my, hgate⟩ <;> exact absurd hgate (by simp)
  all_goals exact absurd hallowed (by simp [SeqPc.Allows])

/-- **A sequence lock traps at the end of its 2³¹th write and not before.** -/
theorem SeqRun.trap_iff (h : SeqRun history s) :
    (∀ t, s.pc t ≠ .trapped ∧ s.gate.pc t ≠ .trapped) ↔ finishes history < 2 ^ 31 := by
  have hinvariant := h.invariant
  have hseq := hinvariant.seq_lt
  by_cases htrapped : ∃ t, s.pc t = .trapped
  · obtain ⟨t, ht⟩ := htrapped
    have hphase := hinvariant.phase t
    rw [ht] at hphase
    obtain ⟨-, hlast, hcount⟩ := hphase
    exact iff_of_false (fun hnone => (hnone t).1 ht) (by omega)
  · have hnone : ∀ t, s.pc t ≠ .trapped := fun t ht => htrapped ⟨t, ht⟩
    refine iff_of_true (fun t => ⟨hnone t, h.gate_pc_ne t⟩) ?_
    by_cases hquiet : ∀ t, (s.pc t).IsQuiet
    · obtain ⟨hvalue, hcount⟩ := hinvariant.quiet hquiet
      omega
    · obtain ⟨t, ht⟩ := not_forall.mp hquiet
      have hphase := hinvariant.phase t
      rcases hpc : s.pc t with _ | _ | cur | _ | cur | _ | _
      all_goals rw [hpc] at hphase
      · exact absurd (.inl hpc) ht
      · exact absurd (.inr hpc) ht
      · obtain ⟨-, hvalue, hcount⟩ := hphase
        omega
      · obtain ⟨hvalue, hcount⟩ := hphase
        omega
      · obtain ⟨-, hvalue, hcount⟩ := hphase
        omega
      · obtain ⟨hvalue, hcount⟩ := hphase
        omega
      · exact absurd hpc (hnone t)

/-! ## All locks -/

/-- **No lock traps before its counter is used up, and each then does; the counters of a ticket lock
stay in step.** -/
theorem locks_trap_iff (Thread : Type) [DecidableEq Thread] [Fintype Thread] :
    (∀ {history : List (GateEvent Thread)} {g : Gate Thread}, GateRun history g →
      ((∀ t, g.pc t ≠ .trapped) ↔ attempts history < 2 ^ 32) ∧
        g.nextTicket = (g.nowServing + g.outstanding.card) % 2 ^ 32) ∧
    (∀ {history : List (GateEvent Thread)} {l : RwLock Thread}, RwRun history l →
      ((∀ t, l.gate.pc t ≠ .trapped) ↔ attempts history < 2 ^ 32)) ∧
    ∀ {history : List (SeqEvent Thread)} {s : SeqLock Thread}, SeqRun history s →
      ((∀ t, s.pc t ≠ .trapped ∧ s.gate.pc t ≠ .trapped) ↔ finishes history < 2 ^ 31) :=
  ⟨fun h => ⟨h.trap_iff, h.nextTicket_eq⟩, fun h => h.gate.trap_iff, fun h => h.trap_iff⟩

/-! ## A lock that is worn out -/

/-- The lock after it was used so often. -/
def usedGate (uses : ℕ) : Gate Unit := ⟨uses % 2 ^ 32, uses, fun _ => .outside⟩

/-- The thread is about to release it. -/
def leavingGate (uses : ℕ) : Gate Unit := ⟨(uses + 1) % 2 ^ 32, uses, fun _ => .releasing uses⟩

lemma card_outstanding_unit (g : Gate Unit) : g.outstanding.card < 2 ^ 32 := by
  have hle := Finset.card_le_univ g.outstanding
  rw [Fintype.card_unit] at hle
  omega

lemma update_unit (pc : Unit → GatePc) (new : GatePc) :
    Function.update pc () new = fun _ => new :=
  funext fun _ => Function.update_self ..

lemma exists_run_leaving {uses : ℕ} (huses : uses < 2 ^ 32)
    (h : ∃ history, GateRun history (usedGate uses) ∧ attempts history = uses) :
    ∃ history, GateRun history (leavingGate uses) ∧ attempts history = uses := by
  obtain ⟨history, hrun, hattempts⟩ := h
  have hmod : uses % 2 ^ 32 = uses := Nat.mod_eq_of_lt huses
  have hdraw := GateRun.step hrun (.draw (t := ()) rfl) (card_outstanding_unit _)
  simp only [usedGate, Gate.moveTo, update_unit, hmod] at hdraw
  have hacquire := GateRun.step hdraw (.acquire (t := ()) rfl rfl) (card_outstanding_unit _)
  simp only [Gate.moveTo, update_unit] at hacquire
  have hload := GateRun.step hacquire (.load (t := ()) rfl) (card_outstanding_unit _)
  simp only [Gate.moveTo, update_unit] at hload
  exact ⟨_, hload, hattempts⟩

lemma exists_run_used {uses : ℕ} (h : uses < 2 ^ 32) :
    ∃ history, GateRun history (usedGate uses) ∧ attempts history = uses := by
  induction uses with
  | zero => exact ⟨[], .zero, rfl⟩
  | succ uses ih =>
    obtain ⟨history, hrun, hattempts⟩ := exists_run_leaving (by omega) (ih (by omega))
    have hrelease := GateRun.step hrun
      (.release (t := ()) rfl (checkedAdd_eq_some.mpr ⟨h, rfl⟩)) (card_outstanding_unit _)
    simp only [leavingGate, Gate.moveTo, update_unit] at hrelease
    exact ⟨_, hrelease, congrArg (· + 1) hattempts⟩

/-- The counters of a lock that was used ten times. -/
theorem locks_trap_iff_used : ∃ history : List (GateEvent Unit), attempts history = 10 ∧
    ((∀ t, (usedGate 10).pc t ≠ .trapped) ↔ attempts history < 2 ^ 32) := by
  obtain ⟨history, hrun, hattempts⟩ := exists_run_used (by omega : 10 < 2 ^ 32)
  exact ⟨history, hattempts, ((locks_trap_iff Unit).1 hrun).1⟩

/-- **The release of a ticket lock after 2³² - 1 uses traps.** -/
theorem exists_run_trapped :
    ¬∀ {history : List (GateEvent Unit)} {g : Gate Unit}, GateRun history g →
      ∀ t, g.pc t ≠ .trapped := by
  intro hall
  obtain ⟨history, hrun, -⟩ := exists_run_leaving (by omega : 2 ^ 32 - 1 < 2 ^ 32)
    (exists_run_used (by omega))
  have htrap := GateRun.step hrun
    (.trap (t := ()) rfl (checkedAdd_eq_none.mpr (by omega))) (card_outstanding_unit _)
  exact hall htrap () (moveTo_pc_self _ _ _)

end ModernC.Sync
