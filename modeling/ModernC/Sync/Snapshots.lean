import ModernC.Sync.Traps

/-!
# Readers of a sequence lock

A reader takes no lock.  It waits for an even counter, copies the protected fields one load at a
time and asks at the end whether the counter is the one from the beginning.  The counter is odd
while the fields change, and it never comes back to a value, so the copies are the fields as they
stand together at the end.  The main result is `ProtectedRun.snapshot`, about every interleaving of
writers and readers.
-/

namespace ModernC.Sync

open Framework

/-- Where a reader stands between `seq_read_begin` and `seq_read_retry`, with the fields that it
copied and their values, the last one first. -/
inductive ReadPc (Field Value : Type) where
  | spinning
  | copying (start : ℕ) (copies : List (Field × Value))

/-- `seq_read_retry`. -/
def seqReadRetry (seq start : ℕ) : Bool := seq != start

/-- A lock, the fields that it protects, and where the readers stand. -/
structure Protected (Thread Reader Field Value : Type) where
  lock : SeqLock Thread
  data : Field → Value
  reader : Reader → ReadPc Field Value

variable {Thread Reader Field Value : Type} [DecidableEq Thread] [DecidableEq Reader]
  [DecidableEq Field]

def Protected.zero (data : Field → Value) : Protected Thread Reader Field Value :=
  ⟨.zero, data, fun _ => .spinning⟩

def Protected.moveTo (s : Protected Thread Reader Field Value) (r : Reader)
    (pc : ReadPc Field Value) : Protected Thread Reader Field Value :=
  { s with reader := Function.update s.reader r pc }

/-- A store of a writer to a field, or a load of a reader. -/
inductive AccessStep :
    Protected Thread Reader Field Value → Protected Thread Reader Field Value → Prop
  /-- Between `seq_write_begin` and `seq_write_end`. -/
  | store {s t} (hpc : s.lock.pc t = .writing) (field : Field) (value : Value) :
      AccessStep s { s with data := Function.update s.data field value }
  /-- The loop of `seq_read_begin` goes on. -/
  | spin {s r} (hpc : s.reader r = .spinning) (hodd : s.lock.seq % 2 ≠ 0) : AccessStep s s
  | begin {s r} (hpc : s.reader r = .spinning) (heven : s.lock.seq % 2 = 0) :
      AccessStep s (s.moveTo r (.copying s.lock.seq []))
  | copy {s r start copies} (hpc : s.reader r = .copying start copies) (field : Field) :
      AccessStep s (s.moveTo r (.copying start ((field, s.data field) :: copies)))
  /-- The reader is done, or it reads again. -/
  | retry {s r start copies} (hpc : s.reader r = .copying start copies) :
      AccessStep s (s.moveTo r .spinning)

variable [Fintype Thread]

/-- A run in which fewer than 2³² tickets of the gate are outstanding, with the operations on the
lock. -/
inductive ProtectedRun :
    List (SeqEvent Thread) → Protected Thread Reader Field Value → Prop
  | zero (data : Field → Value) : ProtectedRun [] (.zero data)
  | lock {history s event lock} (h : ProtectedRun history s) (hstep : SeqStep s.lock event lock)
      (hfew : lock.gate.outstanding.card < 2 ^ 32) :
      ProtectedRun (event :: history) { s with lock := lock }
  | access {history s s'} (h : ProtectedRun history s) (hstep : AccessStep s s') :
      ProtectedRun history s'

/-- A writer is behind the store of `seq_write_begin` and in front of the one of
`seq_write_end`. -/
def SeqPc.IsWrite : SeqPc → Prop
  | .writing | .ending _ | .trapped => True
  | _ => False

/-! ## The counter -/

variable {history : List (SeqEvent Thread)}

/-- The counter is odd during a write. -/
lemma SeqRun.odd_of_isWrite {s : SeqLock Thread} (h : SeqRun history s) {t : Thread}
    (ht : (s.pc t).IsWrite) : s.seq % 2 = 1 := by
  have hphase := h.invariant.phase t
  rcases hpc : s.pc t with _ | _ | cur | _ | cur | _ | _
  all_goals rw [hpc] at ht hphase
  case writing =>
    obtain ⟨hseq, -⟩ := hphase
    omega
  case ending =>
    obtain ⟨-, hseq, -⟩ := hphase
    omega
  case trapped =>
    obtain ⟨hseq, -⟩ := hphase
    omega
  all_goals exact absurd ht id

/-- The counter does not go back. -/
lemma SeqRun.seq_le {s s' : SeqLock Thread} {event : SeqEvent Thread} (h : SeqRun history s)
    (hstep : SeqStep s event s') : s.seq ≤ s'.seq := by
  have hphase := h.invariant.phase
  cases hstep with
  | @beginStore t cur next hpc hadd | @endStore t cur next hpc hadd =>
    have hcur := hphase t
    rw [hpc] at hcur
    obtain ⟨hvalue, hseq, -⟩ := hcur
    obtain ⟨-, rfl⟩ := checkedAdd_eq_some.mp hadd
    show s.seq ≤ cur + 1
    omega
  | _ => exact le_refl _

/-! ## Snapshots -/

/-- What a reader has copied stands in the fields as long as the counter has not moved. -/
def ReadPc.Sound (data : Field → Value) (seq : ℕ) : ReadPc Field Value → Prop
  | .spinning => True
  | .copying start copies =>
      start % 2 = 0 ∧ start ≤ seq ∧ (seq = start → ∀ copy ∈ copies, data copy.1 = copy.2)

variable {s s' : Protected Thread Reader Field Value}

lemma ProtectedRun.seqRun (h : ProtectedRun history s) : SeqRun history s.lock := by
  induction h with
  | zero => exact .zero
  | lock _ hstep hfew ih => exact .step ih hstep hfew
  | access _ hstep ih => cases hstep <;> exact ih

variable {pc : ReadPc Field Value}

omit [DecidableEq Field] in
/-- The counter has moved, the fields have not. -/
lemma ReadPc.Sound.mono {data : Field → Value} {seq seq' : ℕ}
    (h : pc.Sound data seq) (hle : seq ≤ seq') : pc.Sound data seq' := by
  cases pc with
  | spinning => trivial
  | copying start copies =>
    obtain ⟨heven, hstart, hcopies⟩ := h
    refine ⟨heven, hstart.trans hle, fun heq => hcopies ?_⟩
    omega

omit [DecidableEq Field] in
/-- No copy counts while the counter is odd. -/
lemma ReadPc.Sound.of_odd {data data' : Field → Value} {seq : ℕ}
    (h : pc.Sound data seq) (hodd : seq % 2 = 1) : pc.Sound data' seq := by
  cases pc with
  | spinning => trivial
  | copying start copies =>
    obtain ⟨heven, hstart, -⟩ := h
    refine ⟨heven, hstart, fun heq => ?_⟩
    omega

omit [DecidableEq Thread] [DecidableEq Field] [Fintype Thread] in
/-- One reader moves on. -/
lemma Protected.sound_moveTo (h : ∀ r, (s.reader r).Sound s.data s.lock.seq) {r : Reader}
    (hpc : pc.Sound s.data s.lock.seq) (r' : Reader) :
    ((s.moveTo r pc).reader r').Sound s.data s.lock.seq := by
  rw [Protected.moveTo]
  dsimp only
  by_cases heq : r' = r
  · rw [heq, Function.update_self]
    exact hpc
  · rw [Function.update_of_ne heq]
    exact h r'

/-- **A run keeps the copies sound.** -/
theorem ProtectedRun.sound (h : ProtectedRun history s) (r : Reader) :
    (s.reader r).Sound s.data s.lock.seq := by
  induction h generalizing r with
  | zero => trivial
  | lock hrun hstep _ ih => exact (ih r).mono (hrun.seqRun.seq_le hstep)
  | @access history s s' hrun hstep ih =>
    cases hstep with
    | @store t hpc field value =>
      have hwrite : (s.lock.pc t).IsWrite := by
        rw [hpc]
        trivial
      exact (ih r).of_odd (hrun.seqRun.odd_of_isWrite hwrite)
    | spin => exact ih r
    | begin hpc heven =>
      have hnew : (ReadPc.copying s.lock.seq []).Sound s.data s.lock.seq :=
        ⟨heven, le_refl _, fun _ => by simp⟩
      exact Protected.sound_moveTo ih hnew r
    | @copy r' start copies hpc field =>
      have hold := ih r'
      rw [hpc] at hold
      obtain ⟨heven, hstart, hcopies⟩ := hold
      have hnew : (ReadPc.copying start ((field, s.data field) :: copies)).Sound s.data
          s.lock.seq := by
        refine ⟨heven, hstart, fun heq copy hcopy => ?_⟩
        rcases List.mem_cons.mp hcopy with rfl | hcopy
        · rfl
        · exact hcopies heq copy hcopy
      exact Protected.sound_moveTo ih hnew r
    | retry =>
      have hnew : (ReadPc.spinning : ReadPc Field Value).Sound s.data s.lock.seq := trivial
      exact Protected.sound_moveTo ih hnew r

/-- **A reader never accepts a torn snapshot**: where `seq_read_retry` returns false, no write is in
progress, and every value that the reader has copied stands in its field. -/
theorem ProtectedRun.snapshot (h : ProtectedRun history s) {r : Reader} {start : ℕ}
    {copies : List (Field × Value)} (hpc : s.reader r = .copying start copies)
    (hretry : seqReadRetry s.lock.seq start = false) :
    (∀ t, ¬(s.lock.pc t).IsWrite) ∧ ∀ copy ∈ copies, s.data copy.1 = copy.2 := by
  have hseq : s.lock.seq = start := by simpa [seqReadRetry] using hretry
  have hsound := h.sound r
  rw [hpc] at hsound
  obtain ⟨heven, -, hcopies⟩ := hsound
  refine ⟨fun t ht => ?_, hcopies hseq⟩
  have hodd := h.seqRun.odd_of_isWrite ht
  omega

/-- A reader copies two fields. -/
theorem snapshot_twoFields : ∃ s : Protected Unit Unit Bool ℕ,
    s.reader () = .copying 0 [(false, 8), (true, 7)] ∧
      (∀ t, ¬(s.lock.pc t).IsWrite) ∧ s.data true = 7 ∧ s.data false = 8 := by
  have hzero : ProtectedRun [] (.zero (Bool.rec 8 7) : Protected Unit Unit Bool ℕ) := .zero _
  have hbegin := hzero.access (.begin (r := ()) rfl rfl)
  have htrue := hbegin.access (.copy (r := ()) rfl true)
  have hfalse := htrue.access (.copy (r := ()) rfl false)
  obtain ⟨hwrite, hcopies⟩ := hfalse.snapshot (r := ()) rfl rfl
  exact ⟨_, rfl, hwrite, hcopies (true, 7) (.tail _ (.head _)), hcopies (false, 8) (.head _)⟩

end ModernC.Sync
