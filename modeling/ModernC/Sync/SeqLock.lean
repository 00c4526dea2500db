import ModernC.Sync.Spinlock

/-!
# The sequence lock

A writer passes the gate and advances the sequence counter when it begins and when it ends, each
time by a checked addition behind which it may trap.
-/

namespace ModernC.Sync

open Framework

/-- Where a thread stands in `seq_write_begin` and `seq_write_end`. -/
inductive SeqPc where
  | idle
  | locking
  | beginning (cur : ℕ)
  | writing
  | ending (cur : ℕ)
  | unlocking
  | trapped
deriving DecidableEq

/-- A `SeqLock`, and where the threads stand. -/
structure SeqLock (Thread : Type) where
  gate : Gate Thread
  seq : ℕ
  pc : Thread → SeqPc

inductive SeqEvent (Thread : Type) where
  /-- An operation on the gate. -/
  | gate (event : GateEvent Thread)
  /-- The addition of `seq_write_end`. -/
  | finish (t : Thread)
  | other (t : Thread)

variable {Thread : Type} [DecidableEq Thread]

def SeqLock.zero : SeqLock Thread := ⟨.zero, 0, fun _ => .idle⟩

def SeqLock.moveTo (s : SeqLock Thread) (t : Thread) (pc : SeqPc) : SeqLock Thread :=
  { s with pc := Function.update s.pc t pc }

/-- The atomic operations of `seq_write_begin` and `seq_write_end`, with the ones on the gate. -/
inductive SeqStep : SeqLock Thread → SeqEvent Thread → SeqLock Thread → Prop
  | draw {s t gate} (hpc : s.pc t = .idle) (hgate : GateStep s.gate (.draw t) gate) :
      SeqStep s (.gate (.draw t)) { s.moveTo t .locking with gate := gate }
  | wait {s t gate} (hpc : s.pc t = .locking) (hgate : GateStep s.gate (.wait t) gate) :
      SeqStep s (.gate (.wait t)) { s with gate := gate }
  | acquire {s t gate} (hpc : s.pc t = .locking) (hgate : GateStep s.gate (.acquire t) gate) :
      SeqStep s (.gate (.acquire t)) { s with gate := gate }
  | beginLoad {s t} (hpc : s.pc t = .locking) (hholding : s.gate.pc t = .holding) :
      SeqStep s (.other t) (s.moveTo t (.beginning s.seq))
  | beginStore {s t cur next} (hpc : s.pc t = .beginning cur)
      (hadd : checkedAdd 32 cur 1 = some next) :
      SeqStep s (.other t) { s.moveTo t .writing with seq := next }
  | beginTrap {s t cur} (hpc : s.pc t = .beginning cur) (hadd : checkedAdd 32 cur 1 = none) :
      SeqStep s (.other t) (s.moveTo t .trapped)
  | endLoad {s t} (hpc : s.pc t = .writing) :
      SeqStep s (.other t) (s.moveTo t (.ending s.seq))
  | endStore {s t cur next} (hpc : s.pc t = .ending cur)
      (hadd : checkedAdd 32 cur 1 = some next) :
      SeqStep s (.finish t) { s.moveTo t .unlocking with seq := next }
  | endTrap {s t cur} (hpc : s.pc t = .ending cur) (hadd : checkedAdd 32 cur 1 = none) :
      SeqStep s (.finish t) (s.moveTo t .trapped)
  | load {s t gate} (hpc : s.pc t = .unlocking) (hgate : GateStep s.gate (.load t) gate) :
      SeqStep s (.gate (.load t)) { s with gate := gate }
  | release {s t gate} (hpc : s.pc t = .unlocking) (hgate : GateStep s.gate (.release t) gate) :
      SeqStep s (.gate (.release t)) { s.moveTo t .idle with gate := gate }
  | trap {s t gate} (hpc : s.pc t = .unlocking) (hgate : GateStep s.gate (.trap t) gate) :
      SeqStep s (.gate (.trap t)) { s with gate := gate }

variable [Fintype Thread]

/-- A run in which fewer than 2³² tickets are outstanding, with its events, the last one first. -/
inductive SeqRun : List (SeqEvent Thread) → SeqLock Thread → Prop
  | zero : SeqRun [] .zero
  | step {history s event s'} (h : SeqRun history s) (hstep : SeqStep s event s')
      (hfew : s'.gate.outstanding.card < 2 ^ 32) : SeqRun (event :: history) s'

/-- The operations on the gate. -/
def gateEvents : List (SeqEvent Thread) → List (GateEvent Thread)
  | [] => []
  | .gate event :: history => event :: gateEvents history
  | _ :: history => gateEvents history

/-- How often `seq_write_end` came to its addition. -/
def finishes : List (SeqEvent Thread) → ℕ
  | [] => 0
  | .finish _ :: history => finishes history + 1
  | _ :: history => finishes history

/-- **The gate of a lock does what a ticket lock does.** -/
theorem SeqRun.gate {history : List (SeqEvent Thread)} {s : SeqLock Thread}
    (h : SeqRun history s) : GateRun (gateEvents history) s.gate := by
  induction h with
  | zero => exact .zero
  | step _ hstep hfew ih =>
    cases hstep with
    | draw _ hgate | wait _ hgate | acquire _ hgate | load _ hgate | release _ hgate
    | trap _ hgate => exact .step ih hgate hfew
    | beginLoad | beginStore | beginTrap | endLoad | endStore | endTrap => exact ih

end ModernC.Sync
