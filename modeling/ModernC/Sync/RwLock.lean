import ModernC.Framework.ListUpdates
import ModernC.Sync.Spinlock

/-!
# The reader/writer lock

Readers and writers pass the same gate.  A reader registers and leaves it; a writer stays and waits
until no reader is registered.  The number of readers is a wrapping counter.  The main result is
`locks_exclude`, about every interleaving of finitely many threads.
-/

namespace ModernC.Sync

open Framework

/-- What a thread does with an `RwLock`. -/
inductive Role where
  | idle
  /-- In `read_lock`, in front of the registration. -/
  | readLock
  /-- In `read_lock`, behind the registration. -/
  | registered
  | reading
  | writeLock
  | writing
  | writeUnlock
deriving DecidableEq

/-- An `RwLock`, and what the threads do. -/
structure RwLock (Thread : Type) where
  gate : Gate Thread
  readers : ℕ
  role : Thread → Role

variable {Thread : Type} [DecidableEq Thread]

def RwLock.zero : RwLock Thread := ⟨.zero, 0, fun _ => .idle⟩

def RwLock.play (l : RwLock Thread) (t : Thread) (role : Role) : RwLock Thread :=
  { l with role := Function.update l.role t role }

/-- The atomic operations of `read_lock`, `read_unlock`, `write_lock` and `write_unlock`, with the
ones on the gate. -/
inductive RwStep : RwLock Thread → Option (GateEvent Thread) → RwLock Thread → Prop
  | readBegin {l t gate} (hrole : l.role t = .idle) (hgate : GateStep l.gate (.draw t) gate) :
      RwStep l (some (.draw t)) { l.play t .readLock with gate := gate }
  | writeBegin {l t gate} (hrole : l.role t = .idle) (hgate : GateStep l.gate (.draw t) gate) :
      RwStep l (some (.draw t)) { l.play t .writeLock with gate := gate }
  | wait {l t gate} (hrole : l.role t = .readLock ∨ l.role t = .writeLock)
      (hgate : GateStep l.gate (.wait t) gate) : RwStep l (some (.wait t)) { l with gate := gate }
  | acquire {l t gate} (hrole : l.role t = .readLock ∨ l.role t = .writeLock)
      (hgate : GateStep l.gate (.acquire t) gate) :
      RwStep l (some (.acquire t)) { l with gate := gate }
  | register {l t} (hrole : l.role t = .readLock) (hpc : l.gate.pc t = .holding) :
      RwStep l none { l.play t .registered with readers := (l.readers + 1) % 2 ^ 32 }
  | readLoad {l t gate} (hrole : l.role t = .registered)
      (hgate : GateStep l.gate (.load t) gate) : RwStep l (some (.load t)) { l with gate := gate }
  | readStore {l t gate} (hrole : l.role t = .registered)
      (hgate : GateStep l.gate (.release t) gate) :
      RwStep l (some (.release t)) { l.play t .reading with gate := gate }
  | readUnlock {l t} (hrole : l.role t = .reading) :
      RwStep l none { l.play t .idle with readers := (l.readers + (2 ^ 32 - 1)) % 2 ^ 32 }
  | drain {l t} (hrole : l.role t = .writeLock) (hpc : l.gate.pc t = .holding)
      (hne : l.readers ≠ 0) : RwStep l none l
  | drained {l t} (hrole : l.role t = .writeLock) (hpc : l.gate.pc t = .holding)
      (heq : l.readers = 0) : RwStep l none (l.play t .writing)
  | writeLoad {l t gate} (hrole : l.role t = .writing) (hgate : GateStep l.gate (.load t) gate) :
      RwStep l (some (.load t)) { l.play t .writeUnlock with gate := gate }
  | writeStore {l t gate} (hrole : l.role t = .writeUnlock)
      (hgate : GateStep l.gate (.release t) gate) :
      RwStep l (some (.release t)) { l.play t .idle with gate := gate }
  | trap {l t gate} (hrole : l.role t = .registered ∨ l.role t = .writeUnlock)
      (hgate : GateStep l.gate (.trap t) gate) : RwStep l (some (.trap t)) { l with gate := gate }

variable [Fintype Thread]

/-- A run in which fewer than 2³² tickets are outstanding, with the events of its gate. -/
inductive RwRun : List (GateEvent Thread) → RwLock Thread → Prop
  | zero : RwRun [] .zero
  | step {history l event l'} (h : RwRun history l) (hstep : RwStep l event l')
      (hfew : l'.gate.outstanding.card < 2 ^ 32) : RwRun (event.toList ++ history) l'

/-- The thread is between its registration and `read_unlock`. -/
def Role.IsReader (role : Role) : Prop := role = .registered ∨ role = .reading

/-- The thread has the lock to write. -/
def Role.IsWriter (role : Role) : Prop := role = .writing ∨ role = .writeUnlock

instance : DecidablePred Role.IsReader := fun role =>
  inferInstanceAs (Decidable (role = .registered ∨ role = .reading))

/-! ## The gate of a lock -/

/-- **The gate of a lock does what a ticket lock does.** -/
theorem RwRun.gate {history : List (GateEvent Thread)} {l : RwLock Thread} (h : RwRun history l) :
    GateRun history l.gate := by
  induction h with
  | zero => exact .zero
  | step _ hstep hfew ih =>
    cases hstep with
    | readBegin _ hgate | writeBegin _ hgate | wait _ hgate | acquire _ hgate
    | readLoad _ hgate | readStore _ hgate | writeLoad _ hgate | writeStore _ hgate
    | trap _ hgate => exact .step ih hgate hfew
    | register | readUnlock | drain | drained => exact ih

/-- Where a thread stands at the gate, by what it does. -/
def Role.Allows : Role → GatePc → Prop
  | .idle, pc | .reading, pc => pc = .outside
  | .readLock, pc | .writeLock, pc => pc = .holding ∨ ∃ my, pc = .waiting my
  | .registered, pc | .writeUnlock, pc => pc ≠ .outside ∧ ∀ my, pc ≠ .waiting my
  | .writing, pc => pc = .holding

end ModernC.Sync

/-!
## Readers and writers exclude one another

The reader count is the number of registered readers up to wrap-around.  It cannot wrap around to
zero under the eyes of a writer: every reader has released the gate once, and the gate is released
fewer than 2³² times.
-/

namespace ModernC.Sync

open Framework

variable {Thread : Type} [Fintype Thread] {l l' : RwLock Thread}
  {history : List (GateEvent Thread)}

/-- What holds of a lock between the steps. -/
structure RwLock.Invariant (l : RwLock Thread) : Prop where
  allowed : ∀ t, (l.role t).Allows (l.gate.pc t)
  readers_eq : l.readers = (places Role.IsReader l.role).card % 2 ^ 32
  reading_le : (places (· = .reading) l.role).card ≤ l.gate.nowServing
  alone : ∀ t, (l.role t).IsWriter → ∀ t', ¬(l.role t').IsReader

lemma invariant_zero : (RwLock.zero : RwLock Thread).Invariant where
  allowed := fun _ => rfl
  readers_eq := by simp [RwLock.zero, places, Role.IsReader]
  reading_le := by simp [RwLock.zero, places]
  alone := fun t hwriter => by simp [RwLock.zero, Role.IsWriter] at hwriter

/-! ## Threads with the gate -/

variable {t : Thread} {pc : GatePc} {gate : Gate Thread}

lemma RwLock.Invariant.holds_of_isWriter (h : l.Invariant)
    (ht : (l.role t).IsWriter) : l.gate.Holds t := by
  have hallowed := h.allowed t
  rcases ht with hrole | hrole
  · rw [hrole] at hallowed
    exact holds_of_holding hallowed
  · rw [hrole] at hallowed
    exact hallowed

lemma RwLock.Invariant.holds_of_registered (h : l.Invariant)
    (ht : l.role t = .registered) : l.gate.Holds t := by
  have hallowed := h.allowed t
  rw [ht] at hallowed
  exact hallowed

/-! ## Steps -/

variable [DecidableEq Thread]

/-- A thread that plays a role and stands at a place of the gate that the role allows. -/
lemma RwLock.Invariant.allowed_update (h : l.Invariant) {role : Role}
    (hallows : role.Allows pc) (t' : Thread) :
    (Function.update l.role t role t').Allows (Function.update l.gate.pc t pc t') := by
  by_cases ht : t' = t
  · rw [ht, Function.update_self, Function.update_self]
    exact hallows
  · rw [Function.update_of_ne ht, Function.update_of_ne ht]
    exact h.allowed t'

/-- A step of a thread that does not become a reader or a writer, or stop to be a reader. -/
lemma RwLock.Invariant.quiet (h : l.Invariant) (role : Role)
    (hpc : gate.pc = Function.update l.gate.pc t pc)
    (hallows : role.Allows pc) (hserving : l.gate.nowServing ≤ gate.nowServing)
    (hreader : role.IsReader ↔ (l.role t).IsReader)
    (hreading : role = .reading ↔ l.role t = .reading)
    (hwriter : role.IsWriter → (l.role t).IsWriter) :
    RwLock.Invariant ⟨gate, l.readers, Function.update l.role t role⟩ := by
  constructor
  · intro t'
    rw [hpc]
    exact h.allowed_update hallows t'
  · rw [places_update_of_iff hreader]
    exact h.readers_eq
  · rw [places_update_of_iff hreading]
    exact h.reading_le.trans hserving
  · have hother : ∀ t', (Function.update l.role t role t').IsReader ↔ (l.role t').IsReader := by
      intro t'
      by_cases ht : t' = t
      · rw [ht, Function.update_self, hreader]
      · rw [Function.update_of_ne ht]
    intro t' ht' t''
    dsimp only at ht' ⊢
    rw [hother]
    by_cases ht : t' = t
    · rw [ht, Function.update_self] at ht'
      exact h.alone t (hwriter ht') t''
    · rw [Function.update_of_ne ht] at ht'
      exact h.alone t' ht' t''

/-- The same, for a thread that goes on with what it does. -/
lemma RwLock.Invariant.goOn (h : l.Invariant)
    (hpc : gate.pc = Function.update l.gate.pc t pc) (hallows : (l.role t).Allows pc)
    (hserving : l.gate.nowServing ≤ gate.nowServing) : RwLock.Invariant { l with gate := gate } := by
  have hquiet := h.quiet (l.role t) hpc hallows hserving Iff.rfl Iff.rfl id
  rwa [Function.update_eq_self] at hquiet

lemma RwLock.Invariant.register (h : l.Invariant) (hgate : GateRun history l.gate)
    (hrole : l.role t = .readLock) (hpc : l.gate.pc t = .holding) :
    RwLock.Invariant { l.play t .registered with readers := (l.readers + 1) % 2 ^ 32 } := by
  have hallowed : ∀ t', (Function.update l.role t .registered t').Allows (l.gate.pc t') := by
    have hallows : Role.Allows .registered (l.gate.pc t) := by simp [Role.Allows, hpc]
    have hupdate := h.allowed_update (t := t) hallows
    rwa [Function.update_eq_self] at hupdate
  constructor
  · exact hallowed
  · have hcard := card_places_update_add (f := l.role) (a := t) (b := Role.registered)
      (p := Role.IsReader) (.inl rfl) (by simp [Role.IsReader, hrole])
    have heq := h.readers_eq
    simp only [RwLock.play, hcard]
    omega
  · have hsame := places_update_of_iff (f := l.role) (a := t) (b := Role.registered)
      (p := (· = .reading)) (by simp [hrole])
    simp only [RwLock.play, hsame]
    exact h.reading_le
  · intro t' ht'
    by_cases ht : t' = t
    · simp [RwLock.play, ht, Role.IsWriter] at ht'
    · have hwriter : (l.role t').IsWriter := by
        simpa [RwLock.play, Function.update_of_ne ht] using ht'
      exact absurd (hgate.exclusive (h.holds_of_isWriter hwriter) (holds_of_holding hpc)) ht

/-- A reader that leaves the gate. -/
lemma RwLock.Invariant.readStore (h : l.Invariant)
    (hrole : l.role t = .registered) (hpc : gate.pc = Function.update l.gate.pc t .outside)
    (hserving : gate.nowServing = l.gate.nowServing + 1) :
    RwLock.Invariant { l.play t .reading with gate := gate } := by
  have hreaders : places Role.IsReader (Function.update l.role t .reading) =
      places Role.IsReader l.role :=
    places_update_of_iff (by simp [Role.IsReader, hrole])
  constructor
  · intro t'
    have hallows : Role.Allows .reading .outside := rfl
    simp only [RwLock.play, hpc]
    exact h.allowed_update hallows t'
  · simp only [RwLock.play, hreaders]
    exact h.readers_eq
  · have hcard := card_places_update_add (f := l.role) (a := t) (b := Role.reading)
      (p := (· = .reading)) rfl (by simp [hrole])
    have hle := h.reading_le
    simp only [RwLock.play, hcard]
    omega
  · intro t' ht'
    by_cases ht : t' = t
    · simp [RwLock.play, ht, Role.IsWriter] at ht'
    · have hwriter : (l.role t').IsWriter := by
        simpa [RwLock.play, Function.update_of_ne ht] using ht'
      exact absurd (.inl hrole) (h.alone t' hwriter t)

lemma RwLock.Invariant.readUnlock (h : l.Invariant) (hrole : l.role t = .reading) :
    RwLock.Invariant
      { l.play t .idle with readers := (l.readers + (2 ^ 32 - 1)) % 2 ^ 32 } := by
  constructor
  · have hallows : Role.Allows .idle (l.gate.pc t) := by
      have hallowed := h.allowed t
      rw [hrole] at hallowed
      exact hallowed
    have hupdate := h.allowed_update (t := t) hallows
    rwa [Function.update_eq_self] at hupdate
  · have hcard := card_places_update_sub (f := l.role) (a := t) (b := Role.idle)
      (p := Role.IsReader) (by simp [Role.IsReader]) (.inr hrole)
    have heq := h.readers_eq
    simp only [RwLock.play]
    omega
  · have hcard := card_places_update_sub (f := l.role) (a := t) (b := Role.idle)
      (p := (· = .reading)) (by simp) hrole
    have hle := h.reading_le
    simp only [RwLock.play]
    omega
  · intro t' ht'
    by_cases ht : t' = t
    · simp [RwLock.play, ht, Role.IsWriter] at ht'
    · have hwriter : (l.role t').IsWriter := by
        simpa [RwLock.play, Function.update_of_ne ht] using ht'
      exact absurd (.inr hrole) (h.alone t' hwriter t)

/-- **A writer that reads zero is alone.** -/
lemma RwLock.Invariant.drained (h : l.Invariant) (hgate : GateRun history l.gate)
    (hrole : l.role t = .writeLock) (hpc : l.gate.pc t = .holding) (hzero : l.readers = 0) :
    (l.play t .writing).Invariant := by
  -- the thread has the gate, so every reader has left it and was counted by the releases
  have hall : places Role.IsReader l.role = places (· = .reading) l.role := by
    ext t'
    rw [mem_places, mem_places]
    refine ⟨fun hreader => ?_, .inr⟩
    rcases hreader with hregistered | hreading
    · have heq := hgate.exclusive (h.holds_of_registered hregistered) (holds_of_holding hpc)
      rw [heq, hrole] at hregistered
      exact absurd hregistered (by decide)
    · exact hreading
  have hnone : ∀ t', ¬(l.role t').IsReader := by
    obtain ⟨waiting, holder, hqueue⟩ := hgate.queue
    have hlt := hqueue.nowServing_lt
    have hle := h.reading_le
    have heq := h.readers_eq
    rw [hall] at heq
    have hcard : (places Role.IsReader l.role).card = 0 := by
      rw [hall]
      omega
    intro t' hreader
    exact absurd (mem_places.mpr hreader) (by simp [Finset.card_eq_zero.mp hcard])
  have hupdate : ∀ t', ¬(Function.update l.role t .writing t').IsReader := by
    intro t'
    by_cases ht : t' = t
    · rw [ht, Function.update_self]
      decide
    · rw [Function.update_of_ne ht]
      exact hnone t'
  constructor
  · have hallows : Role.Allows .writing (l.gate.pc t) := hpc
    have hallowed := h.allowed_update (t := t) hallows
    rwa [Function.update_eq_self] at hallowed
  · rw [RwLock.play, places_update_of_iff (by simp [Role.IsReader, hrole])]
    exact h.readers_eq
  · rw [RwLock.play, places_update_of_iff (by simp [hrole])]
    exact h.reading_le
  · exact fun _ _ => hupdate

/-- **A run keeps the invariant.** -/
theorem RwRun.invariant (h : RwRun history l) : l.Invariant := by
  induction h with
  | zero => exact invariant_zero
  | step hrun hstep _ ih =>
    have hgateRun := hrun.gate
    cases hstep with
    | readBegin hrole hgate | writeBegin hrole hgate =>
      cases hgate
      exact ih.quiet _ rfl (.inr ⟨_, rfl⟩) le_rfl (by simp [Role.IsReader, hrole]) (by simp [hrole])
        (by simp [Role.IsWriter])
    | wait hrole hgate =>
      cases hgate
      exact ih
    | acquire hrole hgate =>
      cases hgate
      refine ih.goOn rfl ?_ le_rfl
      rcases hrole with hrole | hrole
      · rw [hrole]
        exact .inl rfl
      · rw [hrole]
        exact .inl rfl
    | register hrole hpc => exact ih.register hgateRun hrole hpc
    | readLoad hrole hgate =>
      cases hgate
      refine ih.goOn rfl ?_ le_rfl
      rw [hrole]
      exact ⟨by simp, by simp⟩
    | readStore hrole hgate =>
      obtain ⟨waiting, holder, hqueue⟩ := hgateRun.queue
      cases hgate with
      | release ht hadd =>
        obtain ⟨-, rfl⟩ := checkedAdd_eq_some.mp hadd
        obtain rfl := hqueue.cur_eq ht
        exact ih.readStore hrole rfl rfl
    | readUnlock hrole => exact ih.readUnlock hrole
    | drain => exact ih
    | drained hrole hpc heq => exact ih.drained hgateRun hrole hpc heq
    | writeLoad hrole hgate =>
      cases hgate
      exact ih.quiet _ rfl ⟨by simp, by simp⟩ le_rfl (by simp [Role.IsReader, hrole])
        (by simp [hrole]) fun _ => .inl hrole
    | writeStore hrole hgate =>
      obtain ⟨waiting, holder, hqueue⟩ := hgateRun.queue
      cases hgate with
      | release ht hadd =>
        obtain ⟨-, rfl⟩ := checkedAdd_eq_some.mp hadd
        obtain rfl := hqueue.cur_eq ht
        exact ih.quiet _ rfl rfl (Nat.le_succ _) (by simp [Role.IsReader, hrole])
          (by simp [hrole]) (by simp [Role.IsWriter])
    | trap hrole hgate =>
      cases hgate
      refine ih.goOn rfl ?_ le_rfl
      rcases hrole with hrole | hrole
      · rw [hrole]
        exact ⟨by simp, by simp⟩
      · rw [hrole]
        exact ⟨by simp, by simp⟩

/-! ## Exclusion -/

/-- The threads between registration and `read_unlock`. -/
def RwLock.registered (l : RwLock Thread) : Finset Thread := places Role.IsReader l.role

/-- What the locks keep in every run. -/
structure LocksExclude (Thread : Type) [DecidableEq Thread] [Fintype Thread] : Prop where
  spinlock : ∀ {history : List (GateEvent Thread)} {g : Gate Thread}, GateRun history g →
    ∀ t t', g.Holds t → g.Holds t' → t = t'
  inOrder : ∀ {history : List (GateEvent Thread)} {g : Gate Thread}, GateRun history g →
    acquired history <:+ drawn history
  writers : ∀ {history : List (GateEvent Thread)} {l : RwLock Thread}, RwRun history l →
    ∀ t t', (l.role t).IsWriter → (l.role t').IsWriter → t = t'
  readersOut : ∀ {history : List (GateEvent Thread)} {l : RwLock Thread}, RwRun history l →
    ∀ t t', (l.role t).IsWriter → ¬(l.role t').IsReader

/-- **In every run a ticket lock has one holder at most and is given in the order of the tickets, a
writer excludes every other writer and every reader, and the reader count is the number of readers
up to wrap-around.** -/
theorem locks_exclude (Thread : Type) [DecidableEq Thread] [Fintype Thread] :
    LocksExclude Thread ∧
      ∀ {history : List (GateEvent Thread)} {l : RwLock Thread}, RwRun history l →
        l.readers = l.registered.card % 2 ^ 32 := by
  refine ⟨⟨?_, ?_, ?_, ?_⟩, fun h => h.invariant.readers_eq⟩
  · exact fun h t t' ht ht' => h.exclusive ht ht'
  · exact fun h => h.acquired_suffix
  · intro history l h t t' ht ht'
    exact h.gate.exclusive (h.invariant.holds_of_isWriter ht) (h.invariant.holds_of_isWriter ht')
  · exact fun h t t' ht => h.invariant.alone t ht t'

/-! ## The reader count wraps around -/

lemma card_outstanding_lt {g : Gate Thread}
    (h : ∀ t', t' ≠ t → g.pc t' = .outside) : g.outstanding.card < 2 ^ 32 := by
  have hsubset : g.outstanding ⊆ {t} := by
    intro t' ht'
    rw [Gate.outstanding, Finset.mem_filter_univ] at ht'
    by_contra hne
    exact ht' (h t' (by simpa using hne))
  have hle := Finset.card_le_card hsubset
  rw [Finset.card_singleton] at hle
  omega

/-- Readers that enter one after another. -/
def inside (count : ℕ) (t : Fin (2 ^ 32)) : Role := if t.val < count then .reading else .idle

/-- The first readers are inside. -/
def readersInside (count : ℕ) : RwLock (Fin (2 ^ 32)) :=
  ⟨⟨count, count, fun _ => .outside⟩, count, inside count⟩

/-- The next reader has registered and has the gate. -/
def readerRegistered (t : Fin (2 ^ 32)) : RwLock (Fin (2 ^ 32)) :=
  ⟨⟨(t.val + 1) % 2 ^ 32, t.val, Function.update (fun _ => .outside) t .holding⟩,
    (t.val + 1) % 2 ^ 32, Function.update (inside t.val) t .registered⟩

lemma exists_run_registered (t : Fin (2 ^ 32))
    (h : ∃ history, RwRun history (readersInside t.val)) :
    ∃ history, RwRun history (readerRegistered t) := by
  obtain ⟨history, hrun⟩ := h
  have hidle : (readersInside t.val).role t = .idle := if_neg (lt_irrefl _)
  have hbegin := RwRun.step hrun (.readBegin hidle (.draw rfl))
    (card_outstanding_lt (t := t) fun t' ht' => Function.update_of_ne ht' ..)
  have hacquire := RwRun.step hbegin
    (.acquire (.inl (Function.update_self ..)) (.acquire (Function.update_self ..) rfl))
    (card_outstanding_lt (t := t) fun t' ht' => by
      simp [Gate.moveTo, ht', readersInside])
  have hregister := RwRun.step hacquire
    (.register (Function.update_self ..) (Function.update_self ..))
    (card_outstanding_lt (t := t) fun t' ht' => by
      simp [Gate.moveTo, ht', readersInside, RwLock.play])
  simp only [readersInside, Gate.moveTo, RwLock.play, Function.update_idem] at hregister
  exact ⟨_, hregister⟩

lemma exists_run_inside {count : ℕ} (h : count < 2 ^ 32) :
    ∃ history, RwRun history (readersInside count) := by
  induction count with
  | zero =>
    have hidle : inside 0 = fun _ => .idle := funext fun t => if_neg (Nat.not_lt_zero t.val)
    have hzero : readersInside 0 = .zero := by
      rw [readersInside, hidle]
      rfl
    exact ⟨[], hzero ▸ .zero⟩
  | succ count ih =>
    obtain ⟨t, ht⟩ : ∃ t : Fin (2 ^ 32), t.val = count := ⟨⟨count, by omega⟩, rfl⟩
    obtain ⟨history, hrun⟩ := exists_run_registered t (ht ▸ ih (by omega))
    have hrole : (readerRegistered t).role t = .registered := Function.update_self ..
    have hpc : (readerRegistered t).gate.pc t = .holding := by simp [readerRegistered]
    have hload := RwRun.step hrun (.readLoad hrole (.load hpc))
      (card_outstanding_lt (t := t) fun t' ht' => by simp [Gate.moveTo, ht', readerRegistered])
    have hadd : checkedAdd 32 t.val 1 = some (count + 1) :=
      checkedAdd_eq_some.mpr ⟨ht ▸ h, by rw [ht]⟩
    have hstore := RwRun.step hload
      (.readStore hrole (.release (Function.update_self ..) hadd))
      (card_outstanding_lt (t := t) fun t' ht' => by simp [Gate.moveTo, readerRegistered])
    have hinside : Function.update (inside count) t .reading = inside (count + 1) := by
      funext t'
      by_cases heq : t' = t
      · simp [heq, inside, ht]
      · have hne : t'.val ≠ count := fun hval => heq (Fin.ext (hval.trans ht.symm))
        have hiff : t'.val < count ↔ t'.val < count + 1 := by omega
        simp [heq, inside, hiff]
    have hmod : (count + 1) % 2 ^ 32 = count + 1 := Nat.mod_eq_of_lt h
    simp only [readerRegistered, Gate.moveTo, RwLock.play, Function.update_idem, ht, hinside,
      hmod] at hstore
    rw [Function.update_eq_self_iff.mpr rfl] at hstore
    exact ⟨_, hstore⟩

/-- One reader is counted. -/
theorem locks_exclude_reader :
    (readersInside 1).readers = (readersInside 1).registered.card % 2 ^ 32 := by
  obtain ⟨history, hrun⟩ := exists_run_inside (by omega : 1 < 2 ^ 32)
  exact (locks_exclude (Fin (2 ^ 32))).2 hrun

/-- **With 2³² readers inside the count is zero.** -/
theorem readers_ne_card :
    ¬∀ {history : List (GateEvent (Fin (2 ^ 32)))} {l : RwLock (Fin (2 ^ 32))}, RwRun history l →
      l.readers = l.registered.card := by
  intro hall
  obtain ⟨t, ht⟩ : ∃ t : Fin (2 ^ 32), t.val = 2 ^ 32 - 1 := ⟨⟨2 ^ 32 - 1, by omega⟩, rfl⟩
  obtain ⟨history, hrun⟩ :=
    exists_run_registered t (ht ▸ exists_run_inside (by omega))
  have heq := hall hrun
  have hreaders : (readerRegistered t).readers = 0 := by
    simp [readerRegistered, ht]
  have hfull : (readerRegistered t).registered = Finset.univ := by
    ext t'
    rw [RwLock.registered, mem_places]
    refine iff_of_true ?_ (Finset.mem_univ t')
    by_cases hself : t' = t
    · rw [hself]
      exact .inl (Function.update_self ..)
    · have hlt : t'.val < t.val := by
        have hne : t'.val ≠ t.val := fun hval => hself (Fin.ext hval)
        have hbound := t'.isLt
        omega
      refine .inr ?_
      simp [readerRegistered, hself, inside, hlt]
  rw [hreaders, hfull, Finset.card_univ, Fintype.card_fin] at heq
  exact absurd heq (by omega)

end ModernC.Sync
