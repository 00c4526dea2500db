import Mathlib.Tactic.Push

/-!
# Runs with guarded steps

A run of a program on a host whose operations can fail.  The run notes the steps that stand in front
of such an operation, and it stops the host exactly where a step it notes is not safe.  A run of a
recursive program is also bounded in depth; one that reaches the bound has no ending yet.
-/

namespace ModernC.Framework

/-- How a run ends: with a result, by stopping the host, or not within its bound. -/
inductive Ending (α : Type) where
  | done (result : α)
  | panicked
  | unfinished

instance {α : Type} (ending : Ending α) : Decidable (ending = .panicked) :=
  match ending with
  | .done _ => isFalse (by simp)
  | .panicked => isTrue rfl
  | .unfinished => isFalse (by simp)

/-- A run that notes its guarded steps and **stops the host exactly by an unsafe one**. -/
structure GuardedRun (ε : Type) (Safe : ε → Prop) (α : Type) where
  steps : List ε
  ending : Ending α
  panicked_iff : ending = .panicked ↔ ∃ step ∈ steps, ¬ Safe step

namespace GuardedRun

variable {ε α β : Type} {Safe : ε → Prop}

def done (result : α) : GuardedRun ε Safe α where
  steps := []
  ending := .done result
  panicked_iff := ⟨fun h => by simp at h, fun h => by simp at h⟩

/-- The run that has not ended within its bound. -/
def unfinished : GuardedRun ε Safe α where
  steps := []
  ending := .unfinished
  panicked_iff := ⟨fun h => by simp at h, fun h => by simp at h⟩

/-! ## Sequences -/

def stepsThen (run : GuardedRun ε Safe α) (next : α → GuardedRun ε Safe β) : List ε :=
  match run.ending with
  | .done result => run.steps ++ (next result).steps
  | _ => run.steps

def endingThen (run : GuardedRun ε Safe α) (next : α → GuardedRun ε Safe β) : Ending β :=
  match run.ending with
  | .done result => (next result).ending
  | .panicked => .panicked
  | .unfinished => .unfinished

/-- A sequence stops the host by a step of its first part, or by one of the rest. -/
lemma endingThen_panicked_iff (run : GuardedRun ε Safe α) (next : α → GuardedRun ε Safe β) :
    endingThen run next = .panicked ↔ ∃ step ∈ stepsThen run next, ¬ Safe step := by
  have hrun := run.panicked_iff
  unfold endingThen stepsThen
  cases h : run.ending with
  | done result =>
    rw [h] at hrun
    have hsafe : ¬ ∃ step ∈ run.steps, ¬ Safe step := fun hex => by simpa using hrun.mpr hex
    simp only [(next result).panicked_iff, List.mem_append]
    constructor
    · rintro ⟨step, hmem, hunsafe⟩
      exact ⟨step, .inr hmem, hunsafe⟩
    · rintro ⟨step, hmem | hmem, hunsafe⟩
      · exact absurd ⟨step, hmem, hunsafe⟩ hsafe
      · exact ⟨step, hmem, hunsafe⟩
  | panicked | unfinished => simpa [h] using hrun

instance : Monad (GuardedRun ε Safe) where
  pure := done
  bind run next := ⟨stepsThen run next, endingThen run next, endingThen_panicked_iff run next⟩

/-! ## Host operations -/

def endingOf : Option α → Ending α
  | some result => .done result
  | none => .panicked

/-- A step that notes what it works on; it stops the host where it has no result. -/
def attempt (step : ε) (result : Option α) (h : result = none ↔ ¬ Safe step) :
    GuardedRun ε Safe α where
  steps := [step]
  ending := endingOf result
  panicked_iff := by
    simp only [List.mem_singleton, exists_eq_left, ← h]
    cases result <;> simp [endingOf]

/-- An operation that always has a result, although its parts could stop the host. -/
def certain (result : Option α) (h : result ≠ none) : GuardedRun ε Safe α where
  steps := []
  ending := endingOf result
  panicked_iff := by
    cases result with
    | none => exact absurd rfl h
    | some => simp [endingOf]

/-! ## Results -/

variable {run : GuardedRun ε Safe α} {next : α → GuardedRun ε Safe β} {a : α} {b : β}

@[simp]
lemma ending_pure (a : α) : (pure a : GuardedRun ε Safe α).ending = .done a := rfl

@[simp]
lemma ending_done (a : α) : (done a : GuardedRun ε Safe α).ending = .done a := rfl

@[simp]
lemma ending_unfinished : (unfinished : GuardedRun ε Safe α).ending = .unfinished := rfl

lemma ending_bind_of_done (h : run.ending = .done a) :
    (run >>= next).ending = (next a).ending := by
  show endingThen run next = _
  rw [endingThen, h]

/-- A sequence with a result has a first part with a result. -/
lemma bind_done_iff :
    (run >>= next).ending = .done b ↔
      ∃ a, run.ending = .done a ∧ (next a).ending = .done b := by
  show endingThen run next = _ ↔ _
  unfold endingThen
  cases run.ending <;> simp

variable {result : Option α}

lemma certain_done_iff {h : result ≠ none} :
    (certain result h : GuardedRun ε Safe α).ending = .done a ↔ result = some a := by
  show endingOf result = _ ↔ _
  cases result <;> simp [endingOf]

lemma attempt_done_iff {step : ε} {h : result = none ↔ ¬ Safe step} :
    (attempt step result h : GuardedRun ε Safe α).ending = .done a ↔ result = some a := by
  show endingOf result = _ ↔ _
  cases result <;> simp [endingOf]

/-- A run that ended within its bound has a result exactly if every step it noted is safe. -/
lemma exists_done_iff (h : run.ending ≠ .unfinished) :
    (∃ a, run.ending = .done a) ↔ ∀ step ∈ run.steps, Safe step := by
  have hpanicked := run.panicked_iff
  cases hending : run.ending with
  | done a =>
    have hsafe : ¬ ∃ step ∈ run.steps, ¬ Safe step := fun hex => by
      simpa [hending] using hpanicked.mpr hex
    push Not at hsafe
    exact ⟨fun _ => hsafe, fun _ => ⟨a, rfl⟩⟩
  | panicked =>
    obtain ⟨step, hmem, hunsafe⟩ := hpanicked.mp hending
    constructor
    · rintro ⟨a, ha⟩
      cases ha
    · intro hsafe
      exact absurd (hsafe step hmem) hunsafe
  | unfinished => exact absurd hending h

/-! ## Bounds -/

/-- The run ended within its bound, and its result is as wanted where it has one. -/
def Ends (post : α → Prop) (run : GuardedRun ε Safe α) : Prop :=
  run.ending ≠ .unfinished ∧ ∀ a, run.ending = .done a → post a

/-- Two runs are the same and end as wanted. -/
def Agree (post : α → Prop) (run run' : GuardedRun ε Safe α) : Prop := run = run' ∧ Ends post run

variable {post post' : α → Prop} {run' : GuardedRun ε Safe α}

lemma Ends.mono (h : Ends post run) (hpost : ∀ a, post a → post' a) : Ends post' run :=
  ⟨h.1, fun a ha => hpost a (h.2 a ha)⟩

lemma Agree.mono (h : Agree post run run') (hpost : ∀ a, post a → post' a) :
    Agree post' run run' := ⟨h.1, h.2.mono hpost⟩

lemma Agree.refl (h : Ends post run) : Agree post run run := ⟨rfl, h⟩

lemma Ends.pure (h : post a) : Ends post (pure a : GuardedRun ε Safe α) :=
  ⟨by simp, fun b hb => by simp only [ending_pure, Ending.done.injEq] at hb; exact hb ▸ h⟩

lemma Agree.pure (h : post a) : Agree post (pure a : GuardedRun ε Safe α) (Pure.pure a) :=
  .refl (.pure h)

lemma ends_endingOf : endingOf result ≠ .unfinished := by
  cases result <;> simp [endingOf]

lemma Ends.certain (result : Option α) (h : result ≠ none) :
    Ends (fun _ => True) (certain result h : GuardedRun ε Safe α) :=
  ⟨ends_endingOf, fun _ _ => trivial⟩

lemma Ends.attempt (step : ε) (result : Option α) (h : result = none ↔ ¬ Safe step) :
    Ends (fun _ => True) (attempt step result h : GuardedRun ε Safe α) :=
  ⟨ends_endingOf, fun _ _ => trivial⟩

/-- **The rule for sequences**. -/
lemma Agree.bind {goal : β → Prop} {next' : α → GuardedRun ε Safe β}
    (hrun : Agree post run run') (hnext : ∀ a, post a → Agree goal (next a) (next' a)) :
    Agree goal (run >>= next) (run' >>= next') := by
  obtain ⟨rfl, hfinished, hpost⟩ := hrun
  cases h : run.ending with
  | done a =>
    obtain ⟨heq, hends⟩ := hnext a (hpost a h)
    refine ⟨?_, ?_⟩
    · show (⟨_, _, _⟩ : GuardedRun ε Safe β) = ⟨_, _, _⟩
      simp only [stepsThen, endingThen, h, heq]
    · show endingThen run next ≠ _ ∧ ∀ b, endingThen run next = _ → goal b
      simp only [endingThen, h]
      exact hends
  | panicked =>
    refine ⟨?_, ?_⟩
    · show (⟨_, _, _⟩ : GuardedRun ε Safe β) = ⟨_, _, _⟩
      simp only [stepsThen, endingThen, h]
    · show endingThen run next ≠ _ ∧ ∀ b, endingThen run next = _ → goal b
      simp [endingThen, h]
  | unfinished => exact absurd h hfinished

/-- The rule for sequences of one run. -/
lemma Ends.bind {goal : β → Prop} (hrun : Ends post run)
    (hnext : ∀ a, post a → Ends goal (next a)) : Ends goal (run >>= next) :=
  (Agree.bind (.refl hrun) fun a ha => .refl (hnext a ha)).2

end GuardedRun

end ModernC.Framework
