import Mathlib.Tactic.Lemma

/-!
# Programs over operations on a world

A program performs operations and goes on by their answers.  A `World` says which answers and
next states an operation may have, so that one program has many runs.  `Meets` is what a
program guarantees: a property of every state on the way and of every result.
-/

namespace ModernC.Framework

/-- A program over operations with answers. -/
inductive Program (Op : Type) (Answer : Op → Type) (α : Type) where
  | done (value : α)
  | perform (op : Op) (next : Answer op → Program Op Answer α)

/-- What an operation may answer and do in a state. -/
abbrev World (Op : Type) (Answer : Op → Type) (σ : Type) : Type :=
  (op : Op) → σ → Answer op → σ → Prop

namespace Program

variable {Op : Type} {Answer : Op → Type} {σ α β ε : Type}

def bind : Program Op Answer α → (α → Program Op Answer β) → Program Op Answer β
  | done value, f => f value
  | perform op next, f => perform op fun answer => (next answer).bind f

instance : Monad (Program Op Answer) where
  pure := done
  bind := bind

/-- The operation itself. -/
def operation (op : Op) : Program Op Answer (Answer op) := perform op done

/-! ## Runs -/

/-- `Reaches world p s q s'`: after some operations of `p` from `s`, `q` is left in `s'`. -/
inductive Reaches (world : World Op Answer σ) :
    Program Op Answer α → σ → Program Op Answer α → σ → Prop
  | start (program : Program Op Answer α) (state : σ) : Reaches world program state program state
  | step {op next state answer state' rest last} (acts : world op state answer state')
      (reaches : Reaches world (next answer) state' rest last) :
      Reaches world (.perform op next) state rest last

/-! ## Guarantees -/

/-- Every state on the way satisfies `inv`, and every result and last state `post`. -/
def Meets (world : World Op Answer σ) (inv : σ → Prop) (post : α → σ → Prop) :
    Program Op Answer α → σ → Prop
  | done value, state => inv state ∧ post value state
  | perform op next, state => inv state ∧
      ∀ answer state', world op state answer state' →
        (next answer).Meets world inv post state'

variable {world : World Op Answer σ} {inv : σ → Prop} {state state' : σ}

variable {post : α → σ → Prop} {program : Program Op Answer α}

theorem Meets.holds (h : program.Meets world inv post state) : inv state:= by
  cases program with
  | done | perform => exact h.1

/-- The guarantee is kept along a run. -/
theorem Meets.reaches {rest : Program Op Answer α}
    (hreaches : Reaches world program state rest state')
    (h : program.Meets world inv post state) : rest.Meets world inv post state' := by
  induction hreaches with
  | start => exact h
  | step hacts _ ih => exact ih (h.2 _ _ hacts)

theorem Meets.mono {post' : α → σ → Prop} (h : program.Meets world inv post state)
    (hpost : ∀ value last, inv last → post value last → post' value last) :
    program.Meets world inv post' state := by
  induction program generalizing state with
  | done value => exact ⟨h.1, hpost value state h.1 h.2⟩
  | perform op next ih => exact ⟨h.1, fun answer last hacts => ih answer (h.2 answer last hacts)⟩

theorem meets_pure {value : α} (hinv : inv state) (hpost : post value state) :
    (pure value : Program Op Answer α).Meets world inv post state :=
  ⟨hinv, hpost⟩

/-- The rule for sequences. -/
theorem meets_bind {post : β → σ → Prop} {f : α → Program Op Answer β}
    (h : program.Meets world inv (fun value last => (f value).Meets world inv post last)
      state) :
    (program >>= f).Meets world inv post state := by
  induction program generalizing state with
  | done value => exact h.2
  | perform op next ih => exact ⟨h.1, fun answer last hacts => ih answer (h.2 answer last hacts)⟩

/-! ## Programs that may fail -/

/-- A condition on a result, by whether it is a value or an error. -/
def outcome (onValue : α → Prop) (onError : ε → Prop) : Except ε α → Prop
  | .ok value => onValue value
  | .error error => onError error

@[simp] lemma outcome_ok (onValue : α → Prop) (onError : ε → Prop) (value : α) :
    outcome onValue onError (.ok value) = onValue value := rfl

@[simp] lemma outcome_error (onValue : α → Prop) (onError : ε → Prop) (error : ε) :
    outcome onValue onError (.error error : Except ε α) = onError error := rfl

variable {post : Except ε α → σ → Prop}

theorem meets_ok {value : α} (hinv : inv state) (hpost : post (.ok value) state) :
    Meets world inv post (pure value : ExceptT ε (Program Op Answer) α).run state :=
  ⟨hinv, hpost⟩

theorem meets_throw {error : ε} (hinv : inv state) (hpost : post (.error error) state) :
    Meets world inv post (throw error : ExceptT ε (Program Op Answer) α).run state :=
  ⟨hinv, hpost⟩

/-- The rule for sequences of programs that may fail: an error ends the sequence. -/
theorem meets_exceptBind {post : Except ε β → σ → Prop}
    {program : ExceptT ε (Program Op Answer) α} {f : α → ExceptT ε (Program Op Answer) β}
    (h : Meets world inv
      (fun result last => outcome (fun value => Meets world inv post (f value).run last)
        (fun error => post (.error error) last) result) program.run state) :
    Meets world inv post (program >>= f).run state := by
  refine meets_bind (h.mono fun result last hinv hresult => ?_)
  cases result with
  | ok value => exact hresult
  | error error => exact meets_pure hinv hresult

/-- The rule for handlers. -/
theorem meets_tryCatch {program : ExceptT ε (Program Op Answer) α}
    {handle : ε → ExceptT ε (Program Op Answer) α} (h : Meets world inv
      (fun result last => outcome (fun value => post (.ok value) last)
        (fun error => Meets world inv post (handle error).run last) result) program.run state) :
    Meets world inv post (tryCatch program handle).run state := by
  refine meets_bind (h.mono fun result last hinv hresult => ?_)
  cases result with
  | ok value => exact meets_pure hinv hresult
  | error error => exact hresult

end Program

end ModernC.Framework
