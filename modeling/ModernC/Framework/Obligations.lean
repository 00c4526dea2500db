import Mathlib.Data.List.Induction
import Mathlib.Data.List.Nodup

/-!
# Checks that may fail

A verifier is a sequence of checks, each of which passes or reports an error.  These rules
read off what a passed check, a passed loop of checks and a passed fold have established.
-/

namespace ModernC.Framework

variable {ε α β : Type}

/-- Pass if the condition holds, report the error otherwise. -/
def ensure (condition : Bool) (error : ε) : Except ε Unit :=
  if condition then .ok () else .error error

@[simp] lemma ensure_eq_ok {condition : Bool} {error : ε} {result : Unit} :
    ensure condition error = .ok result ↔ condition = true := by
  unfold ensure
  split <;> simp_all

variable {b : β} {xs : List α}

lemma exceptBind_eq_ok {x : Except ε α} {f : α → Except ε β} :
    x >>= f = .ok b ↔ ∃ a, x = .ok a ∧ f a = .ok b := by
  cases x <;> simp [bind, Except.bind]

/-- A loop of checks passes exactly when every check does. -/
lemma forM_eq_ok {f : α → Except ε Unit} {result : Unit} :
    xs.forM f = .ok result ↔ ∀ x ∈ xs, f x = .ok () := by
  induction xs with
  | nil => exact iff_of_true rfl (by simp)
  | cons x xs ih =>
    rw [List.forM, exceptBind_eq_ok, List.forall_mem_cons]
    constructor
    · rintro ⟨result', hx, hxs⟩
      exact ⟨hx, ih.mp hxs⟩
    · rintro ⟨hx, hxs⟩
      exact ⟨(), hx, ih.mpr hxs⟩

/-- A fold over two lists passes exactly when it passes over the first and then the second. -/
lemma foldlM_append_eq_ok {f : β → α → Except ε β} {c : β} {ys : List α} :
    (xs ++ ys).foldlM f b = .ok c ↔
      ∃ middle, xs.foldlM f b = .ok middle ∧ ys.foldlM f middle = .ok c := by
  rw [List.foldlM_append, exceptBind_eq_ok]

/-- A fold that succeeds has passed each element, from where the elements before it led. -/
lemma foldlM_at {f : β → α → Option β} {n : ℕ} {x : α} {c : β}
    (hfold : xs.foldlM f b = some c) (hget : xs[n]? = some x) :
    ∃ before after, (xs.take n).foldlM f b = some before ∧ f before x = some after := by
  induction xs generalizing n b with
  | nil => cases hget
  | cons y ys ih =>
    rw [List.foldlM_cons] at hfold
    obtain ⟨next, hstep, hrest⟩ := Option.bind_eq_some_iff.mp hfold
    cases n with
    | zero =>
      rw [List.getElem?_cons_zero] at hget
      rw [← Option.some.inj hget]
      exact ⟨b, next, rfl, hstep⟩
    | succ n =>
      rw [List.getElem?_cons_succ] at hget
      obtain ⟨before, after, htake, hx⟩ := ih hrest hget
      refine ⟨before, after, ?_, hx⟩
      rw [List.take_succ_cons, List.foldlM_cons, hstep]
      exact htake

end ModernC.Framework

/-!
## Registered and run obligations

A trace in which actions are registered and run.  `pending` lists the registrations not yet
run, the newest first; a trace is **last in first out** if every run takes the newest one,
and its runs are **fresh** if each action was registered since it last ran.  Freshness is
not part of the order: an action registered twice and run twice is in order but not fresh.
-/

namespace ModernC.Framework

/-- An action is registered or run. -/
inductive ObligationEvent (α : Type*) where
  | registered (action : α)
  | ran (action : α)

namespace ObligationEvent

variable {α : Type*} [DecidableEq α]

/-- What an event leaves pending. -/
def note (pending : List α) : ObligationEvent α → List α
  | .registered action => action :: pending
  | .ran action => pending.erase action

/-- The registrations a trace has not run, the newest first. -/
def pending (trace : List (ObligationEvent α)) : List α := trace.foldl note []

/-- Every run takes the newest registration not yet run. -/
def LastInFirstOut (trace : List (ObligationEvent α)) : Prop :=
  ∀ before action after, trace = before ++ .ran action :: after →
    (pending before).head? = some action

/-- Every run of an action follows a registration of it with no run in between. -/
def RunsFresh (trace : List (ObligationEvent α)) : Prop :=
  ∀ before action after, trace = before ++ .ran action :: after →
    ∃ earlier since, before = earlier ++ .registered action :: since ∧ .ran action ∉ since

@[simp] lemma pending_nil : pending ([] : List (ObligationEvent α)) = [] := rfl

lemma pending_snoc (trace : List (ObligationEvent α)) (event : ObligationEvent α) :
    pending (trace ++ [event]) = note (pending trace) event := by
  rw [pending, List.foldl_append]
  rfl

lemma lastInFirstOut_nil : LastInFirstOut ([] : List (ObligationEvent α)) := by
  intro before action after h
  exact absurd h (by simp)

variable {trace : List (ObligationEvent α)} {action : α}

omit [DecidableEq α] in
/-- An event of a longer trace is one of the shorter trace or the last one. -/
lemma split_snoc {before after : List (ObligationEvent α)} {last event}
    (h : trace ++ [last] = before ++ event :: after) :
    (∃ after', trace = before ++ event :: after') ∨ before = trace ∧ event = last := by
  rcases List.eq_nil_or_concat after with rfl | ⟨after', final, rfl⟩
  · have hlast := List.append_inj' h rfl
    exact Or.inr ⟨hlast.1.symm, (List.singleton_inj.mp hlast.2).symm⟩
  · rw [List.concat_eq_append, ← List.cons_append, ← List.append_assoc] at h
    exact Or.inl ⟨after', (List.append_inj' h rfl).1⟩

lemma LastInFirstOut.registered (h : LastInFirstOut trace)
    (action : α) : LastInFirstOut (trace ++ [.registered action]) := by
  intro before ran after hsplit
  rcases split_snoc hsplit with ⟨after', htrace⟩ | ⟨-, hevent⟩
  · exact h before ran after' htrace
  · cases hevent

lemma LastInFirstOut.ran (h : LastInFirstOut trace)
    (hnewest : (pending trace).head? = some action) :
    LastInFirstOut (trace ++ [.ran action]) := by
  intro before ran after hsplit
  rcases split_snoc hsplit with ⟨after', htrace⟩ | ⟨rfl, hevent⟩
  · exact h before ran after' htrace
  · cases hevent
    exact hnewest

/-! ## Traces that register an action once at a time -/

/-- No action is registered while an earlier registration of it is pending. -/
def RegistersOnce (trace : List (ObligationEvent α)) : Prop :=
  ∀ before action after, trace = before ++ .registered action :: after →
    action ∉ pending before

lemma registersOnce_nil : RegistersOnce ([] : List (ObligationEvent α)) := by
  intro before action after h
  exact absurd h (by simp)

lemma RegistersOnce.registered (h : RegistersOnce trace) (hnew : action ∉ pending trace) :
    RegistersOnce (trace ++ [.registered action]) := by
  intro before registered after hsplit
  rcases split_snoc hsplit with ⟨after', htrace⟩ | ⟨rfl, hevent⟩
  · exact h before registered after' htrace
  · cases hevent
    exact hnew

lemma RegistersOnce.ran (h : RegistersOnce trace)
    (action : α) : RegistersOnce (trace ++ [.ran action]) := by
  intro before registered after hsplit
  rcases split_snoc hsplit with ⟨after', htrace⟩ | ⟨-, hevent⟩
  · exact h before registered after' htrace
  · cases hevent

lemma RegistersOnce.of_snoc {event : ObligationEvent α}
    (h : RegistersOnce (trace ++ [event])) : RegistersOnce trace := by
  intro before action after hsplit
  exact h before action (after ++ [event]) (by simp [hsplit])

lemma RegistersOnce.nodup_pending (h : RegistersOnce trace) :
    (pending trace).Nodup := by
  induction trace using List.reverseRecOn with
  | nil => exact List.nodup_nil
  | append_singleton trace event ih =>
    have hnodup := ih h.of_snoc
    rw [pending_snoc]
    cases event with
    | registered action => exact List.nodup_cons.mpr ⟨h trace action [] rfl, hnodup⟩
    | ran action => exact hnodup.erase action

/-- A pending action was registered after it last ran. -/
lemma RegistersOnce.registered_since (h : RegistersOnce trace) (hpending : action ∈ pending trace) :
    ∃ earlier since, trace = earlier ++ .registered action :: since ∧ .ran action ∉ since := by
  induction trace using List.reverseRecOn with
  | nil => cases hpending
  | append_singleton trace event ih =>
    rw [pending_snoc] at hpending
    have hearlier : action ∈ pending trace → event ≠ .ran action →
        ∃ earlier since, trace ++ [event] = earlier ++ .registered action :: since ∧
          .ran action ∉ since := by
      intro hmem hevent
      obtain ⟨earlier, since, htrace, hsince⟩ := ih h.of_snoc hmem
      refine ⟨earlier, since ++ [event], by simp [htrace], ?_⟩
      simpa [hsince] using fun heq => hevent heq.symm
    cases event with
    | registered other =>
      by_cases heq : action = other
      · exact ⟨trace, [], by rw [heq], List.not_mem_nil⟩
      · exact hearlier (List.mem_of_ne_of_mem heq hpending) (by simp)
    | ran other =>
      have hne : action ≠ other := by
        rintro rfl
        exact h.of_snoc.nodup_pending.not_mem_erase hpending
      exact hearlier (List.mem_of_mem_erase hpending) (by simpa using fun heq => hne heq.symm)

/-- In order and registered once at a time, every run is fresh. -/
theorem RegistersOnce.runsFresh (honce : RegistersOnce trace)
    (horder : LastInFirstOut trace) : RunsFresh trace := by
  intro before action after htrace
  have hbefore : RegistersOnce before := by
    intro earlier registered since hsplit
    exact honce earlier registered (since ++ .ran action :: after) (by simp [htrace, hsplit])
  have hnewest := horder before action after htrace
  exact hbefore.registered_since (List.mem_of_mem_head? hnewest)

end ObligationEvent

end ModernC.Framework
