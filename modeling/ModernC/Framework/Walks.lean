import Mathlib.Data.List.Chain
import Mathlib.Data.Set.Basic

/-!
# Runs of a transition system

A run is a sequence of states, the first of them initial and each next one reached by a step.
What holds initially and is kept by every step holds in every state of a run.
-/

namespace ModernC.Framework

variable {σ : Type*} {initial : σ → Prop} {step : σ → σ → Prop}

/-- `IsRun initial step states`: the states follow one another by steps from an initial one. -/
structure IsRun (initial : σ → Prop) (step : σ → σ → Prop) (states : List σ) : Prop where
  start : ∀ state, states.head? = some state → initial state
  steps : states.IsChain step

/-- The invariant rule for runs. -/
theorem IsRun.invariant {P : σ → Prop} (h0 : ∀ state, initial state → P state)
    (hstep : ∀ state next, P state → step state next → P next) {states : List σ}
    (hrun : IsRun initial step states) : ∀ state ∈ states, P state := by
  obtain ⟨hstart, hsteps⟩ := hrun
  have hhead : ∀ state, states.head? = some state → P state :=
    fun state hstate => h0 state (hstart state hstate)
  clear hstart
  induction hsteps with
  | nil => simp
  | singleton state =>
    intro state' hmem
    rw [List.mem_singleton.mp hmem]
    exact hhead state rfl
  | @cons_cons state next rest hnext hrest ih =>
    intro state' hmem
    rcases List.mem_cons.mp hmem with rfl | hmem
    · exact hhead state' rfl
    · refine ih (fun first hfirst => ?_) state' hmem
      rw [← Option.some.inj hfirst]
      exact hstep state next (hhead state rfl) hnext

end ModernC.Framework

/-!
## Walks through a directed graph

A walk is recorded by the nodes it has already left and the node it stands on, so that a
forward analysis can speak about "the state on arrival at `v`" without naming the events
of `v` itself.  `Walk.rec`-style induction grows a walk at its end, in execution order.

For graphs on `ℕ` the number of *turns* of a walk counts the steps that do not go to a
larger node.  It is the number of times a left-to-right sweep has to be repeated before it
has followed the walk to its end (`ModernC.Framework.Sweep`).
-/

namespace ModernC.Framework

variable {α σ : Type*}

/-- `Walk edge start p v`: leaving the nodes `p` in this order leads from `start` to `v`. -/
inductive Walk (edge : α → α → Prop) (start : α) : List α → α → Prop
  | nil : Walk edge start [] start
  | snoc {p : List α} {u v : α} : Walk edge start p u → edge u v →
      Walk edge start (p ++ [u]) v

namespace Walk

variable {edge : α → α → Prop} {start : α}

/-- Every node a walk has left satisfies what every edge source satisfies. -/
lemma forall_mem_left {Q : α → Prop} (hQ : ∀ u v, edge u v → Q u)
    {p : List α} {v : α} (h : Walk edge start p v) : ∀ u ∈ p, Q u := by
  induction h with
  | nil => simp
  | snoc _ he ih =>
    intro w hw
    rcases List.mem_append.mp hw with hw | hw
    · exact ih w hw
    · rw [List.mem_singleton.mp hw]
      exact hQ _ _ he

/-- A walk is either still at its start or has a last edge. -/
lemma eq_nil_or_snoc {p : List α} {v : α} (h : Walk edge start p v) :
    (p = [] ∧ v = start) ∨
      ∃ q u, p = q ++ [u] ∧ Walk edge start q u ∧ edge u v := by
  cases h with
  | nil => exact .inl ⟨rfl, rfl⟩
  | snoc hq he => exact .inr ⟨_, _, rfl, hq, he⟩

end Walk

/-! ## Turns -/

/-- The number of steps of a node sequence that do not go to a larger node. -/
def turns : List ℕ → ℕ
  | x :: y :: p => (if y ≤ x then 1 else 0) + turns (y :: p)
  | _ => 0

@[simp] lemma turns_nil : turns [] = 0 := rfl

@[simp] lemma turns_singleton (x : ℕ) : turns [x] = 0 := rfl

lemma turns_snoc_snoc (p : List ℕ) (u v : ℕ) :
    turns (p ++ [u] ++ [v]) = turns (p ++ [u]) + if v ≤ u then 1 else 0 := by
  induction p with
  | nil => simp [turns]
  | cons x p ih =>
    cases p with
    | nil => simp [turns]
    | cons y p =>
      simp only [List.cons_append, turns] at ih ⊢
      omega

/-- A sequence has fewer turns than nodes. -/
lemma turns_le_length (p : List ℕ) : turns p ≤ p.length := by
  induction p using List.reverseRecOn with
  | nil => simp
  | append_singleton q v ih =>
    rcases List.eq_nil_or_concat' q with rfl | ⟨r, u, rfl⟩
    · simp
    · rw [turns_snoc_snoc, List.length_append, List.length_singleton]
      split <;> omega

/-- A step to a node above everything left so far is no turn. -/
lemma turns_snoc_of_lt {p : List ℕ} {n : ℕ} (h : ∀ u ∈ p, u < n) :
    turns (p ++ [n]) = turns p := by
  rcases List.eq_nil_or_concat' p with rfl | ⟨q, u, rfl⟩
  · simp
  · have hu : u < n := h u (by simp)
    rw [turns_snoc_snoc, if_neg (by omega), Nat.add_zero]

end ModernC.Framework

/-!
## Searching a graph backward for a property that every path has

A backward search asks whether every path from an entry to a vertex meets a *closed* vertex.
It follows incoming edges, stops at closed vertices, and fails at the entry and at a vertex
nothing leads to.  `Settled` is what such a search can establish by finitely many steps, and a
`Gap` is what it can fail on.  Besides an unchecked entry a gap may be a cycle of open
vertices or an open vertex without a predecessor, and neither is on a path from the entry that
goes unchecked: this is where "the search answers yes" and "every path is checked" differ.
-/

namespace ModernC.Framework

open Relation

variable {V : Type*} (edge : V → V → Prop) (closed : V → Prop) (entry : V)

/-- One step that leaves an open vertex. -/
def OpenStep (u v : V) : Prop := edge u v ∧ ¬ closed u

/-- What a backward search can establish: the vertex is closed, or it is not the entry,
something leads to it, and everything that does is settled. -/
inductive Settled : V → Prop where
  | closed {v : V} (h : closed v) : Settled v
  | behind {v u : V} (hentry : v ≠ entry) (hu : edge u v) (h : ∀ w, edge w v → Settled w) :
      Settled v

/-- What a backward search can fail on at an open vertex. -/
structure Gap (u : V) : Prop where
  isOpen : ¬ closed u
  cause : u = entry ∨ TransGen (OpenStep edge closed) u u ∨ ∀ w, ¬ edge w u

variable {edge closed entry} {u v : V}

namespace Settled

/-- Settled vertices are settled for a reason that reaches back to everything behind them. -/
lemma of_openSteps (h : Settled edge closed entry v)
    (hu : ReflTransGen (OpenStep edge closed) u v) (hv : ¬ closed v) :
    Settled edge closed entry u := by
  induction hu using ReflTransGen.head_induction_on with
  | refl => exact h
  | head hstep _ ih =>
    rename_i a c hc
    rcases ih with hclosed | ⟨_, _, hall⟩
    · rcases hc.cases_head with rfl | ⟨d, hd, _⟩
      · exact absurd hclosed hv
      · exact absurd hclosed hd.2
    · exact hall a hstep.1

/-- A settled open vertex lies on no cycle of open vertices. -/
lemma not_cycle (h : Settled edge closed entry v) (hv : ¬ closed v) :
    ¬ TransGen (OpenStep edge closed) v v := by
  induction h with
  | closed h => exact absurd h hv
  | behind _ _ _ ih =>
    intro hcycle
    obtain ⟨w, hvw, hw⟩ := TransGen.tail'_iff.mp hcycle
    exact ih w hw.1 hw.2 (TransGen.head' hw hvw)

/-- No gap lies behind a settled open vertex. -/
theorem not_gap (h : Settled edge closed entry v) (hv : ¬ closed v)
    (hu : ReflTransGen (OpenStep edge closed) u v) : ¬ Gap edge closed entry u := by
  rintro ⟨hopen, hcause⟩
  have hsettled : Settled edge closed entry u := h.of_openSteps hu hv
  rcases hcause with hentry | hcycle | hnone
  · rcases hsettled with hclosed | ⟨hne, _, _⟩
    · exact hopen hclosed
    · exact hne hentry
  · exact hsettled.not_cycle hopen hcycle
  · rcases hsettled with hclosed | ⟨_, hw, _⟩
    · exact hopen hclosed
    · exact hnone _ hw

end Settled

end ModernC.Framework

/-!
## Searching a graph forward with a worklist

A search marks what it finds and keeps some of it pending.  Taking a vertex off the pending
ones and marking what it leads to keeps the search sound and closed behind it, so that a
search with nothing pending has marked what the start reaches.
-/

namespace ModernC.Framework

open Relation

variable {V : Type*} {edge : V → V → Prop} {start u : V} {pending marked pending' marked' : Set V}

/-- What a forward search keeps: it marks only reachable vertices, and whatever a marked vertex
leads to is marked unless the vertex is pending. -/
structure Searching (edge : V → V → Prop) (start : V) (pending marked : Set V) : Prop where
  start_marked : start ∈ marked
  pending_marked : pending ⊆ marked
  sound : ∀ v ∈ marked, ReflTransGen edge start v
  closed : ∀ v ∈ marked, v ∉ pending → ∀ w, edge v w → w ∈ marked

namespace Searching

lemma begin_at : Searching edge start {start} {start} where
  start_marked := rfl
  pending_marked := subset_rfl
  sound := by
    rintro v rfl
    exact .refl
  closed := by
    intro v hv hnot
    exact absurd hv hnot

/-- Expanding a pending vertex: its successors are marked, and what is newly marked is pending. -/
lemma expand (h : Searching edge start pending marked) (hu : u ∈ marked)
    (hgrows : marked ⊆ marked') (hnew : ∀ v ∈ marked', v ∉ marked → edge u v ∧ v ∈ pending')
    (hnext : ∀ v, edge u v → v ∈ marked') (hkept : ∀ v ∈ pending, v ≠ u → v ∈ pending')
    (hpending : pending' ⊆ marked') : Searching edge start pending' marked' where
  start_marked := hgrows h.start_marked
  pending_marked := hpending
  sound := by
    intro v hv
    by_cases hold : v ∈ marked
    · exact h.sound v hold
    · exact (h.sound u hu).tail (hnew v hv hold).1
  closed := by
    intro v hv hnot w hw
    have hold : v ∈ marked := by
      by_contra hold
      exact hnot (hnew v hv hold).2
    by_cases hvu : v = u
    · subst hvu
      exact hnext w hw
    · have hdone : v ∉ pending := fun hmem => hnot (hkept v hmem hvu)
      exact hgrows (h.closed v hold hdone w hw)

/-- A search with nothing pending has marked exactly what the start reaches. -/
theorem marked_iff (h : Searching edge start ∅ marked) {v : V} :
    v ∈ marked ↔ ReflTransGen edge start v := by
  refine ⟨h.sound v, fun hreach => ?_⟩
  induction hreach with
  | refl => exact h.start_marked
  | tail _ hstep ih => exact h.closed _ ih (Set.notMem_empty _) _ hstep

end Searching

end ModernC.Framework
