import ModernC.Framework.Walks

/-!
# In-place sweeps over a forward data-flow table

A round-robin solver keeps one table with an entry for every node `0, …, n - 1`.  A sweep
visits the nodes in ascending order and, at each node, pushes the node's exit into its
successors' entries, in place: a later node of the same sweep already sees it.

The table is read through `holds t v s`, "the entry of `v` in `t` contains `s`".  The one
assumption on a visit (`Relaxes`) says that, on well-formed tables, it adds exactly the
images of what the visited node's entry holds.  The result (`sweepTable_holds_iff`) is exact in both directions: after
`k + 1` sweeps the table holds at `v` the states that walks with at most `k` turns bring to
`v`, and no others.
-/

namespace ModernC.Framework

/-! ## Repeating a pass until nothing changes -/

/-- A table operation `f` with a change flag performs `g` on the table, and leaves both the
flag and the table alone whenever the resulting flag is clear. -/
structure ReportsChange {T ι : Type*} (f : T × Bool → ι → T × Bool) (g : T → ι → T) : Prop where
  table : ∀ acc i, (f acc i).1 = g acc.1 i
  unchanged : ∀ acc i, (f acc i).2 = false → acc.2 = false ∧ g acc.1 i = acc.1

/-- Folding keeps the flag honest. -/
theorem ReportsChange.foldl {T ι : Type*} {f : T × Bool → ι → T × Bool} {g : T → ι → T}
    (h : ReportsChange f g) :
    ReportsChange (fun acc (l : List ι) => l.foldl f acc) (fun t l => l.foldl g t) where
  table acc l := by
    induction l generalizing acc with
    | nil => rfl
    | cons i l ih => rw [List.foldl_cons, List.foldl_cons, ih, h.table]
  unchanged acc l hflag := by
    induction l generalizing acc with
    | nil => exact ⟨hflag, rfl⟩
    | cons i l ih =>
      obtain ⟨hmid, hrest⟩ := ih (f acc i) hflag
      obtain ⟨hacc, hfirst⟩ := h.unchanged acc i hmid
      refine ⟨hacc, ?_⟩
      rw [h.table] at hrest
      rw [List.foldl_cons, hrest, hfirst]

/-- Run `pass` at most `fuel` times, stopping after the first run that reports no change. -/
def sweepUntil {T : Type*} (pass : T → T × Bool) : ℕ → T → T
  | 0, t => t
  | fuel + 1, t => if (pass t).2 then sweepUntil pass fuel (pass t).1 else (pass t).1

/-- If a pass without a reported change leaves the table alone, stopping early at such a
pass returns what all the passes would have returned. -/
theorem sweepUntil_eq_iterate {T : Type*} {pass : T → T × Bool}
    (hstable : ∀ t, (pass t).2 = false → (pass t).1 = t) (fuel : ℕ) (t : T) :
    sweepUntil pass fuel t = (fun t => (pass t).1)^[fuel] t := by
  induction fuel generalizing t with
  | zero => rfl
  | succ fuel ih =>
    rw [sweepUntil, Function.iterate_succ_apply]
    cases hchanged : (pass t).2 with
    | true => exact ih _
    | false =>
      rw [hstable t hchanged]
      exact (Function.iterate_fixed (hstable t hchanged) fuel).symm

/-! ## Sweeps and walks -/

section Sweep

variable {T σ : Type*} (good : T → Prop) (holds : T → ℕ → σ → Prop) (edge : ℕ → ℕ → Prop)
  (step : ℕ → σ → σ) (relax : ℕ → T → T)

/-- On well-formed tables, visiting `u` adds, at each successor of `u`, the images of the
states held at `u`, and keeps the table well formed. -/
structure Relaxes : Prop where
  wellFormed : ∀ t u, good t → good (relax u t)
  adds : ∀ t u v s, good t → (holds (relax u t) v s ↔
    holds t v s ∨ edge u v ∧ ∃ s', holds t u s' ∧ step u s' = s)

/-- The state a walk that left the nodes `p` brings along. -/
def stateAlong (s₀ : σ) (p : List ℕ) : σ := p.foldl (fun s u => step u s) s₀

variable {step} in
@[simp] lemma stateAlong_nil (s₀ : σ) : stateAlong step s₀ [] = s₀ := rfl

variable {step} in
@[simp] lemma stateAlong_snoc (s₀ : σ) (p : List ℕ) (u : ℕ) :
    stateAlong step s₀ (p ++ [u]) = step u (stateAlong step s₀ p) := by
  simp [stateAlong]

/-- Visit the nodes below `m` in ascending order. -/
def visitBelow (m : ℕ) (t : T) : T := (List.range m).foldl (fun t u => relax u t) t

variable {relax} in
@[simp] lemma visitBelow_zero (t : T) : visitBelow relax 0 t = t := rfl

variable {relax} in
lemma visitBelow_succ (m : ℕ) (t : T) :
    visitBelow relax (m + 1) t = relax m (visitBelow relax m t) := by
  simp [visitBelow, List.range_succ]

/-- The table holds exactly what walks bring along that are finished once the nodes below
`m` have been visited in sweep number `k` (counted from zero). -/
structure Captures (start : ℕ) (s₀ : σ) (k m : ℕ) (t : T) : Prop where
  wellFormed : good t
  holds_iff : ∀ v s, holds t v s ↔
    ∃ p, Walk edge start p v ∧ stateAlong step s₀ p = s ∧ turns (p ++ [m]) ≤ k

variable {good holds edge step relax} {start : ℕ} {s₀ : σ}

variable {k : ℕ} {t : T}

/-- One visit: the walks that last left `m` are followed, and no others. -/
lemma Captures.relax_step (hrelax : Relaxes good holds edge step relax) {m : ℕ}
    (h : Captures good holds edge step start s₀ k m t) :
    Captures good holds edge step start s₀ k (m + 1) (relax m t) := by
  refine ⟨hrelax.wellFormed t m h.wellFormed, fun v s => ?_⟩
  rw [hrelax.adds t m v s h.wellFormed]
  constructor
  · rintro (hold | ⟨he, s', hs', rfl⟩)
    · obtain ⟨p, hp, hs, hk⟩ := (h.holds_iff v s).mp hold
      refine ⟨p, hp, hs, Nat.le_trans ?_ hk⟩
      -- a walk finished before `m` was visited stays finished
      rcases List.eq_nil_or_concat' p with rfl | ⟨q, u, rfl⟩
      · simp
      · rw [turns_snoc_snoc, turns_snoc_snoc]
        split <;> split <;> omega
    · obtain ⟨p, hp, hs, hk⟩ := (h.holds_iff m s').mp hs'
      refine ⟨p ++ [m], hp.snoc he, by rw [stateAlong_snoc, hs], ?_⟩
      rw [turns_snoc_snoc, if_neg (by omega)]
      exact hk
  · rintro ⟨p, hp, hs, hk⟩
    cases hp with
    | nil => exact .inl ((h.holds_iff _ _).mpr ⟨[], .nil, hs, by simp⟩)
    | @snoc q u v hq he =>
      rw [turns_snoc_snoc] at hk
      by_cases hum : u = m
      · subst hum
        refine .inr ⟨he, stateAlong step s₀ q, (h.holds_iff _ _).mpr ⟨q, hq, rfl, ?_⟩, ?_⟩
        · rwa [if_neg (by omega), Nat.add_zero] at hk
        · rw [← hs, stateAlong_snoc]
      · refine .inl ((h.holds_iff _ _).mpr ⟨q ++ [u], hq.snoc he, hs, ?_⟩)
        rw [turns_snoc_snoc]
        split <;> split at hk <;> omega

/-- A started sweep captures the walks finished so far. -/
lemma Captures.visitBelow (hrelax : Relaxes good holds edge step relax)
    (h : Captures good holds edge step start s₀ k 0 t) (m : ℕ) :
    Captures good holds edge step start s₀ k m (visitBelow relax m t) := by
  induction m with
  | zero => exact h
  | succ m ih =>
    rw [visitBelow_succ]
    exact ih.relax_step hrelax

/-- After the last node of a sweep, the next sweep may start. -/
lemma Captures.next_sweep {n : ℕ} (hedge : ∀ u v, edge u v → u < n)
    (h : Captures good holds edge step start s₀ k n t) :
    Captures good holds edge step start s₀ (k + 1) 0 t := by
  refine ⟨h.wellFormed, fun v s => ?_⟩
  rw [h.holds_iff v s]
  refine exists_congr fun p => and_congr_right fun hp => and_congr_right fun _ => ?_
  rw [turns_snoc_of_lt (hp.forall_mem_left hedge)]
  rcases List.eq_nil_or_concat' p with rfl | ⟨q, u, rfl⟩
  · simp
  · rw [turns_snoc_snoc, if_pos (Nat.zero_le _)]
    omega

/-- Before any sweep only the empty walk is finished. -/
lemma captures_init (hgood : good t) (h : ∀ v s, holds t v s ↔ v = start ∧ s = s₀) :
    Captures good holds edge step start s₀ 0 0 t := by
  refine ⟨hgood, fun v s => ?_⟩
  rw [h v s]
  constructor
  · rintro ⟨rfl, rfl⟩
    exact ⟨[], .nil, rfl, by simp⟩
  · rintro ⟨p, hp, hs, hk⟩
    cases hp with
    | nil => exact ⟨rfl, hs.symm⟩
    | snoc _ _ =>
      rw [turns_snoc_snoc, if_pos (Nat.zero_le _)] at hk
      omega

/-- **Sweeps follow walks turn by turn.**  After `k + 1` sweeps the table holds at `v` what
the walks to `v` with at most `k` turns before their last edge bring along, and nothing
else. -/
theorem sweepTable_holds_iff (hrelax : Relaxes good holds edge step relax) {n : ℕ}
    (hedge : ∀ u v, edge u v → u < n) (hgood : good t)
    (hinit : ∀ v s, holds t v s ↔ v = start ∧ s = s₀) (k v : ℕ) (s : σ) :
    holds ((visitBelow relax n)^[k + 1] t) v s ↔
      ∃ p, Walk edge start p v ∧ stateAlong step s₀ p = s ∧ turns p ≤ k := by
  have hcap : ∀ j, Captures good holds edge step start s₀ j 0 ((visitBelow relax n)^[j] t) := by
    intro j
    induction j with
    | zero => exact captures_init hgood hinit
    | succ j ih =>
      rw [Function.iterate_succ_apply']
      exact (ih.visitBelow hrelax n).next_sweep hedge
  rw [Function.iterate_succ_apply', ((hcap k).visitBelow hrelax n).holds_iff v s]
  refine exists_congr fun p => and_congr_right fun hp => ?_
  rw [turns_snoc_of_lt (hp.forall_mem_left hedge)]

end Sweep

end ModernC.Framework
