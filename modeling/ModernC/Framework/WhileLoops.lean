import Mathlib.Data.Nat.Notation

/-!
# Loops that may trap

A loop `while cond` changes a state that its body either brings to the next state or traps on.  An
invariant and a variant tell how a loop ends; an invariant alone tells what holds where it does.
-/

namespace ModernC.Framework

variable {σ : Type*}

/-- A loop `while cond` of at most as many passes as there is fuel. -/
def whileLoop (cond : σ → Bool) (body : σ → Option σ) : ℕ → σ → Option σ
  | 0, s => if cond s then none else some s
  | fuel + 1, s => if cond s then body s >>= whileLoop cond body fuel else some s

variable {cond : σ → Bool} {body : σ → Option σ} {s last : σ} {fuel : ℕ}

lemma whileLoop_of_false (hcond : cond s = false) : whileLoop cond body fuel s = some s := by
  cases fuel <;> simp [whileLoop, hcond]

lemma whileLoop_of_true {next : σ} (hcond : cond s = true) (hbody : body s = some next) :
    whileLoop cond body (fuel + 1) s = whileLoop cond body fuel next := by
  rw [whileLoop, if_pos hcond, hbody]
  rfl

/-- **The rule of the loop:** what the passes keep holds at the end, which is reached where a
variant goes down. -/
lemma whileLoop_spec (Inv : σ → Prop) (variant : σ → ℕ)
    (hbody : ∀ s, cond s = true → Inv s →
      ∃ next, body s = some next ∧ Inv next ∧ variant next < variant s)
    (hinv : Inv s) (hfuel : variant s ≤ fuel) :
    ∃ last, whileLoop cond body fuel s = some last ∧ Inv last ∧ cond last = false := by
  induction fuel generalizing s with
  | zero =>
    have hend : cond s = false := by
      apply Bool.eq_false_iff.mpr
      intro htrue
      obtain ⟨next, -, -, hless⟩ := hbody s htrue hinv
      omega
    exact ⟨s, whileLoop_of_false hend, hinv, hend⟩
  | succ fuel ih =>
    by_cases hcond : cond s = true
    · obtain ⟨next, hnext, hkept, hless⟩ := hbody s hcond hinv
      rw [whileLoop_of_true hcond hnext]
      exact ih hkept (by omega)
    · have hend : cond s = false := Bool.eq_false_iff.mpr hcond
      exact ⟨s, whileLoop_of_false hend, hinv, hend⟩

/-- A loop that ends without a trap ends in a state that its passes keep. -/
lemma whileLoop_keeps (Inv : σ → Prop)
    (hbody : ∀ s next, cond s = true → Inv s → body s = some next → Inv next)
    (hinv : Inv s) (h : whileLoop cond body fuel s = some last) :
    Inv last ∧ cond last = false := by
  induction fuel generalizing s with
  | zero =>
    rw [whileLoop] at h
    split at h
    · exact absurd h (by simp)
    · next hcond =>
      obtain rfl := Option.some.inj h
      exact ⟨hinv, Bool.eq_false_iff.mpr hcond⟩
  | succ fuel ih =>
    rw [whileLoop] at h
    split at h
    · next hcond =>
      obtain ⟨next, hnext, hrest⟩ := Option.bind_eq_some_iff.mp h
      exact ih (hbody s next hcond hinv hnext) hrest
    · next hcond =>
      obtain rfl := Option.some.inj h
      exact ⟨hinv, Bool.eq_false_iff.mpr hcond⟩

/-! ## Loops that return -/

variable {ρ : Type*}

/-- A loop of which a pass goes on with a state or returns a result. -/
def loopUntil (pass : σ → Option (σ ⊕ ρ)) : ℕ → σ → Option ρ
  | 0, _ => none
  | fuel + 1, s =>
    match pass s with
    | none => none
    | some (.inl next) => loopUntil pass fuel next
    | some (.inr result) => some result

/-- **The rule of loops that return:** passes that go on keep an invariant and lower a variant. -/
lemma loopUntil_spec {pass : σ → Option (σ ⊕ ρ)} (Inv : σ → Prop) (variant : σ → ℕ)
    {Result : ρ → Prop}
    (hpass : ∀ s, Inv s → (∃ next, pass s = some (.inl next) ∧ Inv next ∧ variant next < variant s) ∨
      ∃ result, pass s = some (.inr result) ∧ Result result)
    (hinv : Inv s) (hfuel : variant s < fuel) :
    ∃ result, loopUntil pass fuel s = some result ∧ Result result := by
  induction fuel generalizing s with
  | zero => exact absurd hfuel (Nat.not_lt_zero _)
  | succ fuel ih =>
    rw [loopUntil]
    rcases hpass s hinv with ⟨next, hnext, hkept, hless⟩ | ⟨result, hresult, hholds⟩
    · rw [hnext]
      exact ih hkept (by omega)
    · rw [hresult]
      exact ⟨result, rfl, hholds⟩

/-- The loop returns after so many passes that go on. -/
inductive StopsAfter (pass : σ → Option (σ ⊕ ρ)) : ℕ → σ → ρ → Prop
  | stop {s : σ} {result : ρ} (h : pass s = some (.inr result)) : StopsAfter pass 0 s result
  | pass {n : ℕ} {s next : σ} {result : ρ} (h : pass s = some (.inl next))
      (hrest : StopsAfter pass n next result) : StopsAfter pass (n + 1) s result

/-- **What a loop returns** is what it stops with in less passes than there is fuel. -/
lemma loopUntil_eq_some_iff {pass : σ → Option (σ ⊕ ρ)} {result : ρ} :
    loopUntil pass fuel s = some result ↔ ∃ n < fuel, StopsAfter pass n s result := by
  induction fuel generalizing s with
  | zero => exact iff_of_false nofun (by rintro ⟨n, hn, -⟩; exact absurd hn (Nat.not_lt_zero n))
  | succ fuel ih =>
    rw [loopUntil]
    constructor
    · intro h
      split at h
      · exact nomatch h
      · next next hnext =>
        obtain ⟨n, hn, hstops⟩ := ih.mp h
        exact ⟨n + 1, by omega, .pass hnext hstops⟩
      · next result' hresult =>
        obtain rfl := Option.some.inj h
        exact ⟨0, Nat.zero_lt_succ fuel, .stop hresult⟩
    · rintro ⟨n, hn, hstops⟩
      cases hstops with
      | stop hresult => rw [hresult]
      | pass hnext hrest =>
        rw [hnext]
        exact ih.mpr ⟨_, by omega, hrest⟩

end ModernC.Framework
