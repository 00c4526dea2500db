import ModernC.Framework.ByteMemory

/-!
# Counted loops

A loop counts up by a fixed step while a condition on its counter holds.  Its body changes a state
or stops the program.
-/

namespace ModernC.Framework

variable {σ : Type*}

/-- A loop `while cond(i)` of at most as many passes as there is fuel. -/
def loopWhile (cond : ℕ → Bool) (step : ℕ) (body : ℕ → σ → Option σ) :
    ℕ → ℕ → σ → Option (ℕ × σ)
  | 0, i, x => some (i, x)
  | fuel + 1, i, x =>
    if cond i then do
      let x ← body i x
      loopWhile cond step body fuel (i + step) x
    else some (i, x)

variable {cond : ℕ → Bool} {i : ℕ}

/-- **The rule of the loop:** what the body keeps holds at the end, where the condition does not
hold any more unless there is no fuel left. -/
lemma loopWhile_spec (Inv : ℕ → σ → Prop) (fuel : ℕ) {step : ℕ} {body : ℕ → σ → Option σ} {x : σ}
    (hbody : ∀ i x, cond i = true → Inv i x → ∃ y, body i x = some y ∧ Inv (i + step) y)
    (hinv : Inv i x) :
    ∃ j y, loopWhile cond step body fuel i x = some (j, y) ∧ Inv j y ∧
      (cond j = true → j = i + fuel * step) := by
  induction fuel generalizing i x with
  | zero => exact ⟨i, x, rfl, hinv, fun _ => by omega⟩
  | succ fuel ih =>
    rw [loopWhile]
    by_cases hcond : cond i = true
    · obtain ⟨y, hy, hnext⟩ := hbody i x hcond hinv
      obtain ⟨j, z, hloop, hend, hcount⟩ := ih hnext
      rw [if_pos hcond, hy]
      refine ⟨j, z, hloop, hend, fun hj => ?_⟩
      rw [hcount hj, Nat.succ_mul]
      omega
    · rw [if_neg hcond]
      exact ⟨i, x, rfl, hinv, fun hi => absurd hi hcond⟩

/-- A number of passes, one after another. -/
def passes (body : ℕ → σ → Option σ) : ℕ → ℕ → σ → Option σ
  | 0, _, x => some x
  | n + 1, i, x => body i x >>= passes body n (i + 1)

variable {body : ℕ → σ → Option σ} {x : σ}

lemma passes_add (a b i : ℕ) (x : σ) :
    passes body (a + b) i x = passes body a i x >>= passes body b (i + a) := by
  induction a generalizing i x with
  | zero =>
    rw [Nat.zero_add]
    rfl
  | succ a ih =>
    have hnext : passes body (a + b) (i + 1) =
        fun y => passes body a (i + 1) y >>= passes body b (i + (a + 1)) := by
      funext y
      rw [ih, Nat.add_assoc, Nat.add_comm 1 a]
    rw [Nat.succ_add, passes, passes, hnext]
    exact (Option.bind_assoc _ _ _).symm

lemma passes_succ (n i : ℕ) (x : σ) :
    passes body (n + 1) i x = passes body n i x >>= body (i + n) := by
  have hone : passes body 1 (i + n) = body (i + n) := by
    funext y
    exact Option.bind_fun_some _
  rw [passes_add, hone]

/-- A loop makes the passes until its condition fails. -/
lemma loopWhile_eq_passes {n fuel : ℕ} (htrue : ∀ j, i ≤ j → j < i + n → cond j)
    (hfalse : cond (i + n) = false) (hfuel : n ≤ fuel) (x : σ) :
    loopWhile cond 1 body fuel i x = (passes body n i x).map fun y => (i + n, y) := by
  induction n generalizing i fuel x with
  | zero =>
    have hend : cond i = false := hfalse
    cases fuel with
    | zero => rfl
    | succ fuel =>
      rw [loopWhile, if_neg (Bool.eq_false_iff.mp hend)]
      rfl
  | succ n ih =>
    obtain ⟨fuel, rfl⟩ : ∃ fuel', fuel = fuel' + 1 := ⟨fuel - 1, by omega⟩
    have hsum : i + (n + 1) = i + 1 + n := by omega
    rw [hsum] at htrue hfalse ⊢
    rw [loopWhile, if_pos (htrue i (Nat.le_refl i) (by omega)), passes, Option.bind_eq_bind,
      Option.bind_eq_bind, Option.map_bind]
    refine congrArg (Option.bind (body i x)) (funext fun y => ?_)
    exact ih (fun j hj => htrue j (by omega)) hfalse (by omega) y

/-- A loop by larger steps, each of which does what several passes do. -/
lemma loopWhile_eq_passes_of_step {step : ℕ} {wide : ℕ → σ → Option σ}
    {n fuel : ℕ} (htrue : ∀ j < n, cond (i + j * step)) (hfalse : cond (i + n * step) = false)
    (hwide : ∀ j < n, ∀ x, wide (i + j * step) x = passes body step (i + j * step) x)
    (hfuel : n ≤ fuel) (x : σ) :
    loopWhile cond step wide fuel i x =
      (passes body (n * step) i x).map fun y => (i + n * step, y) := by
  induction n generalizing i fuel x with
  | zero =>
    rw [Nat.zero_mul] at hfalse ⊢
    have hend : cond i = false := hfalse
    cases fuel with
    | zero => rfl
    | succ fuel =>
      rw [loopWhile, if_neg (Bool.eq_false_iff.mp hend)]
      rfl
  | succ n ih =>
    obtain ⟨fuel, rfl⟩ : ∃ fuel', fuel = fuel' + 1 := ⟨fuel - 1, by omega⟩
    have hshift : ∀ j, i + (j + 1) * step = i + step + j * step := fun j => by
      rw [Nat.succ_mul]
      omega
    have hfirst := hwide 0 (Nat.succ_pos n) x
    have hcond := htrue 0 (Nat.succ_pos n)
    rw [Nat.zero_mul, Nat.add_zero] at hfirst hcond
    rw [hshift] at hfalse ⊢
    rw [loopWhile, if_pos hcond, hfirst, Nat.succ_mul, Nat.add_comm (n * step), passes_add,
      Option.bind_eq_bind, Option.bind_eq_bind, Option.map_bind]
    refine congrArg (Option.bind _) (funext fun y => ?_)
    refine ih (fun j hj => ?_) hfalse (fun j hj => ?_) (by omega) y
    · exact hshift j ▸ htrue (j + 1) (Nat.succ_lt_succ hj)
    · exact hshift j ▸ hwide (j + 1) (Nat.succ_lt_succ hj)

end ModernC.Framework

/-!
## Texts in memory

A text in memory ends with a zero byte.  A loop that goes over a text stops there.
-/

namespace ModernC.Framework

/-- The text stands at the address, with a zero behind it. -/
def TextAt (m : Memory) (a : ℕ) : List UInt8 → Prop
  | [] => m a = 0 ∧ a < 2 ^ 64
  | c :: text => m a = c ∧ c ≠ 0 ∧ TextAt m (a + 1) text

variable {m : Memory} {a : ℕ} {text front : List UInt8} {c : UInt8}

/-- The byte at the front of a text, and zero at its end. -/
def firstByte (text : List UInt8) : UInt8 := text.headD 0

lemma TextAt.first (h : TextAt m a text) : m a = firstByte text := by
  cases text with
  | nil | cons c text => exact h.1

lemma TextAt.lt (h : TextAt m a text) : a + text.length < 2 ^ 64 := by
  induction text generalizing a with
  | nil => exact h.2
  | cons c text ih =>
    have hrest := ih h.2.2
    rw [List.length_cons]
    omega

lemma TextAt.append (h : TextAt m a (front ++ text)) : TextAt m (a + front.length) text := by
  induction front generalizing a with
  | nil => exact h
  | cons c front ih =>
    have hrest := ih h.2.2
    rwa [Nat.add_assoc, Nat.add_comm 1] at hrest

lemma TextAt.tail (h : TextAt m a (c :: text)) : TextAt m (a + 1) text := h.2.2

/-- There is room for one more byte behind one that is not zero. -/
lemma TextAt.succ_lt (h : TextAt m a text) (hne : m a ≠ 0) : a + 1 < 2 ^ 64 := by
  cases text with
  | nil => exact absurd h.1 hne
  | cons c text =>
    have hlt := h.lt
    rw [List.length_cons] at hlt
    omega

/-- **The rule of a loop over a text:** it goes over the bytes that meet its condition, and its
state stands for a value that each of them changes. -/
lemma loopWhile_text {σ τ : Type*} {q : UInt8 → Bool} (state : τ → σ) {f : τ → UInt8 → τ}
    {body : ℕ → σ → Option σ} (hzero : q 0 = false)
    (hbody : ∀ p x, p + 1 < 2 ^ 64 → q (m p) = true →
      body p (state x) = some (state (f x (m p))))
    {fuel : ℕ} (h : TextAt m a text) (hfuel : text.length < fuel) (x : τ) :
    loopWhile (fun p => q (m p)) 1 body fuel a (state x) =
      some (a + (text.takeWhile q).length, state ((text.takeWhile q).foldl f x)) := by
  induction text generalizing a fuel x with
  | nil =>
    obtain ⟨fuel, rfl⟩ : ∃ fuel', fuel = fuel' + 1 := ⟨fuel - 1, by omega⟩
    rw [loopWhile, h.1, hzero, if_neg Bool.false_ne_true]
    rfl
  | cons c text ih =>
    obtain ⟨fuel, rfl⟩ : ∃ fuel', fuel = fuel' + 1 := ⟨fuel - 1, by omega⟩
    rw [List.length_cons] at hfuel
    have hne : m a ≠ 0 := h.1 ▸ h.2.1
    rw [loopWhile]
    by_cases hq : q c = true
    · have hstep := hbody a x (h.succ_lt hne) (h.1 ▸ hq)
      rw [h.1] at hstep
      rw [h.1, if_pos hq, hstep, List.takeWhile_cons_of_pos hq, List.length_cons, List.foldl_cons]
      have hrest := ih h.tail (Nat.lt_of_succ_lt_succ hfuel) (f x c)
      rw [Nat.add_assoc, Nat.add_comm 1] at hrest
      exact hrest
    · rw [h.1, if_neg hq, List.takeWhile_cons_of_neg hq]
      rfl

end ModernC.Framework
