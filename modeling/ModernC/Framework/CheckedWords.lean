import Mathlib.Algebra.Group.Nat.Defs

/-!
# Checked words

Arithmetic on unsigned words that traps where the result does not fit.  A computation that traps
is `none`.
-/

namespace ModernC.Framework

def checkedAdd (width a b : ℕ) : Option ℕ := if a + b < 2 ^ width then some (a + b) else none

def checkedSub (a b : ℕ) : Option ℕ := if b ≤ a then some (a - b) else none

def checkedMul (width a b : ℕ) : Option ℕ := if a * b < 2 ^ width then some (a * b) else none

def checkedDiv (a b : ℕ) : Option ℕ := if b = 0 then none else some (a / b)

def checkedMod (a b : ℕ) : Option ℕ := if b = 0 then none else some (a % b)

/-- A shift to the left loses no bit. -/
def checkedShl (width a b : ℕ) : Option ℕ :=
  if b < width ∧ a ≤ (2 ^ width - 1) >>> b then some (a <<< b) else none

def checkedShr (width a b : ℕ) : Option ℕ := if b < width then some (a >>> b) else none

/-- A pointer as an address.  The types of pointers do not have the null pointer, and to read or to
make one traps. -/
def nonNull (p : ℕ) : Option ℕ := if p = 0 then none else some p

/-- A conversion to a narrower type. -/
def checkedCast (width a : ℕ) : Option ℕ := if a < 2 ^ width then some a else none

/-- `slots[i] = x`, which traps where there is no such slot. -/
def storeSlot {T : Type} {N : ℕ} (slots : Vector T N) (i : ℕ) (x : T) : Option (Vector T N) :=
  if h : i < N then some (slots.set i x) else none

variable {width a b c : ℕ}

@[simp] lemma nonNull_zero : nonNull 0 = none := rfl

lemma nonNull_of_ne (h : a ≠ 0) : nonNull a = some a := if_neg h

lemma nonNull_eq_some : nonNull a = some b ↔ a ≠ 0 ∧ b = a := by
  rw [nonNull]
  split
  · next h => simp [h]
  · next h => simp [h, eq_comm]

lemma checkedAdd_eq_some : checkedAdd width a b = some c ↔ a + b < 2 ^ width ∧ c = a + b := by
  rw [checkedAdd]
  split
  · next h => simp [h, eq_comm]
  · next h => simp [h]

lemma checkedSub_eq_some : checkedSub a b = some c ↔ b ≤ a ∧ c = a - b := by
  rw [checkedSub]
  split
  · next h => simp [h, eq_comm]
  · next h => simp [h]

lemma checkedMul_eq_some : checkedMul width a b = some c ↔ a * b < 2 ^ width ∧ c = a * b := by
  rw [checkedMul]
  split
  · next h => simp [h, eq_comm]
  · next h => simp [h]

lemma checkedAdd_eq_none : checkedAdd width a b = none ↔ 2 ^ width ≤ a + b := by
  rw [checkedAdd]
  split
  · next h => simp [Nat.not_le_of_lt h]
  · next h => simp [Nat.le_of_not_lt h]

lemma checkedDiv_eq_some : checkedDiv a b = some c ↔ b ≠ 0 ∧ c = a / b := by
  rw [checkedDiv]
  split
  · next h => simp [h]
  · next h => simp [h, eq_comm]

lemma checkedMod_eq_some : checkedMod a b = some c ↔ b ≠ 0 ∧ c = a % b := by
  rw [checkedMod]
  split
  · next h => simp [h]
  · next h => simp [h, eq_comm]

lemma checkedShl_eq_some :
    checkedShl width a b = some c ↔ b < width ∧ a * 2 ^ b < 2 ^ width ∧ c = a * 2 ^ b := by
  have hfits : a ≤ (2 ^ width - 1) >>> b ↔ a * 2 ^ b < 2 ^ width := by
    have hpos : 0 < 2 ^ width := Nat.two_pow_pos width
    rw [Nat.shiftRight_eq_div_pow, Nat.le_div_iff_mul_le (Nat.two_pow_pos b)]
    omega
  rw [checkedShl, ← hfits, Nat.shiftLeft_eq]
  split
  · next h => simp [h, eq_comm]
  · next h => exact iff_of_false nofun fun hall => h ⟨hall.1, hall.2.1⟩

lemma checkedShr_eq_some : checkedShr width a b = some c ↔ b < width ∧ c = a / 2 ^ b := by
  rw [checkedShr, Nat.shiftRight_eq_div_pow]
  split
  · next h => simp [h, eq_comm]
  · next h => simp [h]

lemma checkedCast_eq_some : checkedCast width a = some c ↔ a < 2 ^ width ∧ c = a := by
  rw [checkedCast]
  split
  · next h => simp [h, eq_comm]
  · next h => simp [h]

end ModernC.Framework
