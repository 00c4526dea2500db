import Mathlib.Data.Nat.ModEq
import ModernC.Framework.CheckedWords

/-!
# Physical addresses

The checked arithmetic on addresses of 64 bits.
-/

namespace ModernC.Alloc

open Framework

def paOffset (a n : ℕ) : Option ℕ := checkedAdd 64 a n

def paDiff (start last : ℕ) : Option ℕ := checkedSub last start

def paIsAligned (a align : ℕ) : Bool := a % align == 0

/-- The smallest aligned address from `a` on, for an alignment that is a power of two. -/
def paAlignUp (a align : ℕ) : Option ℕ :=
  if align = 0 ∨ align &&& (align - 1) ≠ 0 then none
  else do
    let bumped ← checkedAdd 64 a (align - 1)
    return bumped - bumped % align

/-- `PhysRange`, up to `last` without it. -/
structure PhysRange where
  start : ℕ
  last : ℕ

lemma paOffset_eq_some {a n b : ℕ} : paOffset a n = some b ↔ a + n < 2 ^ 64 ∧ b = a + n :=
  checkedAdd_eq_some

lemma paAlignUp_eq_some {a align b : ℕ} :
    paAlignUp a align = some b ↔ align ≠ 0 ∧ align &&& (align - 1) = 0 ∧
      a + (align - 1) < 2 ^ 64 ∧ b = a + (align - 1) - (a + (align - 1)) % align := by
  rw [paAlignUp]
  split
  · next h => refine iff_of_false nofun fun hall => ?_; tauto
  · next h =>
    rw [not_or, not_not] at h
    refine Option.bind_eq_some_iff.trans ⟨?_, ?_⟩
    · rintro ⟨bumped, hbumped, hb⟩
      obtain ⟨hlt, rfl⟩ := checkedAdd_eq_some.mp hbumped
      exact ⟨h.1, h.2, hlt, (Option.some.inj hb).symm⟩
    · rintro ⟨-, -, hlt, rfl⟩
      exact ⟨_, checkedAdd_eq_some.mpr ⟨hlt, rfl⟩, rfl⟩

/-- An address is aligned by moving it up by less than the alignment. -/
lemma paAlignUp_spec {a align b : ℕ} (h : paAlignUp a align = some b) :
    align.isPowerOfTwo ∧ align ∣ b ∧ a ≤ b ∧ b < a + align := by
  obtain ⟨hne, hpower, -, rfl⟩ := paAlignUp_eq_some.mp h
  have hlt := Nat.mod_lt (a + (align - 1)) (Nat.pos_of_ne_zero hne)
  exact ⟨(Nat.and_sub_one_eq_zero_iff_isPowerOfTwo hne).mp hpower, Nat.dvd_sub_mod _, by omega,
    by omega⟩

end ModernC.Alloc
