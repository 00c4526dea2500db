import Mathlib.Data.Nat.Digits.Lemmas

/-!
# Numerals

Texts of digits that denote numbers.  A number has one numeral without a leading zero, and one of
each length that its digits fit in.
-/

namespace ModernC.Framework

/-- The byte of a digit, which is a small letter from ten on. -/
def asciiDigit (d : ℕ) : UInt8 := UInt8.ofNat (if d < 10 then 48 + d else 87 + d)

/-- The text has digits of the base, the highest one first, that denote the number. -/
def IsNumeral (base : ℕ) (text : List UInt8) (n : ℕ) : Prop :=
  ∃ digits : List ℕ, (∀ d ∈ digits, d < base) ∧ text = (digits.map asciiDigit).reverse ∧
    Nat.ofDigits base digits = n

/-- A numeral without a leading zero. -/
structure IsCanonical (base : ℕ) (text : List UInt8) (n : ℕ) : Prop where
  numeral : IsNumeral base text n
  ne_nil : text ≠ []
  leading : text.head? = some 48 → text = [48]

/-- The digits of a number, the lowest one first, where zero has one. -/
def lowDigits (base n : ℕ) : List ℕ := if n = 0 then [0] else Nat.digits base n

def numeral (base n : ℕ) : List UInt8 := ((lowDigits base n).map asciiDigit).reverse

variable {base n k d : ℕ} {text : List UInt8} {digits : List ℕ}

lemma asciiDigit_eq_zero (h : d < 16) : asciiDigit d = 48 ↔ d = 0 := by
  have hall : ∀ d : Fin 16, asciiDigit d = 48 ↔ d.val = 0 := by decide
  exact hall ⟨d, h⟩

lemma lowDigits_lt (hbase : 1 < base) (h : d ∈ lowDigits base n) : d < base := by
  rw [lowDigits] at h
  split at h
  · rw [List.mem_singleton.mp h]
    omega
  · exact Nat.digits_lt_base hbase h

lemma ofDigits_lowDigits (base n : ℕ) : Nat.ofDigits base (lowDigits base n) = n := by
  rw [lowDigits]
  split
  · next h => simp [h]
  · exact Nat.ofDigits_digits base n

/-- The highest digit of a number is not zero, unless it is the only one. -/
lemma lowDigits_concat (h : lowDigits base n = digits ++ [0]) : digits = [] := by
  rw [lowDigits] at h
  split at h
  · exact (List.append_eq_singleton_iff.mp h.symm).elim And.left fun hnil =>
      absurd hnil.2 (by simp)
  · next hne =>
    have hlast := Nat.getLast_digit_ne_zero base hne
    simp only [h, List.getLast_concat] at hlast
    exact absurd rfl hlast

lemma digits_eq_lowDigits {last : ℕ} (hbase : 1 < base) (hlt : ∀ d ∈ digits ++ [last], d < base)
    (hzero : last = 0 → digits = []) :
    digits ++ [last] = lowDigits base (Nat.ofDigits base (digits ++ [last])) := by
  by_cases hlast : last = 0
  · rw [hzero hlast, hlast]
    simp [lowDigits]
  · have hdigits := Nat.digits_ofDigits base hbase (digits ++ [last]) hlt fun _ => by
      rwa [List.getLast_concat]
    have hne : Nat.ofDigits base (digits ++ [last]) ≠ 0 := by
      rw [← Nat.digits_ne_nil_iff_ne_zero (b := base), hdigits]
      simp
    rw [lowDigits, if_neg hne, hdigits]

/-- **A number has one canonical numeral.** -/
lemma isCanonical_iff (hbase : 1 < base) (hbase' : base ≤ 16) :
    IsCanonical base text n ↔ text = numeral base n := by
  constructor
  · rintro ⟨⟨digits, hlt, rfl, rfl⟩, hne, hleading⟩
    rcases digits.eq_nil_or_concat with rfl | ⟨front, last, rfl⟩
    · exact absurd rfl hne
    · rw [List.concat_eq_append] at *
      rw [numeral, ← digits_eq_lowDigits hbase hlt fun hzero => ?_]
      subst hzero
      have honly := hleading (by simp [asciiDigit])
      simpa using congrArg List.length honly
  · rintro rfl
    have hdigit : ∀ d ∈ lowDigits base n, d < base := fun d => lowDigits_lt hbase
    refine ⟨⟨_, hdigit, rfl, ofDigits_lowDigits base n⟩, ?_, fun hleading => ?_⟩
    · rw [numeral, lowDigits]
      split
      · simp
      · next hne => simpa using Nat.digits_ne_nil_iff_ne_zero.mpr hne
    · rw [numeral] at hleading ⊢
      rcases List.eq_nil_or_concat (lowDigits base n) with hnil | ⟨front, last, hlast⟩
      · rw [hnil] at hleading
        exact nomatch hleading
      · rw [List.concat_eq_append] at hlast
        have hlt := hdigit last (by simp [hlast])
        have hzero : last = 0 := by
          rw [← asciiDigit_eq_zero (by omega)]
          simpa [hlast] using hleading
        subst hzero
        rw [hlast, lowDigits_concat hlast]
        rfl

/-- A number below a power of the base has at most so many digits. -/
lemma length_lowDigits_le (hbase : 1 < base) (hk : 0 < k) (h : n < base ^ k) :
    (lowDigits base n).length ≤ k := by
  rw [lowDigits]
  split
  · exact hk
  · exact (Nat.digits_length_le_iff hbase n).mpr h

/-! ## Numerals of a length -/

/-- So many low digits of a number, the highest one first. -/
def fixedDigits (base n : ℕ) : ℕ → List ℕ
  | 0 => []
  | k + 1 => n / base ^ k % base :: fixedDigits base n k

lemma length_fixedDigits (base n k : ℕ) : (fixedDigits base n k).length = k := by
  induction k with
  | zero => rfl
  | succ k ih => rw [fixedDigits, List.length_cons, ih]

lemma fixedDigits_lt (hbase : 0 < base) (h : d ∈ fixedDigits base n k) : d < base := by
  induction k with
  | zero => exact absurd h List.not_mem_nil
  | succ k ih =>
    rcases List.mem_cons.mp h with rfl | h
    · exact Nat.mod_lt _ hbase
    · exact ih h

lemma ofDigits_fixedDigits (base n k : ℕ) :
    Nat.ofDigits base (fixedDigits base n k).reverse = n % base ^ k := by
  induction k with
  | zero => simp [fixedDigits, Nat.mod_one]
  | succ k ih =>
    rw [fixedDigits, List.reverse_cons, Nat.ofDigits_append, ih, Nat.ofDigits_singleton,
      List.length_reverse, length_fixedDigits, Nat.mod_pow_succ]

/-- **The numeral of a length** denotes the number where its digits fit. -/
lemma isNumeral_fixedDigits (hbase : 0 < base) (h : n < base ^ k) :
    IsNumeral base ((fixedDigits base n k).map asciiDigit) n := by
  refine ⟨(fixedDigits base n k).reverse, fun d hd => ?_, ?_, ?_⟩
  · exact fixedDigits_lt hbase (List.mem_reverse.mp hd)
  · rw [List.map_reverse, List.reverse_reverse]
  · rw [ofDigits_fixedDigits, Nat.mod_eq_of_lt h]

end ModernC.Framework
