import ModernC.Eval.HelperAgreement
import ModernC.Layout.LengthFold

/-!
# Array lengths are exact

A length that the evaluator of array lengths accepts is the number that its expression denotes, and
what the constant folder computes at `usize`, exactly if no shift to the left loses a bit.
-/

namespace ModernC.Layout

open Syntax (Expr TypeExpr Ident BinaryOp)
open Eval (ComptimeValue ComptimeFold comptimeIntFromBits comptimeUnsignedValue comptimeIntegerValue
  bitCastToU128 lowMask foldComptimeBinaryOperands unsignedFold i128Max)

/-! ## Bounds -/

variable {value len left right n : ℕ} {op : BinaryOp}

lemma castUsize_le (h : castUsize value = some len) : len ≤ maxUsize := by
  obtain ⟨hle, h⟩ := Option.ite_none_right_eq_some.mp h
  exact Option.some.inj h ▸ hle

lemma castUsize_eq (h : castUsize value = some len) : len = value :=
  (Option.some.inj (Option.ite_none_right_eq_some.mp h).2).symm

lemma parseCharLiteral_le {literal : String}
    (h : parseCharLiteral literal = some value) : value ≤ maxUsize := by
  have hle : ∀ {n : ℕ}, n < 128 → n ≤ maxUsize := by
    intro n hn
    rw [maxUsize]
    omega
  unfold parseCharLiteral at h
  delta parseCharLiteral.match_1 at h
  generalize literal.toList = chars at h
  rcases chars with _ | ⟨a, _ | ⟨b, _ | ⟨c, _ | ⟨d, _ | ⟨e, rest⟩⟩⟩⟩⟩
  -- the match compares one character after the other
  all_goals
    repeat' first
      | (cases h; done)
      | rcases dite_eq_iff.mp h with ⟨rfl, h⟩ | ⟨-, h⟩
  case cons.cons.cons.nil.inl.inl =>
    have hvalue : (if b.toNat < 128 then some b.toNat else none) = some value := h
    obtain ⟨hlt, hvalue⟩ := Option.ite_none_right_eq_some.mp hvalue
    exact Option.some.inj hvalue ▸ hle hlt
  all_goals exact Option.some.inj h ▸ hle (by decide)

/-- What an operator on lengths can do. -/
lemma foldLength_cases (h : foldLength left right op = some len) :
    (op = .add ∧ left + right ≤ maxUsize ∧ len = left + right) ∨
    (op = .sub ∧ right ≤ left ∧ len = left - right) ∨
    (op = .mul ∧ left * right ≤ maxUsize ∧ len = left * right) ∨
    (op = .div ∧ right ≠ 0 ∧ len = left / right) ∨
    (op = .mod ∧ right ≠ 0 ∧ len = left % right) ∨
    (op = .shl ∧ right < 64 ∧ len = left * 2 ^ right % 2 ^ 64) ∨
    (op = .shr ∧ right < 64 ∧ len = left / 2 ^ right) := by
  cases op with
  | add =>
    obtain ⟨hle, h⟩ := Option.ite_none_right_eq_some.mp h
    exact .inl ⟨rfl, hle, (Option.some.inj h).symm⟩
  | sub =>
    obtain ⟨hle, h⟩ := Option.ite_none_right_eq_some.mp h
    exact .inr (.inl ⟨rfl, hle, (Option.some.inj h).symm⟩)
  | mul =>
    obtain ⟨hle, h⟩ := Option.ite_none_right_eq_some.mp h
    exact .inr (.inr (.inl ⟨rfl, hle, (Option.some.inj h).symm⟩))
  | div =>
    obtain ⟨hne, h⟩ := Option.ite_none_left_eq_some.mp h
    exact .inr (.inr (.inr (.inl ⟨rfl, hne, (Option.some.inj h).symm⟩)))
  | mod =>
    obtain ⟨hne, h⟩ := Option.ite_none_left_eq_some.mp h
    exact .inr (.inr (.inr (.inr (.inl ⟨rfl, hne, (Option.some.inj h).symm⟩))))
  | shl =>
    obtain ⟨hlt, h⟩ := Option.ite_none_left_eq_some.mp h
    exact .inr (.inr (.inr (.inr (.inr (.inl
      ⟨rfl, Nat.lt_of_not_le hlt, (Option.some.inj h).symm⟩)))))
  | shr =>
    obtain ⟨hlt, h⟩ := Option.ite_none_left_eq_some.mp h
    exact .inr (.inr (.inr (.inr (.inr (.inr
      ⟨rfl, Nat.lt_of_not_le hlt, (Option.some.inj h).symm⟩)))))
  | logicalOr | logicalAnd | eq | ne | lt | le | gt | ge | bitOr | bitXor | bitAnd => nomatch h

lemma foldLength_le (hleft : left ≤ maxUsize)
    (h : foldLength left right op = some len) : len ≤ maxUsize := by
  rcases foldLength_cases h with ⟨-, hle, rfl⟩ | ⟨-, -, rfl⟩ | ⟨-, hle, rfl⟩ | ⟨-, -, rfl⟩ |
    ⟨-, -, rfl⟩ | ⟨-, -, rfl⟩ | ⟨-, -, rfl⟩
  · exact hle
  · exact (Nat.sub_le _ _).trans hleft
  · exact hle
  · exact (Nat.div_le_self _ _).trans hleft
  · exact (Nat.mod_le _ _).trans hleft
  · have hlt := Nat.mod_lt (left * 2 ^ right) (Nat.two_pow_pos 64)
    rw [maxUsize]
    omega
  · exact (Nat.div_le_self _ _).trans hleft

/-- What a constant folds to. -/
lemma comptimeUsizeValue_spec {folder : Folder} {hasConstants : Bool} {expr : Expr}
    (h : comptimeUsizeValue folder hasConstants expr = some len) :
    len ≤ maxUsize ∧ (foldComptimeExpr folder expr = .value (.int len) ∨
      foldComptimeExpr folder expr = .value (.uint len)) := by
  obtain ⟨-, h⟩ := Option.ite_none_right_eq_some.mp h
  unfold usizeOf at h
  split at h
  · next n hfold =>
    obtain ⟨⟨hnonneg, hle⟩, h⟩ := Option.ite_none_right_eq_some.mp h
    obtain rfl := Option.some.inj h
    refine ⟨by omega, .inl ?_⟩
    rw [hfold, Int.toNat_of_nonneg hnonneg]
  · next n hfold =>
    obtain rfl := castUsize_eq h
    exact ⟨castUsize_le h, .inr hfold⟩
  · exact absurd h (by simp)

lemma parseArrayLen_le {folder : Folder} {hasConstants : Bool} {expr : Expr}
    (h : parseArrayLen (comptimeUsizeValue folder hasConstants) expr = some len) :
    len ≤ maxUsize := by
  fun_induction parseArrayLen (comptimeUsizeValue folder hasConstants) expr generalizing len with
  | case1 text =>
    obtain ⟨magnitude, -, h⟩ := Option.bind_eq_some_iff.mp h
    exact castUsize_le h
  | case2 text => exact parseCharLiteral_le h
  | case3 inner ih => exact ih h
  | case4 op left right ihLeft ihRight =>
    obtain ⟨l, hl, h⟩ := Option.bind_eq_some_iff.mp h
    obtain ⟨r, hr, h⟩ := Option.bind_eq_some_iff.mp h
    exact foldLength_le (ihLeft hl) h
  | case5 callee typeArgs args | case6 name => exact (comptimeUsizeValue_spec h).1
  | case7 value ih => exact ih h
  | case8 => exact absurd h (by simp)

/-! ## The folder -/

lemma le_i128Max (h : n ≤ maxUsize) : (n : ℤ) ≤ i128Max := by
  rw [maxUsize] at h
  rw [i128Max]
  omega

lemma comptimeUnsignedValue_of_le (h : n ≤ maxUsize) :
    comptimeUnsignedValue n = .int n :=
  if_pos (le_i128Max h)

lemma usizeFromBits_eq (h : n ≤ maxUsize) : usizeFromBits n = .value (.int n) := by
  have hmask : n &&& lowMask 64 = n := by
    rw [Eval.and_lowMask]
    rw [maxUsize] at h
    exact Nat.mod_eq_of_lt (by omega)
  have hbits : comptimeIntFromBits n 64 false = some (n : ℤ) := by
    simp only [comptimeIntFromBits, hmask, le_i128Max h, if_true, Bool.false_and]
    rfl
  rw [usizeFromBits, hbits]

/-- A `usize` stays what it is at `usize`. -/
lemma contextualUsize_eq (folder : Folder) (h : n ≤ maxUsize) {value : ComptimeValue}
    (hvalue : value = .int n ∨ value = .uint n) :
    contextualUsize folder value = .value (.int n) := by
  have hmask : ¬lowMask 64 < n := by
    rw [Eval.lowMask_eq]
    rw [maxUsize] at h
    omega
  rcases hvalue with rfl | rfl
  · have hnonneg : ¬(n : ℤ) < 0 := by omega
    have hbits : bitCastToU128 n = n := by
      rw [maxUsize] at h
      rw [bitCastToU128]
      omega
    rw [contextualUsize, if_neg hnonneg, Int.toNat_natCast, if_neg hmask, hbits,
      usizeFromBits_eq h]
  · rw [contextualUsize, if_neg hmask, usizeFromBits_eq h]

/-- The folder on two numbers. -/
lemma foldOperands_eq (folder : Folder) (hleft : left ≤ maxUsize)
    (hright : right ≤ maxUsize) (hop : contextApplies op = true) :
    foldOperands folder op (.value (.int left)) (.value (.int right)) =
      unsignedFold 64 .checked (operator op) left right := by
  have heq : operator op ≠ .eq := by
    rintro hop'
    cases op <;> first | exact absurd hop' (by decide) | exact absurd hop (by decide)
  have hne : operator op ≠ .ne := by
    rintro hop'
    cases op <;> first | exact absurd hop' (by decide) | exact absurd hop (by decide)
  have hfold := @Eval.foldOperands_unsigned 64 folder.floats .checked _ heq hne left right
  rw [Eval.comptimeIntegerValue_of_le (le_i128Max hleft),
    Eval.comptimeIntegerValue_of_le (le_i128Max hright)] at hfold
  rw [foldOperands, usizeDomain, hfold, unsignedFold,
    Eval.comptimeIntegerValue_of_le (le_i128Max hleft),
    Eval.comptimeIntegerValue_of_le (le_i128Max hright)]

/-- The folder traps where a number is too large. -/
lemma unsignedOverflow_eq :
    Eval.unsignedOverflow 64 .checked n = if n ≤ maxUsize then .value (.int n) else .trap := by
  rw [Eval.unsignedOverflow]
  by_cases hle : n ≤ maxUsize
  · have hlt : n < 2 ^ 64 := by
      rw [maxUsize] at hle
      omega
    rw [if_pos hle, if_pos hlt, Eval.comptimeIntegerValue_of_le (le_i128Max hle)]
  · have hlt : ¬n < 2 ^ 64 := by
      rw [maxUsize] at hle
      omega
    rw [if_neg hle, if_neg hlt]

lemma foldOperands_shl (folder : Folder) (hleft : left ≤ maxUsize) (hright : right < 64) :
    foldOperands folder .shl (.value (.int left)) (.value (.int right)) =
      if left * 2 ^ right ≤ maxUsize then .value (.int (left * 2 ^ right : ℕ)) else .trap := by
  have hright' : right ≤ maxUsize := by
    rw [maxUsize]
    omega
  rw [foldOperands_eq folder hleft hright' rfl, operator,
    Eval.unsignedFold_shl .checked (by decide) left right hright, unsignedOverflow_eq]

/-- What the other operators accept, the folder computes. -/
lemma foldOperands_length (folder : Folder)
    (hleft : left ≤ maxUsize) (hright : right ≤ maxUsize) (hop : op ≠ .shl)
    (h : foldLength left right op = some len) :
    foldOperands folder op (.value (.int left)) (.value (.int right)) = .value (.int len) := by
  have hlen := foldLength_le hleft h
  have hpow : left < 2 ^ 64 := by
    rw [maxUsize] at hleft
    omega
  have hvalue := Eval.comptimeIntegerValue_of_le (le_i128Max hlen)
  rcases foldLength_cases h with ⟨rfl, hle, rfl⟩ | ⟨rfl, hle, rfl⟩ | ⟨rfl, hle, rfl⟩ |
    ⟨rfl, hne, rfl⟩ | ⟨rfl, hne, rfl⟩ | ⟨rfl, -, -⟩ | ⟨rfl, hlt, rfl⟩
  · rw [foldOperands_eq folder hleft hright rfl, operator,
      Eval.unsignedFold_add .checked (by decide), unsignedOverflow_eq, if_pos hle]
  · rw [foldOperands_eq folder hleft hright rfl, operator,
      Eval.unsignedFold_sub .checked hpow hle, hvalue]
  · rw [foldOperands_eq folder hleft hright rfl, operator,
      Eval.unsignedFold_mul .checked (by decide), unsignedOverflow_eq, if_pos hle]
  · rw [foldOperands_eq folder hleft hright rfl, operator, unsignedFold]
    simp only [Eval.foldWideUnsignedBinary, Eval.comptimeNonnegative_comptimeIntegerValue,
      beq_iff_eq, if_neg hne, comptimeUnsignedValue_of_le hlen]
  · rw [foldOperands_eq folder hleft hright rfl, operator, unsignedFold]
    simp only [Eval.foldWideUnsignedBinary, Eval.comptimeNonnegative_comptimeIntegerValue,
      beq_iff_eq, if_neg hne, comptimeUnsignedValue_of_le hlen]
  · exact absurd rfl hop
  · have hbits : ¬64 ≤ right := Nat.not_le_of_lt hlt
    rw [foldOperands_eq folder hleft hright rfl, operator, unsignedFold]
    simp only [Eval.foldWideUnsignedBinary, Eval.comptimeNonnegative_comptimeIntegerValue,
      Option.map_some, Option.getD_some, if_neg hbits, Nat.shiftRight_eq_div_pow,
      comptimeUnsignedValue_of_le hlen]

/-! ## Exact values -/

lemma exactBinary_shl (left right : ℕ) :
    exactBinary left right .shl = some ((left * 2 ^ right : ℕ) : ℤ) := by
  have hnonneg : ¬(right : ℤ) < 0 := by omega
  rw [exactBinary, if_neg hnonneg, Int.toNat_natCast]
  push_cast
  rfl

/-- What the other operators accept is exact. -/
lemma exactBinary_length (hop : op ≠ .shl) (h : foldLength left right op = some len) :
    exactBinary left right op = some (len : ℤ) := by
  rcases foldLength_cases h with ⟨rfl, -, rfl⟩ | ⟨rfl, hle, rfl⟩ | ⟨rfl, -, rfl⟩ |
    ⟨rfl, hne, rfl⟩ | ⟨rfl, hne, rfl⟩ | ⟨rfl, -, -⟩ | ⟨rfl, -, rfl⟩
  · rw [exactBinary, Nat.cast_add]
  · rw [exactBinary, Nat.cast_sub hle]
  · rw [exactBinary, Nat.cast_mul]
  · have hne' : (right : ℤ) ≠ 0 := by omega
    rw [exactBinary, if_neg hne', Int.tdiv_eq_ediv_of_nonneg (Int.natCast_nonneg left),
      Int.natCast_ediv]
  · have hne' : (right : ℤ) ≠ 0 := by omega
    rw [exactBinary, if_neg hne', Int.tmod_eq_emod_of_nonneg (Int.natCast_nonneg left),
      Int.natCast_emod]
  · exact absurd rfl hop
  · have hnonneg : ¬(right : ℤ) < 0 := by omega
    rw [exactBinary, if_neg hnonneg, Int.toNat_natCast, Int.natCast_ediv, Nat.cast_pow,
      Nat.cast_ofNat]

/-! ## Expressions -/

section Expressions

variable {folder : Folder} {hasConstants : Bool}

lemma foldLength_contextApplies (h : foldLength left right op = some len) :
    contextApplies op = true ∧ ¬(op = .logicalAnd ∨ op = .logicalOr) := by
  rcases foldLength_cases h with ⟨rfl, -⟩ | ⟨rfl, -⟩ | ⟨rfl, -⟩ | ⟨rfl, -⟩ | ⟨rfl, -⟩ | ⟨rfl, -⟩ |
    ⟨rfl, -⟩
  all_goals exact ⟨rfl, by decide⟩

/-- The folder on an operator that lengths have. -/
lemma foldUsize_binary {left right : Expr} {l r : ℕ} (h : foldLength l r op = some len) :
    foldUsize folder (.binary op left right) =
      foldOperands folder op (foldUsize folder left) (foldUsize folder right) := by
  obtain ⟨hcontext, hlogical⟩ := foldLength_contextApplies h
  rw [foldUsize, if_neg hlogical, if_pos hcontext]

lemma foldUsize_intLiteral (text : String) : foldUsize folder (.intLiteral text) =
    contextualFold folder (foldComptimeExpr folder (.intLiteral text)) := rfl

lemma foldUsize_charLiteral (text : String) : foldUsize folder (.charLiteral text) =
    contextualFold folder (foldComptimeExpr folder (.charLiteral text)) := rfl

lemma foldUsize_call (callee : Expr) (typeArgs : List TypeExpr) (args : List Expr) :
    foldUsize folder (.call callee typeArgs args) =
      contextualFold folder (foldComptimeExpr folder (.call callee typeArgs args)) := rfl

lemma foldUsize_ident (name : Ident) : foldUsize folder (.ident name) =
    contextualFold folder (foldComptimeExpr folder (.ident name)) := rfl

variable {expr : Expr}

/-- A constant is what it folds to. -/
lemma constant_exact (h : comptimeUsizeValue folder hasConstants expr = some len) :
    integerOf (foldComptimeExpr folder expr) = some (len : ℤ) ∧
      contextualFold folder (foldComptimeExpr folder expr) = .value (.int len) := by
  obtain ⟨hle, hfold | hfold⟩ := comptimeUsizeValue_spec h
  · rw [hfold]
    exact ⟨rfl, contextualUsize_eq folder hle (.inl rfl)⟩
  · rw [hfold]
    exact ⟨rfl, contextualUsize_eq folder hle (.inr rfl)⟩

/-- Without a lossy shift a length is exact. -/
lemma parseArrayLen_exact
    (h : parseArrayLen (comptimeUsizeValue folder hasConstants) expr = some len)
    (hshifts : ShiftsFit folder expr) (hblock : NoBlock expr) :
    exactValue folder expr = some (len : ℤ) ∧ foldUsize folder expr = .value (.int len) := by
  fun_induction parseArrayLen (comptimeUsizeValue folder hasConstants) expr generalizing len with
  | case1 text =>
    obtain ⟨magnitude, hmagnitude, h⟩ := Option.bind_eq_some_iff.mp h
    have hle := castUsize_le h
    obtain rfl := castUsize_eq h
    have hfold : foldComptimeExpr folder (.intLiteral text) = .value (.int len) := by
      rw [foldComptimeExpr, comptimeIntegerLiteral, hmagnitude, Option.map_some, ofValue,
        comptimeUnsignedValue_of_le hle]
    refine ⟨by rw [exactValue, hmagnitude, Option.map_some], ?_⟩
    rw [foldUsize_intLiteral, hfold]
    exact contextualUsize_eq folder hle (.inl rfl)
  | case2 text =>
    have hfold : foldComptimeExpr folder (.charLiteral text) = .value (.int len) := by
      rw [foldComptimeExpr, h, Option.map_some, ofValue]
    refine ⟨by rw [exactValue, h, Option.map_some], ?_⟩
    rw [foldUsize_charLiteral, hfold]
    exact contextualUsize_eq folder (parseCharLiteral_le h) (.inl rfl)
  | case3 inner ih =>
    rw [exactValue, foldUsize]
    exact ih h hshifts hblock
  | case4 op left right ihLeft ihRight =>
    obtain ⟨l, hl, h⟩ := Option.bind_eq_some_iff.mp h
    obtain ⟨r, hr, h⟩ := Option.bind_eq_some_iff.mp h
    obtain ⟨hshiftsLeft, hshiftsRight, hshift⟩ := hshifts
    obtain ⟨hexactLeft, hfoldLeft⟩ := ihLeft hl hshiftsLeft hblock.1
    obtain ⟨hexactRight, hfoldRight⟩ := ihRight hr hshiftsRight hblock.2
    have hleft := parseArrayLen_le hl
    have hright := parseArrayLen_le hr
    rw [exactValue, hexactLeft, hexactRight, Option.bind_some, Option.bind_some,
      foldUsize_binary h, hfoldLeft, hfoldRight]
    -- a left shift alone can lose bits and still answer
    by_cases hop : op = .shl
    · subst hop
      obtain ⟨hcount, hlen⟩ := Option.ite_none_left_eq_some.mp h
      have hfits : l * 2 ^ r ≤ maxUsize := by
        have hfits := hshift rfl l r hexactLeft hexactRight
        rw [Int.toNat_natCast] at hfits
        exact_mod_cast hfits
      have hmod : l * 2 ^ r % 2 ^ 64 = l * 2 ^ r := by
        rw [maxUsize] at hfits
        exact Nat.mod_eq_of_lt (by omega)
      obtain rfl : l * 2 ^ r = len := by rw [← hmod, Option.some.inj hlen]
      rw [exactBinary_shl, foldOperands_shl folder hleft (Nat.lt_of_not_le hcount), if_pos hfits]
      exact ⟨rfl, rfl⟩
    · exact ⟨exactBinary_length hop h, foldOperands_length folder hleft hright hop h⟩
  | case5 callee typeArgs args =>
    rw [exactValue, foldUsize_call]
    exact constant_exact h
  | case6 name =>
    rw [exactValue, foldUsize_ident]
    exact constant_exact h
  | case7 value ih => exact hblock.elim
  | case8 => exact absurd h (by simp)

lemma foldOperands_value {left right : ComptimeFold} {value : ComptimeValue}
    (h : foldOperands folder op left right = .value value) :
    (∃ l, left = .value l) ∧ ∃ r, right = .value r := by
  cases left with
  | value l =>
    cases right with
    | value r => exact ⟨⟨l, rfl⟩, r, rfl⟩
    | trap | unknown => exact nomatch h
  | trap | unknown => cases right <;> exact nomatch h

/-- Where the folder computes a length too, no shift is lossy. -/
lemma shiftsFit_of_fold {value : ComptimeValue}
    (h : parseArrayLen (comptimeUsizeValue folder hasConstants) expr = some len)
    (hfold : foldUsize folder expr = .value value) : ShiftsFit folder expr ∧ NoBlock expr := by
  fun_induction parseArrayLen (comptimeUsizeValue folder hasConstants) expr
    generalizing len value with
  | case1 text | case2 text | case5 _ _ _ | case6 _ => exact ⟨trivial, trivial⟩
  | case3 inner ih =>
    rw [foldUsize] at hfold
    exact ih h hfold
  | case4 op left right ihLeft ihRight =>
    obtain ⟨l, hl, h⟩ := Option.bind_eq_some_iff.mp h
    obtain ⟨r, hr, h⟩ := Option.bind_eq_some_iff.mp h
    rw [foldUsize_binary h] at hfold
    obtain ⟨⟨valueLeft, hvalueLeft⟩, valueRight, hvalueRight⟩ := foldOperands_value hfold
    obtain ⟨hshiftsLeft, hblockLeft⟩ := ihLeft hl hvalueLeft
    obtain ⟨hshiftsRight, hblockRight⟩ := ihRight hr hvalueRight
    obtain ⟨hexactLeft, hfoldLeft⟩ := parseArrayLen_exact hl hshiftsLeft hblockLeft
    obtain ⟨hexactRight, hfoldRight⟩ := parseArrayLen_exact hr hshiftsRight hblockRight
    refine ⟨⟨hshiftsLeft, hshiftsRight, ?_⟩, hblockLeft, hblockRight⟩
    rintro rfl a b ha hb
    obtain rfl := Option.some.inj (ha.symm.trans hexactLeft)
    obtain rfl := Option.some.inj (hb.symm.trans hexactRight)
    obtain ⟨hcount, -⟩ := Option.ite_none_left_eq_some.mp h
    rw [hfoldLeft, hfoldRight,
      foldOperands_shl folder (parseArrayLen_le hl) (Nat.lt_of_not_le hcount)] at hfold
    have hfits : l * 2 ^ r ≤ maxUsize := by
      by_contra hlarge
      rw [if_neg hlarge] at hfold
      exact absurd hfold (by simp)
    rw [Int.toNat_natCast]
    exact_mod_cast hfits
  | case7 value ih =>
    have hfold : ComptimeFold.unknown = .value value := hfold
    exact absurd hfold (by simp)
  | case8 => exact absurd h (by simp)

/-- **An array length is exact if and only if no shift loses a bit**: then it is the number that
the expression denotes and what the folder computes for it.  The folder knows no blocks. -/
theorem parseArrayLen_exact_iff {expr : Expr} {len : ℕ}
    (h : parseArrayLen (comptimeUsizeValue folder hasConstants) expr = some len) :
    exactValue folder expr = some (len : ℤ) ∧ foldUsize folder expr = .value (.int len) ↔
      ShiftsFit folder expr ∧ NoBlock expr := by
  constructor
  · exact fun hexact => shiftsFit_of_fold h hexact.2
  · exact fun hfits => parseArrayLen_exact h hfits.1 hfits.2

end Expressions

/-- A folder of no constants. -/
def noConstants : Folder where
  other := fun _ => .unknown
  floats := Eval.noFloats
  castFloat := fun _ => none

/-- A shift within the type. -/
def smallShift : Expr := .binary .shl (.intLiteral "3") (.intLiteral "62")

/-- A shift out of the type. -/
def largeShift : Expr := .binary .shl (.intLiteral "3") (.intLiteral "63")

/-- `3 << 62` is exact. -/
theorem parseArrayLen_exact_smallShift :
    parseArrayLen (comptimeUsizeValue noConstants false) smallShift = some (3 * 2 ^ 62) ∧
      (exactValue noConstants smallShift = some ((3 * 2 ^ 62 : ℕ) : ℤ) ∧
        foldUsize noConstants smallShift = .value (.int (3 * 2 ^ 62 : ℕ)) ↔
      ShiftsFit noConstants smallShift ∧ NoBlock smallShift) :=
  ⟨by decide, @parseArrayLen_exact_iff _ false _ _ (by decide)⟩

/-- `3 << 63` is accepted as half of what it is, and the folder traps. -/
theorem largeShift_loses_bits :
    parseArrayLen (comptimeUsizeValue noConstants false) largeShift = some (2 ^ 63) ∧
      exactValue noConstants largeShift = some (3 * 2 ^ 63) ∧
      foldUsize noConstants largeShift = .trap := by
  refine ⟨by decide, by decide, ?_⟩
  have hfold : ∀ {text : String} {n : ℕ}, n ≤ maxUsize →
      Syntax.parseIntegerLiteral text = some n →
      foldUsize noConstants (.intLiteral text) = .value (.int n) := by
    intro text n hn htext
    rw [foldUsize_intLiteral, foldComptimeExpr, comptimeIntegerLiteral, htext, Option.map_some,
      ofValue, comptimeUnsignedValue_of_le hn]
    exact contextualUsize_eq noConstants hn (.inl rfl)
  have hlength : foldLength 3 63 .shl = some (2 ^ 63) := by decide
  rw [largeShift, foldUsize_binary hlength, hfold (n := 3) (by decide) (by decide),
    hfold (n := 63) (by decide) (by decide), foldOperands_shl noConstants (by decide) (by decide)]
  exact if_neg (by decide)

end ModernC.Layout
