import Mathlib.Data.Nat.Digits.Lemmas
import ModernC.Libc.Cnum
import ModernC.Libc.Directives
import ModernC.Libc.Emission

/-!
# Texts of numbers

The program and ISO C put a number into its field in the same way.  A number can be read back from
its text.
-/

namespace ModernC.Libc

variable {base mag n width : ℕ} {upper : Bool} {f : Flags} {prec : ℤ} {p : Option ℕ}
  {lead body text digits : List UInt8} {b : UInt8} {r : FormatRequest}

/-! ## Digits -/

lemma digitChar_eq {d : ℕ} (hd : d < 16) (upper : Bool) : digitChar d upper = isoDigit upper d := by
  have hall : ∀ (d : Fin 16) (upper : Bool), digitChar d upper = isoDigit upper d := by decide
  exact hall ⟨d, hd⟩ upper

lemma digitValue_isoDigit {d : ℕ} (hd : d < 16) (upper : Bool) :
    digitValue (isoDigit upper d) = d := by
  have hall : ∀ (d : Fin 16) (upper : Bool), digitValue (isoDigit upper d) = d := by decide
  exact hall ⟨d, hd⟩ upper

lemma magnitudeDigits_eq (hbase : 2 ≤ base) (hbase' : base ≤ 16) {room : ℕ}
    (hmag : mag < base ^ room) : magnitudeDigits base upper room mag =
      some ((Nat.digits base mag).map (isoDigit upper)) := by
  induction room generalizing mag with
  | zero =>
    obtain rfl : mag = 0 := by
      rw [Nat.pow_zero] at hmag
      omega
    simp [magnitudeDigits]
  | succ room ih =>
    cases mag with
    | zero => simp [magnitudeDigits]
    | succ mag =>
      have hquotient : (mag + 1) / base < base ^ room :=
        Nat.div_lt_of_lt_mul (by rwa [Nat.pow_succ'] at hmag)
      have hdigit : (mag + 1) % base < 16 := Nat.lt_of_lt_of_le (Nat.mod_lt _ (by omega)) hbase'
      rw [magnitudeDigits, ih hquotient, Nat.digits_def' (by omega) (Nat.succ_pos mag),
        digitChar_eq hdigit]
      · rfl
      · exact Nat.succ_ne_zero mag

/-- **The digits that are emitted:** zero is one digit, unless the precision is zero. -/
lemma emittedDigits_eq (hbase : 8 ≤ base) (hbase' : base ≤ 16) (hmag : mag < 2 ^ 64) :
    emittedDigits mag base upper prec = some
      (if mag = 0 ∧ prec ≠ 0 then [48] else (Nat.digits base mag).map (isoDigit upper)) := by
  have hroom : mag < base ^ 24 :=
    Nat.lt_of_lt_of_le (Nat.lt_of_lt_of_le hmag (by decide : 2 ^ 64 ≤ 8 ^ 24))
      (Nat.pow_le_pow_left hbase 24)
  rw [emittedDigits]
  by_cases hzero : mag = 0
  · rw [if_pos hzero]
    by_cases hprec : prec = 0
    · rw [if_neg (not_not_intro hprec), if_neg fun h => h.2 hprec, hzero]
      simp
    · rw [if_pos hprec, if_pos ⟨hzero, hprec⟩]
  · rw [if_neg hzero, if_neg fun h => hzero h.1, magnitudeDigits_eq (by omega) hbase' hroom]

lemma storedPrecision_eq_zero : storedPrecision p = 0 ↔ p = some 0 := by
  cases p with
  | none => decide
  | some n => simp [storedPrecision]

lemma storedPrecision_neg : storedPrecision p < 0 ↔ p = none := by
  cases p with
  | none => decide
  | some n => simp [storedPrecision]

lemma length_isoDigits : (isoDigits base upper mag).length = (Nat.digits base mag).length := by
  rw [isoDigits, List.length_map, List.length_reverse]

/-- **The digits with the zeros of the precision are those of ISO C.** -/
lemma digitsText_eq :
    digitsText (storedPrecision p) (if mag = 0 ∧ storedPrecision p ≠ 0 then [48] else
      (Nat.digits base mag).map (isoDigit upper)) =
      atLeast (p.getD 1) (isoDigits base upper mag) := by
  by_cases hzero : mag = 0
  · subst hzero
    cases p with
    | none => simp [digitsText, zerosForPrec, storedPrecision, isoDigits, atLeast]
    | some n =>
      cases n with
      | zero => simp [digitsText, zerosForPrec, storedPrecision, isoDigits, atLeast]
      | succ n =>
        have hpos : ((n + 1 : ℕ) : ℤ) ≠ 0 := by omega
        have hzeros : zerosForPrec ((n + 1 : ℕ) : ℤ) 1 = n := by
          rw [zerosForPrec]
          split <;> omega
        rw [storedPrecision, if_pos ⟨rfl, hpos⟩, digitsText, List.length_singleton, hzeros]
        simp [isoDigits, atLeast, List.replicate_succ']
  · have hpos : 0 < (Nat.digits base mag).length :=
      List.length_pos_of_ne_nil (Nat.digits_ne_nil_iff_ne_zero.mpr hzero)
    have hzeros : zerosForPrec (storedPrecision p) (Nat.digits base mag).length =
        p.getD 1 - (Nat.digits base mag).length := by
      cases p with
      | none | some n => simp [zerosForPrec, storedPrecision]; omega
    rw [if_neg fun h => hzero h.1, digitsText, List.length_map, hzeros, atLeast, length_isoDigits,
      isoDigits, List.map_reverse]

/-! ## Fields -/

/-- **The field of the program is that of ISO C.** -/
lemma isoField_eq (r : FormatRequest) (lead body : List UInt8) :
    isoField r lead body =
      numberText (Flags.with {} r.flags) r.width (storedPrecision r.precision) lead body := by
  rw [isoField, numberText, fieldText, zeroPads, Flags.with]
  by_cases hminus : FlagChar.minus ∈ r.flags
  · simp [hminus]
  · by_cases hzero : FlagChar.zero ∈ r.flags
    · simp [hminus, hzero, storedPrecision_neg]
    · simp [hminus, hzero]

lemma length_numberText (f : Flags) (width : ℕ) (prec : ℤ) (lead body : List UInt8) :
    (numberText f width prec lead body).length = max width (lead.length + body.length) := by
  rw [numberText, fieldText]
  split
  · simp; omega
  · split
    · simp; omega
    · simp; omega

/-- A zero that leads the digits is a digit. -/
lemma numberText_zero :
    numberText f width prec (lead ++ [48]) body = numberText f width prec lead (48 :: body) := by
  have hlength : (lead ++ [48]).length + body.length = lead.length + (48 :: body).length := by
    simp
    omega
  rw [numberText, numberText, hlength]
  split
  · rw [List.append_assoc, List.append_assoc, List.append_assoc, List.singleton_append,
      ← List.cons_append, ← List.replicate_succ, List.replicate_succ', List.append_assoc,
      List.singleton_append]
  · rw [List.append_assoc, List.singleton_append]

/-- What is not a blank or a zero comes from the number. -/
lemma mem_numberText (hblank : b ≠ 32) (hzero : b ≠ 48) :
    b ∈ numberText f width prec lead body ↔ b ∈ lead ∨ b ∈ body := by
  rw [numberText, fieldText]
  split
  · simp [List.mem_replicate, hzero]
  · split
    · simp [List.mem_replicate, hblank]
    · simp [List.mem_replicate, hblank]

/-! ## A blank in front of a number -/

lemma fieldText_blank (htext : 32 ∉ text) :
    fieldText f width (32 :: text) = fieldText f width text ↔
      text.length < width ∧ (f.minus = true → text = []) := by
  rw [fieldText, fieldText]
  constructor
  · intro h
    have hlength := congrArg List.length h
    split at h
    · next hminus =>
      cases text with
      | nil =>
        simp [hminus] at hlength
        rw [List.length_nil]
        exact ⟨by omega, fun _ => rfl⟩
      | cons b text =>
        obtain ⟨hhead, -⟩ := List.cons.inj h
        exact absurd (hhead ▸ List.mem_cons_self) htext
    · next hminus =>
      simp [hminus] at hlength
      exact ⟨by omega, fun h => absurd h hminus⟩
  · rintro ⟨hlt, hempty⟩
    obtain ⟨pad, hpad⟩ : ∃ pad, width - text.length = pad + 1 := ⟨width - text.length - 1, by omega⟩
    have hpad' : width - (32 :: text).length = pad := by
      rw [List.length_cons]
      omega
    rw [hpad, hpad']
    split
    · next hminus =>
      rw [hempty hminus]
      rfl
    · rw [List.replicate_succ', List.append_assoc, List.singleton_append]

/-- **A blank in front of a number is absorbed by the blanks of its field.** -/
lemma numberText_blank (hlead : 32 ∉ lead) (hbody : 32 ∉ body) :
    numberText f width prec (32 :: lead) body = numberText f width prec lead body ↔
      zeroPads f prec = false ∧ lead.length + body.length < width ∧
        (f.minus = true → lead ++ body = []) := by
  rw [numberText, numberText]
  cases hzero : zeroPads f prec with
  | true =>
    refine iff_of_false (fun h => ?_) (fun h => Bool.false_ne_true h.1.symm)
    rw [if_pos rfl, if_pos rfl] at h
    have hmem : (32 : UInt8) ∈ lead ++
        List.replicate (width - (lead.length + body.length)) 48 ++ body := by
      rw [← h]
      exact List.mem_append_left _ (List.mem_append_left _ List.mem_cons_self)
    simp [hlead, hbody, List.mem_replicate] at hmem
  | false =>
    rw [if_neg Bool.false_ne_true, if_neg Bool.false_ne_true, List.cons_append,
      fieldText_blank (by simp [hlead, hbody]), List.length_append]
    exact (and_iff_right rfl).symm

/-! ## Reading back -/

/-- The number whose digits stand in a text. -/
def readBack (base : ℕ) (text : List UInt8) : ℕ :=
  numberOf base 0 (text.filter fun c => digitValue c < base)

lemma numberOf_zeros (zeros : List UInt8) (hzeros : ∀ c ∈ zeros, c = 48) :
    numberOf base 0 (zeros ++ digits) = numberOf base 0 digits := by
  induction zeros with
  | nil => rfl
  | cons c zeros ih =>
    obtain rfl : c = 48 := hzeros c List.mem_cons_self
    have hrest := ih fun c hc => hzeros c (List.mem_cons_of_mem _ hc)
    have hstep : 0 * base + digitValue 48 = 0 := by
      rw [Nat.zero_mul]
      rfl
    rw [List.cons_append, numberOf, List.foldl_cons, hstep]
    exact hrest

lemma numberOf_isoDigits (hbase : 2 ≤ base) (hbase' : base ≤ 16) :
    numberOf base 0 (isoDigits base upper mag) = mag := by
  have hdigits : ∀ digits : List ℕ, (∀ d ∈ digits, d < base) →
      numberOf base 0 (digits.reverse.map (isoDigit upper)) = Nat.ofDigits base digits := by
    intro digits hlt
    induction digits with
    | nil => rfl
    | cons d digits ih =>
      have hrest := ih fun d hd => hlt d (List.mem_cons_of_mem _ hd)
      have hd := hlt d List.mem_cons_self
      rw [numberOf] at hrest
      rw [List.reverse_cons, List.map_append, numberOf, List.foldl_append, hrest,
        Nat.ofDigits_cons]
      show Nat.ofDigits base digits * base + digitValue (isoDigit upper d) = _
      rw [digitValue_isoDigit (by omega), Nat.mul_comm, Nat.add_comm]
  rw [isoDigits, hdigits _ fun d hd => Nat.digits_lt_base (by omega) hd, Nat.ofDigits_digits]

/-- The bytes of digits. -/
lemma mem_isoDigits (hbase : 2 ≤ base) (hbase' : base ≤ 16) (hb : b ∈ isoDigits base upper mag) :
    digitValue b < base := by
  obtain ⟨d, hd, rfl⟩ := List.mem_map.mp hb
  have hlt := Nat.digits_lt_base (by omega) (List.mem_reverse.mp hd)
  rwa [digitValue_isoDigit (by omega)]

lemma mem_atLeast (hb : b ∈ atLeast n digits) : b = 48 ∨ b ∈ digits := by
  rw [atLeast, List.mem_append, List.mem_replicate] at hb
  rcases hb with ⟨-, hb⟩ | hb
  · exact Or.inl hb
  · exact Or.inr hb

/-- What leads a number has no digit but zeros. -/
def Leads (base : ℕ) (lead : List UInt8) : Prop := ∀ c ∈ lead, digitValue c < base → c = 48

/-- **A number is read back from its text.** -/
lemma readBack_numberText (hbase : 2 ≤ base) (hbase' : base ≤ 16) (hlead : Leads base lead) :
    readBack base (numberText f width prec lead (atLeast n (isoDigits base upper mag))) = mag := by
  have hblanks : ∀ k,
      (List.replicate k (32 : UInt8)).filter (fun c => digitValue c < base) = [] := by
    intro k
    rw [List.filter_eq_nil_iff]
    intro c hc
    rw [(List.mem_replicate.mp hc).2]
    have hvalue : digitValue 32 = 99 := rfl
    simp only [hvalue, decide_eq_true_eq]
    omega
  have hdigits : (isoDigits base upper mag).filter (fun c => digitValue c < base) =
      isoDigits base upper mag := by
    rw [List.filter_eq_self]
    exact fun c hc => decide_eq_true (mem_isoDigits hbase hbase' hc)
  have hzeros : ∀ k, ∀ c ∈ lead.filter (fun c => digitValue c < base) ++
      (List.replicate k (48 : UInt8)).filter (fun c => digitValue c < base), c = 48 := by
    intro k c hc
    rcases List.mem_append.mp hc with hc | hc
    · obtain ⟨hmem, hlt⟩ := List.mem_filter.mp hc
      exact hlead c hmem (of_decide_eq_true hlt)
    · exact (List.mem_replicate.mp (List.mem_filter.mp hc).1).2
  rw [readBack, numberText, fieldText, atLeast]
  split
  · rw [List.append_assoc, ← List.append_assoc (List.replicate _ _) (List.replicate _ _),
      List.replicate_append_replicate, List.filter_append, List.filter_append, ← List.append_assoc,
      hdigits, numberOf_zeros _ (hzeros _), numberOf_isoDigits hbase hbase']
  · split
    · rw [List.filter_append, hblanks, List.append_nil, List.filter_append, List.filter_append,
        ← List.append_assoc, hdigits, numberOf_zeros _ (hzeros _), numberOf_isoDigits hbase hbase']
    · rw [List.filter_append, hblanks, List.nil_append, List.filter_append, List.filter_append,
        ← List.append_assoc, hdigits, numberOf_zeros _ (hzeros _), numberOf_isoDigits hbase hbase']

end ModernC.Libc
