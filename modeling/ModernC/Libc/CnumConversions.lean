import ModernC.Libc.Cnum

/-!
# The functions against ISO C

`strtol` and `strtoul` convert what ISO C converts, except where the end pointer is null, where a
prefix has no digit behind it, and where a number with a minus sign is too large for `strtoul`.
`parseUint_eq` says what the program finds in a text, `converts_iff` what ISO C finds there, and
`conversions_iff` compares the two for every text in memory, every base and every end pointer.
-/

namespace ModernC.Libc

open Framework

variable {m : Memory} {nptr endptr p base : ℕ} {text rest body : List UInt8}

/-! ## The parts of the program -/

lemma skipSpace_eq (h : TextAt m nptr text) :
    skipSpace m nptr = some (nptr + (text.takeWhile isspace).length) := by
  have hlt := h.lt
  have hbody : ∀ p (x : Unit), p + 1 < 2 ^ 64 → isspace (m p) = true →
      (checkedAdd 64 p 1).map (fun _ => ()) = some () := by
    intro p x hp _
    rw [checkedAdd, if_pos hp]
    rfl
  have hloop := loopWhile_text (fun x : Unit => x) (f := fun _ _ => ()) (by decide) hbody h
    (by omega : text.length < 2 ^ 64 - nptr) ()
  rw [skipSpace, hloop]
  rfl

lemma textAt_afterSpace (h : TextAt m nptr text) :
    TextAt m (nptr + (text.takeWhile isspace).length) (afterSpace text) := by
  have htext : TextAt m nptr (text.takeWhile isspace ++ afterSpace text) := by
    rwa [afterSpace, List.takeWhile_append_dropWhile]
  exact htext.append

lemma readSign_eq (h : TextAt m p rest) :
    readSign m p = some ((signOf rest).1, p + (signOf rest).2) := by
  have hsucc : m p ≠ 0 → checkedAdd 64 p 1 = some (p + 1) := fun hne => if_pos (h.succ_lt hne)
  rw [readSign, signOf, h.first] at *
  by_cases hplus : firstByte rest = 43
  · rw [if_pos hplus, if_pos hplus, hsucc (by rw [hplus]; decide)]
    rfl
  · rw [if_neg hplus, if_neg hplus]
    by_cases hminus : firstByte rest = 45
    · rw [if_pos hminus, if_pos hminus, hsucc (by rw [hminus]; decide)]
      rfl
    · rw [if_neg hminus, if_neg hminus]
      rfl

lemma textAt_afterSign (h : TextAt m p rest) :
    TextAt m (p + (signOf rest).2) (rest.drop (signOf rest).2) := by
  rcases rest with _ | ⟨c, rest⟩
  · exact h
  · rw [signOf]
    split
    · exact h.tail
    · split
      · exact h.tail
      · exact h

/-- The length of the prefix. -/
def markLength (base : ℕ) (body : List UInt8) : ℕ := if marked base body then 2 else 0

lemma textAt_afterMark (h : TextAt m p body) :
    TextAt m (p + markLength base body) (body.drop (markLength base body)) := by
  rw [markLength]
  split
  · next hmarked =>
    obtain ⟨-, x, tail, rfl, -⟩ := marked_iff.mp hmarked
    exact h.tail.tail
  · exact h

lemma readPrefix_eq (h : TextAt m p body) :
    readPrefix m p base = some (radixOf base body, p + markLength base body) := by
  have hlt := h.lt
  by_cases hmarked : marked base body = true
  · obtain ⟨hbase, x, tail, rfl, hx⟩ := marked_iff.mp hmarked
    rw [List.length_cons, List.length_cons] at hlt
    have hfirst : m p = 48 := h.first
    have hsecond : m (p + 1) = 120 ∨ m (p + 1) = 88 := by
      rw [h.tail.first]
      exact hx
    have hone : checkedAdd 64 p 1 = some (p + 1) := if_pos (by omega)
    have htwo : checkedAdd 64 p 2 = some (p + 2) := if_pos (by omega)
    rw [radixOf, markLength, if_pos hmarked, if_pos hmarked, readPrefix, if_pos hfirst, hone, htwo]
    rcases hbase with rfl | rfl
    · rw [if_pos rfl]
      exact if_pos hsecond
    · rw [if_neg (by decide), if_pos rfl, if_pos hfirst]
      exact if_pos hsecond
  · rw [radixOf, markLength, if_neg hmarked, if_neg hmarked, readPrefix, h.first]
    -- without a mark a leading zero still tells the base, where the base is to be told
    by_cases hfirst : firstByte body = 48
    · obtain ⟨tail, rfl⟩ : ∃ tail, body = 48 :: tail := by
        rcases body with _ | ⟨c, tail⟩
        · exact absurd hfirst (by decide)
        · obtain rfl : c = 48 := hfirst
          exact ⟨tail, rfl⟩
      rw [List.length_cons] at hlt
      have hone : checkedAdd 64 p 1 = some (p + 1) := if_pos (by omega)
      have hplain : base = 0 ∨ base = 16 → ¬(m (p + 1) = 120 ∨ m (p + 1) = 88) := by
        rw [h.tail.first]
        intro hbase hx
        rcases tail with _ | ⟨x, tail⟩
        · exact absurd hx (by decide)
        · exact hmarked (marked_iff.mpr ⟨hbase, x, tail, rfl, hx⟩)
      rw [if_pos hfirst, if_pos hfirst, if_pos hfirst, hone]
      by_cases hzero : base = 0
      · rw [if_pos hzero, if_pos hzero]
        exact if_neg (hplain (.inl hzero))
      · rw [if_neg hzero, if_neg hzero]
        by_cases hhex : base = 16
        · rw [if_pos hhex, hhex]
          exact if_neg (hplain (.inr hhex))
        · rw [if_neg hhex]
          rfl
    · rw [if_neg hfirst, if_neg hfirst, if_neg hfirst]
      by_cases hzero : base = 0
      · rw [if_pos hzero, if_pos hzero]
        rfl
      · rw [if_neg hzero, if_neg hzero]
        by_cases hhex : base = 16
        · rw [if_pos hhex, hhex]
          rfl
        · rw [if_neg hhex]
          rfl

/-! ## Digits -/

/-- The number as it is kept, with the flag of an overflow. -/
def kept (v : ℕ) : ℕ × Bool := if v ≤ u64Max then (v, false) else (u64Max, true)

lemma kept_fst (v : ℕ) : (kept v).1 = min v u64Max := by
  rw [kept]
  split
  · next hle => exact (Nat.min_eq_left hle).symm
  · next hle => exact (Nat.min_eq_right (Nat.le_of_not_le hle)).symm

/-- The test in front of a digit finds an overflow. -/
lemma overflow_iff {b d acc : ℕ} (hd : d < b) :
    (u64Max / b < acc ∨ acc = u64Max / b ∧ u64Max % b < d) ↔ u64Max < acc * b + d := by
  have hdiv := Nat.div_add_mod u64Max b
  have hmod := Nat.mod_lt u64Max (Nat.zero_lt_of_lt hd)
  generalize u64Max / b = q at *
  generalize u64Max % b = r at *
  rw [Nat.mul_comm b q] at hdiv
  rcases Nat.lt_trichotomy acc q with hlt | rfl | hgt
  · have hmul := Nat.mul_le_mul_right b (Nat.succ_le_of_lt hlt)
    rw [Nat.succ_mul] at hmul
    constructor
    · omega
    · omega
  · constructor
    · omega
    · omega
  · have hmul := Nat.mul_le_mul_right b (Nat.succ_le_of_lt hgt)
    rw [Nat.succ_mul] at hmul
    exact iff_of_true (.inl hgt) (by omega)

/-- **One more digit.** -/
lemma addDigit_kept {b d v : ℕ} (hd : d < b) :
    addDigit b d (kept v).1 (kept v).2 = some (kept (v * b + d)) := by
  have hbound : u64Max < 2 ^ 64 := by decide
  rw [addDigit]
  by_cases hle : v ≤ u64Max
  · have hkept : kept v = (v, false) := if_pos hle
    rw [hkept, if_neg Bool.false_ne_true]
    by_cases hover : u64Max < v * b + d
    · rw [if_pos ((overflow_iff hd).mpr hover), kept, if_neg (Nat.not_le_of_lt hover)]
    · have hmul : checkedMul 64 v b = some (v * b) := if_pos (by omega)
      have hadd : checkedAdd 64 (v * b) d = some (v * b + d) := if_pos (by omega)
      rw [if_neg fun h => hover ((overflow_iff hd).mp h), hmul, kept,
        if_pos (Nat.le_of_not_lt hover)]
      show (checkedAdd 64 (v * b) d).bind (fun acc => some (acc, false)) = _
      rw [hadd]
      rfl
  · have hkept : kept v = (u64Max, true) := if_neg hle
    have hmul := Nat.le_mul_of_pos_right v (Nat.zero_lt_of_lt hd)
    have hnot : ¬v * b + d ≤ u64Max := by omega
    rw [hkept, if_pos rfl, kept, if_neg hnot]

lemma kept_zero : kept 0 = (0, false) := rfl

/-- What the digits behind a prefix are, and where they end. -/
lemma readDigits_eq (h : TextAt m p body) (hbase : base ≤ 36) {digits : List UInt8}
    (hdigits : digits = body.takeWhile fun c => digitValue c < base) :
    readDigits m base p = some (p + digits.length, min (numberOf base 0 digits) u64Max) := by
  have hlt := h.lt
  have hzero : decide (digitValue 0 < base) = false := by
    have hnot : digitValue 0 = 99 := by decide
    rw [hnot]
    exact decide_eq_false (by omega)
  rw [readDigits, ← kept_zero, loopWhile_text (q := fun c => digitValue c < base) kept
    (f := fun v c => v * base + digitValue c) hzero ?_ h (by omega) 0, ← hdigits, ← kept_fst]
  · rfl
  · intro p v hp hd
    have hstep := addDigit_kept (v := v) (of_decide_eq_true hd)
    have hone : checkedAdd 64 p 1 = some (p + 1) := if_pos hp
    simp only [hstep, hone]
    rfl

/-! ## The whole program -/

lemma digitsOf_eq (base : ℕ) (body : List UInt8) :
    digitsOf base body = (body.drop (markLength base body)).takeWhile fun c =>
      digitValue c < radixOf base body := rfl

lemma radixOf_le (hbase : base ≤ 36) (body : List UInt8) : radixOf base body ≤ 36 := by
  rw [radixOf]
  split
  · decide
  · split
    · split
      · decide
      · decide
    · exact hbase

/-- **What `parse_uint` finds.** -/
lemma parseUint_eq (h : TextAt m nptr text) (hbase : base ≤ 36) :
    parseUint m nptr base =
      some ⟨min (numberOf (radixOf base (bodyOf text)) 0 (digitsOf base (bodyOf text))) u64Max,
        (signOf (afterSpace text)).1,
        if digitsOf base (bodyOf text) = [] then nptr
        else nptr + (bodyStart text +
          (markLength base (bodyOf text) + (digitsOf base (bodyOf text)).length))⟩ := by
  have hspace := textAt_afterSpace h
  have hsign := textAt_afterSign hspace
  have hmark : TextAt m (nptr + (text.takeWhile isspace).length + (signOf (afterSpace text)).2 +
      markLength base ((afterSpace text).drop (signOf (afterSpace text)).2)) _ :=
    textAt_afterMark hsign
  have hdigits := readDigits_eq hmark (radixOf_le hbase _) (digitsOf_eq base _)
  rw [parseUint, skipSpace_eq h]
  simp only [Option.bind_eq_bind, Option.bind_some, readSign_eq hspace]
  have hpre : readPrefix m (nptr + (text.takeWhile isspace).length +
      (signOf (afterSpace text)).2) base = _ := readPrefix_eq hsign
  rw [hpre, Option.bind_some, hdigits, Option.bind_some]
  have hbody : (afterSpace text).drop (signOf (afterSpace text)).2 = bodyOf text := rfl
  simp only [hbody]
  congr 2
  by_cases hnil : digitsOf base (bodyOf text) = []
  · rw [if_pos hnil, hnil, List.length_nil, if_pos (Nat.add_zero _)]
  · have hpos := List.length_pos_iff.mpr hnil
    rw [if_neg hnil, if_neg (by omega), bodyStart]
    omega

/-! ## The conversions -/

/-- Behind white space and a sign there is a prefix, but no digit behind it. -/
def BareMark (base : ℕ) (text : List UInt8) : Prop :=
  (base = 0 ∨ base = 16) ∧ ∃ x tail, bodyOf text = 48 :: x :: tail ∧ (x = 120 ∨ x = 88) ∧
    16 ≤ digitValue (firstByte tail)

lemma bareMark_iff : BareMark base text ↔
    marked base (bodyOf text) = true ∧ digitsOf base (bodyOf text) = [] := by
  have hdigits : ∀ {x tail}, bodyOf text = 48 :: x :: tail → marked base (bodyOf text) = true →
      (digitsOf base (bodyOf text) = [] ↔ 16 ≤ digitValue (firstByte tail)) := by
    intro x tail hbody hmarked
    rw [digitsOf, radixOf, if_pos hmarked, if_pos hmarked, hbody]
    rcases tail with _ | ⟨c, tail⟩
    · exact iff_of_true rfl (by decide)
    · by_cases hc : digitValue c < 16
      · have htake : (c :: tail).takeWhile (fun c => digitValue c < 16) ≠ [] := by
          rw [List.takeWhile_cons_of_pos (by simpa using hc)]
          exact List.cons_ne_nil _ _
        exact iff_of_false htake (Nat.not_le_of_lt hc)
      · have htake : (c :: tail).takeWhile (fun c => digitValue c < 16) = [] :=
          List.takeWhile_cons_of_neg (by simpa using hc)
        exact iff_of_true htake (Nat.le_of_not_lt hc)
  constructor
  · rintro ⟨hbase, x, tail, hbody, hx, hbare⟩
    have hmarked : marked base (bodyOf text) = true :=
      marked_iff.mpr ⟨hbase, x, tail, hbody, hx⟩
    exact ⟨hmarked, (hdigits hbody hmarked).mpr hbare⟩
  · rintro ⟨hmarked, hnil⟩
    obtain ⟨hbase, x, tail, hbody, hx⟩ := marked_iff.mp hmarked
    exact ⟨hbase, x, tail, hbody, hx, (hdigits hbody hmarked).mp hnil⟩

/-- The end pointer tells apart two addresses. -/
lemma storeEnd_inj {stop stop' : ℕ} (hend : endptr ≠ 0) (hstop : stop < 2 ^ 64)
    (hstop' : stop' < 2 ^ 64) (heq : storeEnd m endptr stop = storeEnd m endptr stop') :
    stop = stop' := by
  rw [storeEnd, storeEnd, if_pos hend, if_pos hend] at heq
  have hword := congrArg (fun m => loadWord m endptr) heq
  simpa only [loadWord_storeWord hstop, loadWord_storeWord hstop'] using hword

/-- Behind white space and a sign the text is not longer than all of it. -/
lemma bodyStart_add_le (text : List UInt8) :
    bodyStart text + (bodyOf text).length ≤ text.length := by
  have hlength := congrArg List.length (List.takeWhile_append_dropWhile (p := isspace) (l := text))
  rw [List.length_append] at hlength
  have hsign : (signOf (afterSpace text)).2 ≤ (afterSpace text).length := by
    rcases afterSpace text with _ | ⟨c, rest⟩
    · exact Nat.le_refl 0
    · rw [signOf, List.length_cons]
      split
      · exact Nat.le_add_left 1 _
      · split
        · exact Nat.le_add_left 1 _
        · exact Nat.zero_le _
  rw [bodyStart, bodyOf, List.length_drop]
  rw [afterSpace] at hsign ⊢
  omega

/-- The value of `strtol`, from what `parse_uint` finds. -/
lemma isoLong_eq (negative : Bool) (length v : ℕ) :
    isoLong (some ⟨length, negative, v⟩) =
      if negative then if i64Max < min v u64Max then -2 ^ 63 else -((min v u64Max : ℕ) : ℤ)
      else if i64Max < min v u64Max then (i64Max : ℤ) else (min v u64Max : ℕ) := by
  have hlong : i64Max = 2 ^ 63 - 1 := by decide
  have hunsigned : u64Max = 2 ^ 64 - 1 := by decide
  simp only [isoLong, hlong, hunsigned]
  cases negative with
  | false =>
    simp only [Bool.false_eq_true, if_false]
    split_ifs <;> omega
  | true =>
    simp only [if_true]
    split_ifs <;> omega

/-- The value of `strtoul`, from what `parse_uint` finds, unless a large number has a sign. -/
lemma isoUnsignedLong_iff (negative : Bool) (length v : ℕ) :
    isoUnsignedLong (some ⟨length, negative, v⟩) =
      (if negative then if min v u64Max = 0 then 0 else u64Max - min v u64Max + 1
      else min v u64Max) ↔ (negative = true → v < 2 ^ 64) := by
  have hunsigned : u64Max = 2 ^ 64 - 1 := by decide
  simp only [isoUnsignedLong, hunsigned]
  cases negative with
  | false =>
    simp only [Bool.false_eq_true, if_false, false_imp_iff, iff_true]
    split_ifs <;> omega
  | true =>
    simp only [if_true, true_imp_iff]
    split_ifs <;> omega

lemma strtol_eq {found : ParsedInt} (hnptr : nptr ≠ 0) (hend : endptr ≠ 0)
    (h : parseUint m nptr base = some found) :
    strtol m nptr endptr base =
      some (if found.negative then if i64Max < found.value then -2 ^ 63 else -(found.value : ℤ)
        else if i64Max < found.value then (i64Max : ℤ) else found.value,
        storeEnd m endptr found.stop) := by
  rw [strtol, nonNull_of_ne hnptr, nonNull_of_ne hend]
  simp only [Option.bind_eq_bind, Option.bind_some, h]
  split_ifs <;> rfl

lemma strtoul_eq {found : ParsedInt} (hnptr : nptr ≠ 0) (hend : endptr ≠ 0)
    (h : parseUint m nptr base = some found) (hle : found.value ≤ u64Max) :
    strtoul m nptr endptr base =
      some (if found.negative then if found.value = 0 then 0 else u64Max - found.value + 1
        else found.value, storeEnd m endptr found.stop) := by
  have hunsigned : u64Max = 2 ^ 64 - 1 := by decide
  rw [strtoul, nonNull_of_ne hnptr, nonNull_of_ne hend]
  simp only [Option.bind_eq_bind, Option.bind_some, h]
  split_ifs with hnegative hzero
  · rfl
  · have hadd : checkedAdd 64 (u64Max - found.value) 1 = some (u64Max - found.value + 1) :=
      if_pos (by omega)
    rw [hadd]
    rfl
  · rfl

/-- What there is to convert. -/
lemma isoConversion_of_bareMark (h : BareMark base text) :
    isoConversion base text = some ⟨bodyStart text + 1, (signOf (afterSpace text)).1, 0⟩ := by
  obtain ⟨hmarked, hnil⟩ := bareMark_iff.mp h
  rw [isoConversion, firstNumeral, if_pos hnil, if_pos hmarked]
  rfl

lemma isoConversion_of_nil (h : ¬BareMark base text) (hnil : digitsOf base (bodyOf text) = []) :
    isoConversion base text = none := by
  have hmarked : ¬marked base (bodyOf text) = true := fun hmarked =>
    h (bareMark_iff.mpr ⟨hmarked, hnil⟩)
  rw [isoConversion, firstNumeral, if_pos hnil, if_neg hmarked]
  rfl

lemma isoConversion_of_ne_nil (hne : digitsOf base (bodyOf text) ≠ []) :
    isoConversion base text =
      some ⟨bodyStart text + (markLength base (bodyOf text) + (digitsOf base (bodyOf text)).length),
        (signOf (afterSpace text)).1,
        numberOf (radixOf base (bodyOf text)) 0 (digitsOf base (bodyOf text))⟩ := by
  have hlength : ((bodyOf text).take (markLength base (bodyOf text))).length =
      markLength base (bodyOf text) := by
    rw [List.length_take, markLength]
    split
    · next hmarked =>
      obtain ⟨-, x, tail, hbody, -⟩ := marked_iff.mp hmarked
      rw [hbody, List.length_cons, List.length_cons]
      omega
    · exact Nat.zero_min _
  rw [isoConversion, firstNumeral, if_neg hne, Option.map_some]
  dsimp only
  rw [List.length_append]
  exact congrArg (fun length => some (Conversion.mk (bodyStart text + (length + _)) _ _)) hlength

/-- Without an end pointer nothing is converted: to read a null pointer traps. -/
lemma strtol_null (m : Memory) (nptr base : ℕ) : strtol m nptr 0 base = none := by
  rw [strtol]
  rcases nonNull nptr with _ | p
  · rfl
  · rw [Option.bind_eq_bind, Option.bind_some]
    cases parseUint m p base <;> rfl

/-- **`strtol` and `strtoul` do what ISO C says if and only if** there is an end pointer, the text
has no prefix without a digit, and no number with a minus sign is too large. -/
theorem conversions_iff (hnptr : nptr ≠ 0) (htext : TextAt m nptr text) (hbase : base ≤ 36)
    {conversion : Option Conversion} (hconverts : Converts base text conversion) :
    strtol m nptr endptr base =
        some (isoLong conversion, storeEnd m endptr (isoEnd nptr conversion)) ∧
      strtoul m nptr endptr base =
        some (isoUnsignedLong conversion, storeEnd m endptr (isoEnd nptr conversion)) ↔
    endptr ≠ 0 ∧ ¬BareMark base text ∧
      ∀ found, conversion = some found → found.negative = true → found.magnitude < 2 ^ 64 := by
  by_cases hend : endptr = 0
  · rw [hend, strtol_null]
    exact iff_of_false (fun h => absurd h.1 nofun) fun h => h.1 rfl
  rw [and_iff_right hend]
  obtain rfl := (converts_iff hbase).mp hconverts
  have hlt := htext.lt
  have hparse := parseUint_eq htext hbase
  rw [strtol_eq hnptr hend hparse, strtoul_eq hnptr hend hparse (Nat.min_le_right _ _)]
  simp only [Option.some.injEq, Prod.mk.injEq]
  by_cases hnil : digitsOf base (bodyOf text) = []
  · have hvalue : min (numberOf (radixOf base (bodyOf text)) 0 (digitsOf base (bodyOf text)))
        u64Max = 0 := by
      rw [hnil]
      exact Nat.zero_min _
    have hzero : ∀ negative : Bool, (if negative = true then
        if i64Max < 0 then (-2 ^ 63 : ℤ) else -((0 : ℕ) : ℤ)
        else if i64Max < 0 then (i64Max : ℤ) else ((0 : ℕ) : ℤ)) = 0 := by
      intro negative
      cases negative <;> rfl
    rw [if_pos hnil, hvalue, hzero, if_pos rfl, ite_self]
    by_cases hbare : BareMark base text
    · obtain ⟨-, x, tail, hbody, -⟩ := id hbare
      have hle := bodyStart_add_le text
      rw [hbody, List.length_cons, List.length_cons] at hle
      rw [isoConversion_of_bareMark hbare, isoEnd]
      refine iff_of_false ?_ fun h => h.1 hbare
      rintro ⟨⟨-, hstore⟩, -⟩
      have hsame : nptr = nptr + (bodyStart text + 1) :=
        storeEnd_inj hend (by omega) (by omega) hstore
      omega
    · rw [isoConversion_of_nil hbare hnil]
      refine iff_of_true ⟨⟨rfl, rfl⟩, rfl, rfl⟩ ⟨hbare, ?_⟩
      rintro found hfound -
      exact absurd hfound (by simp)
  · have hbare : ¬BareMark base text := fun h => hnil (bareMark_iff.mp h).2
    rw [if_neg hnil, isoConversion_of_ne_nil hnil]
    have hlong := isoLong_eq (signOf (afterSpace text)).1
      (bodyStart text + (markLength base (bodyOf text) + (digitsOf base (bodyOf text)).length))
      (numberOf (radixOf base (bodyOf text)) 0 (digitsOf base (bodyOf text)))
    have hunsigned := isoUnsignedLong_iff (signOf (afterSpace text)).1
      (bodyStart text + (markLength base (bodyOf text) + (digitsOf base (bodyOf text)).length))
      (numberOf (radixOf base (bodyOf text)) 0 (digitsOf base (bodyOf text)))
    constructor
    · rintro ⟨-, hvalue, -⟩
      refine ⟨hbare, ?_⟩
      rintro found hfound
      obtain rfl := Option.some.inj hfound
      exact hunsigned.mp hvalue.symm
    · rintro ⟨-, hsmall⟩
      exact ⟨⟨hlong.symm, rfl⟩, (hunsigned.mpr (hsmall _ rfl)).symm, rfl⟩

/-- A text at the address 16. -/
def textMemory (text : List UInt8) : Memory := fun a => text.getD (a - 16) 0

/-- ` -0x7fz`. -/
def minusHex : List UInt8 := [32, 45, 48, 120, 55, 102, 122]

/-- `0x`. -/
def bareHex : List UInt8 := [48, 120]

/-- `-18446744073709551616`. -/
def minusLarge : List UInt8 :=
  [45, 49, 56, 52, 52, 54, 55, 52, 52, 48, 55, 51, 55, 48, 57, 53, 53, 49, 54, 49, 54]

/-- ` -0x7fz` in base 0, with an end pointer. -/
theorem conversions_minusHex :
    strtol (textMemory minusHex) 16 8 0 =
        some (isoLong (some ⟨6, true, 127⟩),
          storeEnd (textMemory minusHex) 8 (isoEnd 16 (some ⟨6, true, 127⟩))) ∧
      strtoul (textMemory minusHex) 16 8 0 =
        some (isoUnsignedLong (some ⟨6, true, 127⟩),
          storeEnd (textMemory minusHex) 8 (isoEnd 16 (some ⟨6, true, 127⟩))) ↔
    8 ≠ 0 ∧ ¬BareMark 0 minusHex ∧
      ∀ found, some (⟨6, true, 127⟩ : Conversion) = some found → found.negative = true →
        found.magnitude < 2 ^ 64 := by
  have htext : TextAt (textMemory minusHex) 16 minusHex :=
    ⟨rfl, by decide, rfl, by decide, rfl, by decide, rfl, by decide, rfl, by decide, rfl,
      by decide, rfl, by decide, rfl, by decide⟩
  exact conversions_iff (by decide) htext (by decide) ((converts_iff (by decide)).mpr (by decide))

/-- `0x` is a zero and ends behind it, but the end pointer is set to its start; the magnitude of
`-18446744073709551616` is too large, but its `strtoul` is one; and `7` traps without an end
pointer. -/
theorem conversions_fail :
    Converts 16 bareHex (some ⟨1, false, 0⟩) ∧
      (strtol (textMemory bareHex) 16 8 16).map (fun r => loadWord r.2 8) = some 16 ∧
      isoEnd 16 (some ⟨1, false, 0⟩) = 17 ∧
    Converts 10 minusLarge (some ⟨21, true, 2 ^ 64⟩) ∧
      (strtoul (textMemory minusLarge) 16 8 10).map Prod.fst = some 1 ∧
      isoUnsignedLong (some ⟨21, true, 2 ^ 64⟩) = 2 ^ 64 - 1 ∧
    Converts 10 [55] (some ⟨1, false, 7⟩) ∧ strtol (textMemory [55]) 16 0 10 = none :=
  ⟨(converts_iff (by decide)).mpr (by decide), by decide, rfl,
    (converts_iff (by decide)).mpr (by decide), by decide, by decide,
    (converts_iff (by decide)).mpr (by decide), rfl⟩

end ModernC.Libc
