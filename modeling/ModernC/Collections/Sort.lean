import Mathlib.Data.List.Induction
import Mathlib.Data.Nat.Init
import Mathlib.Order.RelClasses
import ModernC.Framework.CheckedWords
import ModernC.Framework.Orderings
import ModernC.Framework.WhileLoops

/-!
# Sorting and searching

`std/sort` sorts a slice in place, by inserting each element into the ones in front of it, and
searches an ordered slice by halving an interval.  Every access to a slice is checked, and so is the
arithmetic on indices.
-/

namespace ModernC.Collections

open Framework

variable {T : Type}

/-! ## The program -/

/-- A slice, whose length is a word. -/
abbrev Slice (T : Type) := {xs : List T // xs.length < 2 ^ 64}

/-- `xs[i] = x` -/
def writeAt (xs : List T) (i : ℕ) (x : T) : Option (List T) :=
  if i < xs.length then some (xs.set i x) else none

/-- The inner loop, from `j` down: elements move up until one stops the key. -/
def shiftUp (stops : T → T → Bool) (key : T) : ℕ → List T → Option (ℕ × List T)
  | 0, xs => some (0, xs)
  | j + 1, xs => do
    let before ← xs[j]?
    if stops key before then some (j + 1, xs)
    else do
      let xs ← writeAt xs (j + 1) before
      shiftUp stops key j xs

/-- The variables of the outer loop. -/
structure Sorting (T : Type) where
  i : ℕ
  xs : List T

/-- A pass of the outer loop. -/
def insertNext (stops : T → T → Bool) (s : Sorting T) : Option (Sorting T) := do
  let key ← s.xs[s.i]?
  let (j, xs) ← shiftUp stops key s.i s.xs
  let xs ← writeAt xs j key
  let i ← checkedAdd 64 s.i 1
  return ⟨i, xs⟩

def insertionSort (stops : T → T → Bool) (xs : List T) : Option (List T) := do
  let n := xs.length
  let s ← whileLoop (fun s => decide (s.i < n)) (insertNext stops) n ⟨1, xs⟩
  return s.xs

def sort (less : T → T → Bool) (xs : List T) : Option (List T) :=
  insertionSort (fun key before => !less key before) xs

def sortU32 (xs : List UInt32) : Option (List UInt32) :=
  insertionSort (fun key before => decide (before ≤ key)) xs

/-- The rest of the loop of `is_sorted`, from `i` on. -/
def isSortedFrom (less : T → T → Bool) (xs : List T) : ℕ → ℕ → Option Bool
  | 0, _ => some true
  | left + 1, i => do
    let x ← xs[i]?
    let j ← checkedSub i 1
    let before ← xs[j]?
    if less x before then some false
    else do
      let i ← checkedAdd 64 i 1
      isSortedFrom less xs left i

def isSorted (less : T → T → Bool) (xs : List T) : Option Bool :=
  isSortedFrom less xs (xs.length - 1) 1

/-- `a < b` on `u32` -/
def lessU32 (a b : UInt32) : Bool := decide (a < b)

/-- The variables of a search, with the index that it found. -/
structure Search where
  lo : ℕ
  hi : ℕ
  found : Option ℕ

/-- `lo + (hi - lo) / 2` -/
def midpoint (s : Search) : Option ℕ := do
  let width ← checkedSub s.hi s.lo
  let half ← checkedDiv width 2
  checkedAdd 64 s.lo half

def halveLower (less : T → T → Bool) (xs : List T) (key : T) (s : Search) : Option Search := do
  let mid ← midpoint s
  let x ← xs[mid]?
  if less x key then do
    let lo ← checkedAdd 64 mid 1
    return { s with lo }
  else return { s with hi := mid }

def lowerBound (less : T → T → Bool) (xs : List T) (key : T) : Option ℕ := do
  let s ← whileLoop (fun s => decide (s.lo < s.hi)) (halveLower less xs key) xs.length
    ⟨0, xs.length, none⟩
  return s.lo

def halveBinary (xs : List UInt32) (key : UInt32) (s : Search) : Option Search := do
  let mid ← midpoint s
  let v ← xs[mid]?
  if v = key then return { s with found := some mid }
  else if v < key then do
    let lo ← checkedAdd 64 mid 1
    return { s with lo }
  else return { s with hi := mid }

def binarySearchU32 (xs : List UInt32) (key : UInt32) : Option ℕ := do
  let s ← whileLoop (fun s => s.found.isNone && decide (s.lo < s.hi)) (halveBinary xs key)
    (xs.length + 1) ⟨0, xs.length, none⟩
  return s.found.getD xs.length

variable {less : T → T → Bool} {stops : T → T → Bool} {xs ys rest front back : List T}
  {key x : T} {i j : ℕ}

/-! ## Insertion -/

lemma writeAt_append (front : List T) (x y : T) (rest : List T) :
    writeAt (front ++ x :: rest) front.length y = some (front ++ y :: rest) := by
  rw [writeAt, if_pos (by simp)]
  simp

lemma getElem?_append_cons (front : List T) (x : T) (rest : List T) :
    (front ++ x :: rest)[front.length]? = some x := by
  simp

/-- The elements in front of the hole are those in front of where the key belongs and those that
moved up. -/
lemma shiftUp_spec (stops : T → T → Bool) (key x : T) (sorted rest : List T) :
    ∃ front back xs, sorted = front ++ back ∧
      shiftUp stops key sorted.length (sorted ++ x :: rest) = some (front.length, xs) ∧
      writeAt xs front.length key = some (front ++ key :: (back ++ rest)) ∧
      (∀ y ∈ back, stops key y = false) ∧ ∀ last ∈ front.getLast?, stops key last = true := by
  induction sorted using List.reverseRecOn generalizing x rest with
  | nil =>
    exact ⟨[], [], x :: rest, rfl, rfl, writeAt_append [] x key rest, nofun, nofun⟩
  | append_singleton sorted y ih =>
    have hread : (sorted ++ [y] ++ x :: rest)[sorted.length]? = some y := by
      rw [List.append_assoc]
      exact getElem?_append_cons sorted y (x :: rest)
    rw [List.length_append, List.length_singleton, shiftUp, hread, Option.bind_eq_bind,
      Option.bind_some]
    by_cases hstops : stops key y = true
    · rw [if_pos hstops]
      refine ⟨sorted ++ [y], [], sorted ++ [y] ++ x :: rest, (List.append_nil _).symm, ?_, ?_,
        nofun, ?_⟩
      · rw [List.length_append, List.length_singleton]
      · exact writeAt_append (sorted ++ [y]) x key rest
      · intro last hlast
        obtain rfl : y = last := by simpa using hlast
        exact hstops
    · obtain ⟨front, back, xs, rfl, hshift, hwrite, hback, hfront⟩ := ih y (y :: rest)
      have hmove : writeAt (front ++ back ++ [y] ++ x :: rest) ((front ++ back).length + 1) y =
          some (front ++ back ++ y :: y :: rest) := by
        have h := writeAt_append (front ++ back ++ [y]) x y rest
        rw [List.length_append, List.length_singleton] at h
        rw [h, List.append_assoc (front ++ back)]
        rfl
      rw [if_neg hstops, hmove, Option.bind_eq_bind, Option.bind_some, hshift]
      refine ⟨front, back ++ [y], xs, (List.append_assoc _ _ _), rfl, ?_, ?_, hfront⟩
      · rw [hwrite, List.append_assoc]
        rfl
      · intro z hz
        rcases List.mem_append.mp hz with hz | hz
        · exact hback z hz
        · rw [List.mem_singleton.mp hz]
          exact Bool.eq_false_iff.mpr hstops

/-- What the outer loop keeps: the first elements are ordered, and stably rearranged. -/
def Inserting (less : T → T → Bool) (xs : List T) (s : Sorting T) : Prop :=
  ∃ first sorted rest, xs = first ++ rest ∧ s.xs = sorted ++ rest ∧
    sorted.length = min s.i xs.length ∧ Ordered less sorted ∧ StablePerm less sorted first

lemma inserting_one (less : T → T → Bool) (xs : List T) : Inserting less xs ⟨1, xs⟩ := by
  cases xs with
  | nil => exact ⟨[], [], [], rfl, rfl, rfl, List.Pairwise.nil, .refl less []⟩
  | cons x xs =>
    refine ⟨[x], [x], xs, rfl, rfl, ?_, List.pairwise_singleton _ x, .refl less [x]⟩
    simp

section Order

variable [IsStrictWeakOrder T fun a b => less a b = true]

lemma Inserting.step {s : Sorting T} (h : Inserting less xs s) (hxs : xs.length < 2 ^ 64)
    (hlt : s.i < xs.length) :
    ∃ next, insertNext (fun key before => !less key before) s = some next ∧
      Inserting less xs next ∧ next.i = s.i + 1 := by
  obtain ⟨i, ys⟩ := s
  obtain ⟨first, sorted, rest, rfl, rfl, hlength, hordered, hstable⟩ := h
  dsimp only at hlength hlt
  rw [Nat.min_eq_left (Nat.le_of_lt hlt)] at hlength
  obtain rfl : sorted.length = i := hlength
  have hsame : sorted.length = first.length := hstable.1.length_eq
  cases rest with
  | nil =>
    rw [List.append_nil, hsame] at hlt
    exact absurd hlt (Nat.lt_irrefl _)
  | cons key rest =>
    obtain ⟨front, back, zs, rfl, hshift, hwrite, hback, hfront⟩ :=
      shiftUp_spec (fun key before => !less key before) key key sorted rest
    have hafter : ∀ y ∈ back, less key y = true := fun y hy => by simpa using hback y hy
    have hbefore : ∀ y ∈ front, less key y = false :=
      Ordered.not_less_of_getLast (List.pairwise_append.mp hordered).1
        fun last hlast => by simpa using hfront last hlast
    have hadd : checkedAdd 64 (front ++ back).length 1 = some ((front ++ back).length + 1) :=
      checkedAdd_eq_some.mpr ⟨by omega, rfl⟩
    refine ⟨⟨(front ++ back).length + 1, front ++ key :: (back ++ rest)⟩, ?_, ?_, rfl⟩
    · simp only [insertNext, getElem?_append_cons, hshift, hwrite, hadd, Option.bind_eq_bind,
        Option.bind_some]
      rfl
    · refine ⟨first ++ [key], front ++ key :: back, rest, (List.append_cons first key rest), ?_, ?_,
        hordered.insert hbefore hafter, ?_⟩
      · rw [List.append_assoc, List.cons_append]
      · simp only [List.length_append, List.length_cons] at hlt hsame ⊢
        omega
      · exact (stablePerm_insert hafter).trans (hstable.append_right [key])

/-- **The sort** leaves an ordered list in which the elements that are alike kept their order. -/
theorem sort_spec (hxs : xs.length < 2 ^ 64) :
    ∃ ys, sort less xs = some ys ∧ Ordered less ys ∧ StablePerm less ys xs := by
  obtain ⟨s, hloop, h, hend⟩ := whileLoop_spec (Inserting less xs)
    (fun s => xs.length - s.i)
    (fun s hcond h => by
      have hlt : s.i < xs.length := of_decide_eq_true hcond
      obtain ⟨next, hnext, hkept, hi⟩ := h.step hxs hlt
      exact ⟨next, hnext, hkept, by omega⟩)
    (inserting_one less xs) (Nat.sub_le xs.length 1 : xs.length - 1 ≤ xs.length)
  have hle : xs.length ≤ s.i := by simpa using hend
  obtain ⟨first, sorted, rest, hxs, hys, hlength, hordered, hstable⟩ := h
  rw [Nat.min_eq_right hle, hstable.1.length_eq, hxs, List.length_append] at hlength
  obtain rfl : rest = [] := List.eq_nil_of_length_eq_zero (by omega)
  rw [List.append_nil] at hxs hys
  refine ⟨s.xs, ?_, hys ▸ hordered, ?_⟩
  · rw [sort, insertionSort, hloop]
    rfl
  · rw [hys, hxs]
    exact hstable

/-! ## Ordered slices -/

omit [IsStrictWeakOrder T fun a b => less a b = true] in
/-- The loop compares each element from `i` on with the one in front of it. -/
lemma isSortedFrom_spec {left : ℕ} (hi : 1 ≤ i) (hleft : i + left = xs.length)
    (hxs : xs.length < 2 ^ 64) :
    ∃ r, isSortedFrom less xs left i = some r ∧
      (r = true ↔ ∀ k (h : k + 1 < xs.length), i ≤ k + 1 → less xs[k + 1] xs[k] = false) := by
  induction left generalizing i with
  | zero => exact ⟨true, rfl, iff_of_true rfl fun k h hk => by omega⟩
  | succ left ih =>
    obtain ⟨j, rfl⟩ : ∃ j, i = j + 1 := ⟨i - 1, by omega⟩
    have hlt : j + 1 < xs.length := by omega
    have hsub : checkedSub (j + 1) 1 = some j := checkedSub_eq_some.mpr ⟨by omega, by omega⟩
    have hadd : checkedAdd 64 (j + 1) 1 = some (j + 1 + 1) :=
      checkedAdd_eq_some.mpr ⟨by omega, rfl⟩
    simp only [isSortedFrom, List.getElem?_eq_getElem hlt, hsub, hadd, Option.bind_eq_bind,
      Option.bind_some, List.getElem?_eq_getElem (Nat.lt_of_succ_lt hlt)]
    by_cases hless : less xs[j + 1] xs[j] = true
    · rw [if_pos hless]
      refine ⟨false, rfl, iff_of_false Bool.false_ne_true fun h => ?_⟩
      exact Bool.false_ne_true ((h j hlt (Nat.le_refl _)).symm.trans hless)
    · rw [if_neg hless]
      obtain ⟨r, hrun, hr⟩ := ih (i := j + 1 + 1) (by omega) (by omega)
      refine ⟨r, hrun, hr.trans ⟨fun h k hk hle => ?_, fun h k hk hle => h k hk (by omega)⟩⟩
      rcases Nat.lt_or_eq_of_le hle with hlt' | heq
      · exact h k hk hlt'
      · obtain rfl : j = k := by omega
        exact Bool.eq_false_iff.mpr hless

/-- No element comes before the one in front of it, so none comes before any in front of it. -/
lemma ordered_of_adjacent
    (h : ∀ k (hk : k + 1 < xs.length), less xs[k + 1] xs[k] = false) : Ordered less xs := by
  refine List.pairwise_iff_getElem.mpr fun i j hi hj hij => ?_
  induction j, hij using Nat.le_induction with
  | base => exact h i hj
  | succ j hij ih => exact not_less_trans (h j hj) (ih (Nat.lt_of_succ_lt hj))

/-- **`isSorted`** decides the order of all pairs by its neighbours, and never traps. -/
theorem isSorted_spec (hxs : xs.length < 2 ^ 64) :
    ∃ r, isSorted less xs = some r ∧ (r = true ↔ Ordered less xs) := by
  rcases Nat.eq_zero_or_pos xs.length with hzero | hpos
  · obtain rfl := List.eq_nil_of_length_eq_zero hzero
    exact ⟨true, rfl, iff_of_true rfl List.Pairwise.nil⟩
  · have hleft : 1 + (xs.length - 1) = xs.length := Nat.add_sub_of_le hpos
    obtain ⟨r, hrun, hr⟩ : ∃ r, isSortedFrom less xs (xs.length - 1) 1 = some r ∧ _ :=
      isSortedFrom_spec (Nat.le_refl 1) hleft hxs
    refine ⟨r, hrun, hr.trans ⟨fun h => ?_, fun h k hk _ => ?_⟩⟩
    · exact ordered_of_adjacent fun k hk => h k hk (by omega)
    · exact h.getElem (Nat.lt_succ_self k) hk

/-! ## Halving -/

lemma midpoint_eq {s : Search} (hlt : s.lo < s.hi) (hhi : s.hi < 2 ^ 64) :
    ∃ mid, midpoint s = some mid ∧ s.lo ≤ mid ∧ mid < s.hi := by
  have hsub : checkedSub s.hi s.lo = some (s.hi - s.lo) :=
    checkedSub_eq_some.mpr ⟨by omega, rfl⟩
  have hdiv : checkedDiv (s.hi - s.lo) 2 = some ((s.hi - s.lo) / 2) :=
    checkedDiv_eq_some.mpr ⟨by omega, rfl⟩
  refine ⟨s.lo + (s.hi - s.lo) / 2, ?_, by omega, by omega⟩
  simp only [midpoint, hsub, hdiv, Option.bind_eq_bind, Option.bind_some]
  exact checkedAdd_eq_some.mpr ⟨by omega, rfl⟩

/-- What lies outside of the interval is on its side of the key. -/
structure Halves (below : T → Prop) (above : T → Prop) (xs : List T) (s : Search) : Prop where
  le : s.lo ≤ s.hi
  hi_le : s.hi ≤ xs.length
  front : ∀ k (h : k < xs.length), k < s.lo → below xs[k]
  back : ∀ k (h : k < xs.length), s.hi ≤ k → above xs[k]

omit [IsStrictWeakOrder T fun a b => less a b = true] in
lemma halves_whole {below above : T → Prop} (xs : List T) :
    Halves below above xs ⟨0, xs.length, none⟩ where
  le := Nat.zero_le _
  hi_le := Nat.le_refl _
  front _ _ hk := absurd hk (Nat.not_lt_zero _)
  back _ hk hle := absurd hk (Nat.not_lt.mpr hle)

/-- The interval of `lower_bound`. -/
abbrev LowerHalves (less : T → T → Bool) (key : T) : List T → Search → Prop :=
  Halves (fun x => less x key = true) fun x => less x key = false

lemma lowerBound_spec (hxs : xs.length < 2 ^ 64) (hordered : Ordered less xs) (key : T) :
    ∃ i, lowerBound less xs key = some i ∧ IsLeast (boundsOf less xs key) i := by
  have hpass : ∀ s : Search, decide (s.lo < s.hi) = true →
      LowerHalves less key xs s → ∃ next, halveLower less xs key s = some next ∧
        LowerHalves less key xs next ∧ next.hi - next.lo < s.hi - s.lo := by
    intro s hcond h
    have hhi := h.hi_le
    obtain ⟨mid, hmid, hlo, hlt⟩ := midpoint_eq (of_decide_eq_true hcond) (by omega)
    have hread : xs[mid]? = some xs[mid] := List.getElem?_eq_getElem (by omega)
    by_cases hless : less xs[mid] key = true
    · have hadd : checkedAdd 64 mid 1 = some (mid + 1) := checkedAdd_eq_some.mpr ⟨by omega, rfl⟩
      refine ⟨{ s with lo := mid + 1 }, ?_, ⟨hlt, hhi, fun k hk hkm => ?_, h.back⟩, ?_⟩
      · simp only [halveLower, hmid, hread, hadd, Option.bind_eq_bind, Option.bind_some]
        rw [if_pos hless]
        rfl
      · exact hordered.less_of_le (Nat.le_of_lt_succ hkm) (by omega) hless
      · dsimp only
        omega
    · have hnot : less xs[mid] key = false := Bool.eq_false_iff.mpr hless
      refine ⟨{ s with hi := mid }, ?_,
        ⟨hlo, by dsimp only; omega, h.front, fun k hk hkm => ?_⟩, ?_⟩
      · simp only [halveLower, hmid, hread, Option.bind_eq_bind, Option.bind_some]
        rw [if_neg hless]
        rfl
      · exact hordered.not_less_of_le hkm hk hnot
      · dsimp only
        omega
  obtain ⟨s, hloop, h, hend⟩ := whileLoop_spec (LowerHalves less key xs)
    (fun s => s.hi - s.lo) hpass (halves_whole xs) (Nat.sub_le _ _)
  have hge : s.hi ≤ s.lo := by simpa using hend
  have hmeet : s.lo = s.hi := Nat.le_antisymm h.le hge
  refine ⟨s.lo, ?_, isLeast_boundsOf (Nat.le_trans h.le h.hi_le) h.front ?_⟩
  · rw [lowerBound, hloop]
    rfl
  · exact fun k hk hle => h.back k hk (hmeet ▸ hle)

end Order

/-! ## Words -/

instance : IsStrictWeakOrder UInt32 fun a b => lessU32 a b = true where
  irrefl a := by simp [lessU32]
  trans a b c hab hbc := by
    simp only [lessU32, decide_eq_true_eq, UInt32.lt_iff_toNat_lt] at *
    omega
  incomp_trans a b c hab hbc := by
    simp only [lessU32, decide_eq_true_eq, UInt32.lt_iff_toNat_lt] at *
    omega

lemma lessU32_eq_false {a b : UInt32} : lessU32 a b = false ↔ b ≤ a := by
  rw [lessU32, decide_eq_false_iff_not, UInt32.not_lt]

/-- The sort of words stops where the generic one does. -/
lemma sortU32_eq (words : List UInt32) : sortU32 words = sort lessU32 words := by
  have hstops : (fun key before : UInt32 => decide (before ≤ key)) =
      fun key before => !lessU32 key before := by
    funext key before
    rw [lessU32, ← decide_not, decide_eq_decide, UInt32.not_lt]
  rw [sortU32, hstops, sort]

variable {words : List UInt32} {word : UInt32}

/-- What a search keeps: the key is at the index that it found, or is in the interval. -/
def Searching (words : List UInt32) (word : UInt32) (s : Search) : Prop :=
  match s.found with
  | some i => words[i]? = some word
  | none => Halves (fun x => x < word) (fun x => word < x) words s

/-- A search that goes on has an interval. -/
def Search.left (s : Search) : ℕ := if s.found.isNone then s.hi - s.lo + 1 else 0

lemma Searching.step {s : Search} (hwords : words.length < 2 ^ 64)
    (hordered : Ordered lessU32 words) (h : Searching words word s)
    (hcond : (s.found.isNone && decide (s.lo < s.hi)) = true) :
    ∃ next, halveBinary words word s = some next ∧ Searching words word next ∧
      next.left < s.left := by
  obtain ⟨hnone, hlt⟩ := Bool.and_eq_true_iff.mp hcond
  obtain ⟨lo, hi, found⟩ := s
  obtain rfl : found = none := Option.isNone_iff_eq_none.mp hnone
  replace h : Halves (fun x => x < word) (fun x => word < x) words ⟨lo, hi, none⟩ := h
  have hhi : hi ≤ words.length := h.hi_le
  obtain ⟨mid, hmid, hlo, hmidlt⟩ := midpoint_eq (s := ⟨lo, hi, none⟩) (of_decide_eq_true hlt)
    (by dsimp only; omega)
  dsimp only at hlo hmidlt
  have hread : words[mid]? = some words[mid] := List.getElem?_eq_getElem (by omega)
  simp only [halveBinary, hmid, hread, Option.bind_eq_bind, Option.bind_some]
  have horder : words[mid] < word ∨ words[mid] = word ∨ word < words[mid] := by
    simp only [UInt32.lt_iff_toNat_lt, ← UInt32.toNat_inj]
    omega
  rcases horder with hless | heq | hgreater
  · have hne : words[mid] ≠ word := UInt32.ne_of_lt hless
    have hadd : checkedAdd 64 mid 1 = some (mid + 1) := checkedAdd_eq_some.mpr ⟨by omega, rfl⟩
    rw [if_neg hne, if_pos hless, hadd]
    refine ⟨⟨mid + 1, hi, none⟩, rfl, ⟨hmidlt, hhi, fun k hk hkm => ?_, h.back⟩, ?_⟩
    · have hbelow : decide (words[k] < word) = true :=
        hordered.less_of_le (Nat.le_of_lt_succ hkm) (by omega) (decide_eq_true hless)
      exact of_decide_eq_true hbelow
    · simp only [Search.left, Option.isNone_none, if_true]
      omega
  · rw [if_pos heq]
    refine ⟨⟨lo, hi, some mid⟩, rfl, ?_, ?_⟩
    · exact hread.trans (congrArg some heq)
    · simp [Search.left]
  · have hne : words[mid] ≠ word := (UInt32.ne_of_lt hgreater).symm
    have hnot : ¬ words[mid] < word := UInt32.not_lt.mpr (UInt32.le_of_lt hgreater)
    rw [if_neg hne, if_neg hnot]
    refine ⟨⟨lo, mid, none⟩, rfl, ⟨hlo, by dsimp only; omega, h.front, fun k hk hkm => ?_⟩, ?_⟩
    · rcases Nat.lt_or_eq_of_le hkm with hkm | rfl
      · have habove : words[mid] ≤ words[k] := lessU32_eq_false.mp (hordered.getElem hkm hk)
        exact UInt32.lt_of_lt_of_le hgreater habove
      · exact hgreater
    · simp only [Search.left, Option.isNone_none, if_true]
      omega

/-- The search returns the length of the slice where the key is not in it. -/
lemma binarySearchU32_spec (hwords : words.length < 2 ^ 64) (hordered : Ordered lessU32 words)
    (word : UInt32) :
    ∃ i, binarySearchU32 words word = some i ∧
      if word ∈ words then words[i]? = some word else i = words.length := by
  have hstart : Searching words word ⟨0, words.length, none⟩ := halves_whole words
  obtain ⟨⟨lo, hi, found⟩, hloop, h, hend⟩ := whileLoop_spec (Searching words word) Search.left
    (fun s hcond h => h.step hwords hordered hcond) hstart
    (by simp [Search.left] : Search.left ⟨0, words.length, none⟩ ≤ words.length + 1)
  refine ⟨found.getD words.length, ?_, ?_⟩
  · rw [binarySearchU32, hloop]
    rfl
  · cases found with
    | some i =>
      have hfound : words[i]? = some word := h
      rw [if_pos (List.mem_of_getElem? hfound)]
      exact hfound
    | none =>
      have hhalves : Halves (fun x => x < word) (fun x => word < x) words ⟨lo, hi, none⟩ := h
      have hge : hi ≤ lo := by simpa using hend
      have habsent : word ∉ words := by
        intro hmem
        obtain ⟨k, hk, rfl⟩ := List.mem_iff_getElem.mp hmem
        rcases Nat.lt_or_ge k lo with hlo | hlo
        · exact UInt32.lt_irrefl _ (hhalves.front k hk hlo)
        · exact UInt32.lt_irrefl _ (hhalves.back k hk (Nat.le_trans hge hlo))
      rw [if_neg habsent]
      rfl

/-! ## All of them -/

/-- **Sorting and searching** do what they promise on every slice. -/
theorem sort_and_search (less : T → T → Bool) [IsStrictWeakOrder T fun a b => less a b = true]
    (xs : Slice T) (key : T) (words : Slice UInt32) (word : UInt32) :
    (∃ ys, sort less xs.val = some ys ∧ Ordered less ys ∧ StablePerm less ys xs.val) ∧
      (∃ ys, sortU32 words.val = some ys ∧ Ordered lessU32 ys ∧
        StablePerm lessU32 ys words.val) ∧
      (Ordered less xs.val → ∃ i, lowerBound less xs.val key = some i ∧
        IsLeast (boundsOf less xs.val key) i) ∧
      (Ordered lessU32 words.val → ∃ i, binarySearchU32 words.val word = some i ∧
        if word ∈ words.val then words.val[i]? = some word else i = words.val.length) := by
  refine ⟨sort_spec xs.property, ?_, fun h => lowerBound_spec xs.property h key,
    fun h => binarySearchU32_spec words.property h word⟩
  rw [sortU32_eq]
  exact sort_spec words.property

theorem isSorted_words :
    ∃ r, isSorted lessU32 [1, 3, 3, 7] = some r ∧ (r = true ↔ Ordered lessU32 [1, 3, 3, 7]) :=
  isSorted_spec (by decide)

/-- Words that are sorted, and a key that two of them hold. -/
theorem sort_and_search_words :
    ∃ i, lowerBound lessU32 [1, 3, 3, 7] 3 = some i ∧ IsLeast (boundsOf lessU32 [1, 3, 3, 7] 3) i :=
  (sort_and_search lessU32 ⟨[1, 3, 3, 7], by decide⟩ 3 ⟨[], by decide⟩ 0).2.2.1
    (by simp [Ordered, lessU32])

end ModernC.Collections
