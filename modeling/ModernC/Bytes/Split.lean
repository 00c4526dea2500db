import Mathlib.Data.List.Basic
import Mathlib.Data.List.TakeWhile
import ModernC.Framework.CheckedWords
import ModernC.Framework.WhileLoops

/-!
# Splitting and searching

`split_next` yields the fields of a slice between its separators, one a call.  Joining the fields
gives the slice back.  `mem_index_of` finds the first place of a needle.
-/

namespace ModernC.Bytes.Split

open Framework

/-! ## Slices -/

/-- The bytes at an address.  No byte is at the address zero, and there is an address behind the
last one. -/
structure Slice where
  address : ℕ
  bytes : List UInt8
  not_null : bytes ≠ [] → 0 < address
  stop_lt : address + bytes.length < 2 ^ 64

lemma Slice.length_lt (s : Slice) : s.bytes.length + 1 < 2 ^ 64 := by
  have hstop := s.stop_lt
  by_cases hbytes : s.bytes = []
  · rw [hbytes]
    decide
  · have hnull := s.not_null hbytes
    omega

/-- `s[start..stop]` -/
def window (s : List UInt8) (start stop : ℕ) : Option (List UInt8) :=
  if start ≤ stop ∧ stop ≤ s.length then some ((s.take stop).drop start) else none

/-! ## The splitter -/

structure Splitter where
  s : Slice
  sep : UInt8
  pos : ℕ

structure SplitField where
  valid : Bool
  s : List UInt8
deriving DecidableEq

def splitBy (s : Slice) (sep : UInt8) : Splitter := { s, sep, pos := 0 }

/-- The loop up to the next separator. -/
def fieldEnd (base : List UInt8) (sep : UInt8) (start : ℕ) : Option ℕ :=
  loopUntil (fun i =>
    if i < base.length then do
      let b ← base[i]?
      if b = sep then return .inr i
      else do
        let i ← checkedAdd 64 i 1
        return .inl i
    else return .inr i) (base.length + 1) start

def splitNext (sp : Splitter) : Option (SplitField × Splitter) := do
  let base := sp.s.bytes
  if base.length < sp.pos then do
    let s ← window base 0 0
    return ({ valid := false, s }, sp)
  else do
    let start := sp.pos
    let i ← fieldEnd base sp.sep start
    let field ← window base start i
    let pos ← checkedAdd 64 i 1
    return ({ valid := true, s := field }, { sp with pos })

/-- What a number of calls yield. -/
def fields : ℕ → Splitter → Option (List SplitField × Splitter)
  | 0, sp => some ([], sp)
  | n + 1, sp => do
    let (field, sp) ← splitNext sp
    let (rest, sp) ← fields n sp
    return (field :: rest, sp)

/-! ## Searching -/

/-- A pass of the loop over two slices of one length. -/
def eqlPass (a b : List UInt8) (i : ℕ) : Option (ℕ ⊕ Bool) :=
  if i < a.length then do
    let x ← a[i]?
    let y ← b[i]?
    if x ≠ y then return .inr false
    else do
      let i ← checkedAdd 64 i 1
      return .inl i
  else return .inr true

def memEql (a b : List UInt8) : Option Bool :=
  if a.length ≠ b.length then some false else loopUntil (eqlPass a b) (a.length + 1) 0

/-- A pass of the loop over the places up to the last one where the needle fits. -/
def indexPass (hay needle : List UInt8) (last start : ℕ) : Option (ℕ ⊕ Option ℕ) :=
  if start ≤ last then do
    let stop ← checkedAdd 64 start needle.length
    let found ← window hay start stop
    let equal ← memEql found needle
    if equal then return .inr (some start)
    else do
      let start ← checkedAdd 64 start 1
      return .inl start
  else return .inr none

def memIndexOf (hay needle : Slice) : Option (Option ℕ) :=
  if needle.bytes.length = 0 then some (some 0)
  else if hay.bytes.length < needle.bytes.length then some none
  else do
    let last ← checkedSub hay.bytes.length needle.bytes.length
    loopUntil (indexPass hay.bytes needle.bytes last) (last + 2) 0

/-! ## One call -/

variable {sep : UInt8}

variable {start i : ℕ} {sp : Splitter} {hay needle : List UInt8}

lemma take_succ_drop {base : List UInt8} {b : UInt8} (hstart : start ≤ i) (hb : base[i]? = some b) :
    (base.take (i + 1)).drop start = (base.take i).drop start ++ [b] := by
  have hlt : i < base.length := (List.getElem?_eq_some_iff.mp hb).1
  rw [List.take_add_one, hb, Option.toList_some, List.drop_append_of_le_length]
  rw [List.length_take]
  omega

/-- A field ends at the next separator or at the end. -/
structure EndsField (base : List UInt8) (sep : UInt8) (start i : ℕ) : Prop where
  start_le : start ≤ i
  le_length : i ≤ base.length
  not_mem : sep ∉ (base.take i).drop start
  stops : i = base.length ∨ base[i]? = some sep

lemma fieldEnd_spec {base : List UInt8} (hlength : base.length + 1 < 2 ^ 64)
    (hstart : start ≤ base.length) :
    ∃ i, fieldEnd base sep start = some i ∧ EndsField base sep start i := by
  refine loopUntil_spec
    (fun i => start ≤ i ∧ i ≤ base.length ∧ sep ∉ (base.take i).drop start)
    (fun i => base.length - i) ?_ ⟨le_refl start, hstart, ?_⟩ (by omega)
  · rintro i ⟨hi, hle, hnot⟩
    by_cases hlt : i < base.length
    · have hb : base[i]? = some base[i] := List.getElem?_eq_getElem hlt
      by_cases hsep : base[i] = sep
      · refine .inr ⟨i, ?_, hi, hle, hnot, .inr (hsep ▸ hb)⟩
        simp [hlt, hsep]
      · refine .inl ⟨i + 1, ?_, ⟨by omega, hlt, ?_⟩, by omega⟩
        · have hadd : checkedAdd 64 i 1 = some (i + 1) := if_pos (by omega)
          simp [hlt, hsep, hadd]
        · rw [take_succ_drop hi hb, List.mem_append, List.mem_singleton]
          exact not_or.mpr ⟨hnot, Ne.symm hsep⟩
    · refine .inr ⟨i, ?_, hi, hle, hnot, .inl (by omega)⟩
      simp [hlt]
  · rw [List.drop_eq_nil_of_le (List.length_take_le _ _)]
    exact List.not_mem_nil

/-- **One call** yields the field at the cursor and steps behind its end. -/
lemma splitNext_field (hpos : sp.pos ≤ sp.s.bytes.length) :
    ∃ i, EndsField sp.s.bytes sp.sep sp.pos i ∧
      splitNext sp = some ({ valid := true, s := (sp.s.bytes.take i).drop sp.pos },
        { sp with pos := i + 1 }) := by
  have hlength := sp.s.length_lt
  obtain ⟨i, hrun, hends⟩ : ∃ i, fieldEnd sp.s.bytes sp.sep sp.pos = some i ∧
      EndsField sp.s.bytes sp.sep sp.pos i := fieldEnd_spec hlength hpos
  refine ⟨i, hends, ?_⟩
  have hle := hends.le_length
  have hwindow : window sp.s.bytes sp.pos i = some ((sp.s.bytes.take i).drop sp.pos) :=
    if_pos ⟨hends.start_le, hle⟩
  have hadd : checkedAdd 64 i 1 = some (i + 1) := if_pos (by omega)
  simp [splitNext, Nat.not_lt.mpr hpos, hrun, hwindow, hadd]

lemma splitNext_done (hpos : sp.s.bytes.length < sp.pos) :
    splitNext sp = some ({ valid := false, s := [] }, sp) := by
  have hwindow : window sp.s.bytes 0 0 = some [] := by simp [window]
  simp [splitNext, hpos, hwindow]

/-! ## All calls -/

def SplitField.ofPart (part : List UInt8) : SplitField := { valid := true, s := part }

def SplitField.done : SplitField := { valid := false, s := [] }

/-- The first fields of a number of parts, then calls that report none. -/
def stream (parts : List (List UInt8)) (n : ℕ) : List SplitField :=
  (parts.map .ofPart).take n ++ List.replicate (n - parts.length) .done

lemma fields_done (hpos : sp.s.bytes.length < sp.pos) (n : ℕ) :
    fields n sp = some (stream [] n, sp) := by
  induction n with
  | zero => rfl
  | succ n ih =>
    rw [fields, splitNext_done hpos]
    simp [ih, stream, List.replicate_succ, SplitField.done]

/-- The parts of a text between the separators. -/
structure Splits (sep : UInt8) (text : List UInt8) (parts : List (List UInt8)) : Prop where
  length : parts.length = text.count sep + 1
  not_mem : ∀ part ∈ parts, sep ∉ part
  join : List.intercalate [sep] parts = text

lemma splits_singleton {text : List UInt8} (h : sep ∉ text) : Splits sep text [text] := by
  refine ⟨?_, fun part hpart => ?_, by simp [List.intercalate]⟩
  · rw [List.count_eq_zero_of_not_mem h, List.length_singleton]
  · rwa [List.mem_singleton.mp hpart]

lemma Splits.cons {part text : List UInt8} {parts : List (List UInt8)} (h : Splits sep text parts)
    (hpart : sep ∉ part) : Splits sep (part ++ sep :: text) (part :: parts) := by
  refine ⟨?_, ?_, ?_⟩
  · rw [List.length_cons, h.length, List.count_append, List.count_eq_zero_of_not_mem hpart,
      List.count_cons_self, Nat.zero_add]
  · intro p hp
    rcases List.mem_cons.mp hp with rfl | hp
    · exact hpart
    · exact h.not_mem p hp
  · have hne : parts ≠ [] := by
      rintro rfl
      exact absurd h.length (by simp)
    obtain ⟨first, rest, rfl⟩ := List.exists_cons_of_ne_nil hne
    rw [← h.join]
    simp [List.intercalate]

lemma stream_cons (part : List UInt8) (parts : List (List UInt8)) (n : ℕ) :
    stream (part :: parts) (n + 1) = .ofPart part :: stream parts n := by
  simp [stream]

/-- From a cursor in the text the calls yield the parts behind it. -/
lemma exists_parts (s : Slice) (sep : UInt8) {pos : ℕ} (hpos : pos ≤ s.bytes.length) :
    ∃ parts, Splits sep (s.bytes.drop pos) parts ∧
      ∀ n, ∃ sp', fields n { s, sep, pos } = some (stream parts n, sp') := by
  induction hrest : s.bytes.length - pos using Nat.strong_induction_on generalizing pos with
  | _ rest ih =>
    obtain ⟨i, hends, hnext⟩ := @splitNext_field { s, sep, pos } hpos
    obtain ⟨hstart, hle, hnot, hstops⟩ : EndsField s.bytes sep pos i := hends
    have hsplit : s.bytes.drop pos = (s.bytes.take i).drop pos ++ s.bytes.drop i := by
      rw [← List.drop_append_of_le_length (by rw [List.length_take]; omega),
        List.take_append_drop]
    rcases hstops with rfl | hsep
    · -- The last field.
      refine ⟨[s.bytes.drop pos], splits_singleton ?_, fun n => ?_⟩
      · rw [List.take_length] at hnot
        exact hnot
      · cases n with
        | zero => exact ⟨_, rfl⟩
        | succ n =>
          rw [fields, hnext, stream_cons]
          simp [fields_done, SplitField.ofPart]
    · have hlt : i < s.bytes.length := (List.getElem?_eq_some_iff.mp hsep).1
      obtain ⟨parts, hparts, hcalls⟩ := ih (s.bytes.length - (i + 1)) (by omega) hlt rfl
      refine ⟨(s.bytes.take i).drop pos :: parts, ?_, fun n => ?_⟩
      · have hdrop : s.bytes.drop i = sep :: s.bytes.drop (i + 1) := by
          rw [List.drop_eq_getElem_cons hlt, (List.getElem?_eq_some_iff.mp hsep).2]
        rw [hsplit, hdrop]
        exact hparts.cons hnot
      · cases n with
        | zero => exact ⟨{ s, sep, pos }, by simp [fields, stream]⟩
        | succ n =>
          obtain ⟨sp', hrun⟩ := hcalls n
          refine ⟨sp', ?_⟩
          rw [fields, hnext, stream_cons]
          simp [hrun, SplitField.ofPart]

/-! ## Finding a needle -/

lemma eqlPass_spec {a b : List UInt8} (hlength : a.length + 1 < 2 ^ 64)
    (hsame : a.length = b.length) (htake : a.take i = b.take i) (hi : i ≤ a.length) :
    (eqlPass a b i = some (.inl (i + 1)) ∧ a.take (i + 1) = b.take (i + 1) ∧ i < a.length) ∨
      eqlPass a b i = some (.inr (decide (a = b))) := by
  by_cases hlt : i < a.length
  · have hx : a[i]? = some a[i] := List.getElem?_eq_getElem hlt
    obtain ⟨y, hy⟩ : ∃ y, b[i]? = some y :=
      ⟨_, List.getElem?_eq_getElem (hsame ▸ hlt)⟩
    by_cases heq : a[i] = y
    · refine .inl ⟨?_, ?_, hlt⟩
      · have hadd : checkedAdd 64 i 1 = some (i + 1) := if_pos (by omega)
        simp [eqlPass, hlt, hy, heq, hadd]
      · rw [List.take_add_one, List.take_add_one, hx, hy, htake, heq]
    · have hne : a ≠ b := by
        rintro rfl
        exact heq (Option.some.inj (hx.symm.trans hy))
      exact .inr (by simp [eqlPass, hlt, hy, heq, hne])
  · obtain rfl : i = a.length := Nat.le_antisymm hi (Nat.le_of_not_lt hlt)
    have hab : a = b := by
      rwa [List.take_length, hsame, List.take_length] at htake
    exact .inr (by simp [eqlPass, hab])

lemma memEql_spec {a b : List UInt8} (hlength : a.length + 1 < 2 ^ 64) :
    memEql a b = some (decide (a = b)) := by
  rw [memEql]
  by_cases hne : a.length ≠ b.length
  · have hab : a ≠ b := fun heq => hne (congrArg List.length heq)
    simp [hne, hab]
  rw [if_neg hne]
  have hsame : a.length = b.length := not_not.mp hne
  have hloop : ∃ result, loopUntil (eqlPass a b) (a.length + 1) 0 = some result ∧
      result = decide (a = b) := by
    refine loopUntil_spec (fun i => i ≤ a.length ∧ a.take i = b.take i) (fun i => a.length - i) ?_
      ⟨Nat.zero_le _, rfl⟩ (by omega)
    rintro i ⟨hi, htake⟩
    rcases eqlPass_spec hlength hsame htake hi with ⟨hpass, htake, hlt⟩ | hpass
    · exact .inl ⟨i + 1, hpass, ⟨hlt, htake⟩, by omega⟩
    · exact .inr ⟨_, hpass, rfl⟩
  obtain ⟨result, hrun, hresult⟩ := hloop
  rw [hrun, hresult]

/-- A needle occurs where the text goes on with it. -/
def OccursAt (hay needle : List UInt8) (i : ℕ) : Prop := needle <+: hay.drop i

lemma occursAt_iff :
    OccursAt hay needle i ↔ (hay.take (i + needle.length)).drop i = needle := by
  rw [OccursAt, List.prefix_iff_eq_take, List.drop_take, Nat.add_sub_cancel_left]
  exact eq_comm

lemma not_occursAt (hneedle : needle ≠ [])
    (hi : hay.length < i + needle.length) : ¬OccursAt hay needle i := by
  intro h
  have hle := h.length_le
  have hpos := List.length_pos_of_ne_nil hneedle
  rw [List.length_drop] at hle
  omega

/-- The least place of the needle, or none. -/
def FirstPlace (hay needle : List UInt8) : Option ℕ → Prop
  | some i => OccursAt hay needle i ∧ ∀ j < i, ¬OccursAt hay needle j
  | none => ∀ i, ¬OccursAt hay needle i

lemma indexPass_spec (hlength : hay.length + 1 < 2 ^ 64)
    (hneedle : needle ≠ []) (hle : needle.length ≤ hay.length)
    (hstart : start ≤ hay.length - needle.length + 1)
    (hbefore : ∀ j < start, ¬OccursAt hay needle j) :
    (indexPass hay needle (hay.length - needle.length) start = some (.inl (start + 1)) ∧
        ¬OccursAt hay needle start ∧ start ≤ hay.length - needle.length) ∨
      ∃ result, indexPass hay needle (hay.length - needle.length) start = some (.inr result) ∧
        FirstPlace hay needle result := by
  by_cases hfits : start ≤ hay.length - needle.length
  · have hadd : checkedAdd 64 start needle.length = some (start + needle.length) :=
      if_pos (by omega)
    have hwindow : window hay start (start + needle.length) =
        some ((hay.take (start + needle.length)).drop start) := if_pos (by omega)
    have hequal : memEql ((hay.take (start + needle.length)).drop start) needle =
        some (decide ((hay.take (start + needle.length)).drop start = needle)) := by
      apply memEql_spec
      rw [List.length_drop, List.length_take]
      omega
    have hoccurs : OccursAt hay needle start ↔ _ := occursAt_iff
    by_cases hfound : OccursAt hay needle start
    · refine .inr ⟨some start, ?_, hfound, hbefore⟩
      rw [hoccurs.mp hfound] at hequal hwindow
      simp [indexPass, hfits, hadd, hwindow, hequal]
    · refine .inl ⟨?_, hfound, hfits⟩
      have hnext : checkedAdd 64 start 1 = some (start + 1) := if_pos (by omega)
      simp [indexPass, hfits, hadd, hwindow, hequal, mt hoccurs.mpr hfound, hnext]
  · refine .inr ⟨none, by simp [indexPass, hfits], fun i => ?_⟩
    by_cases hi : i < start
    · exact hbefore i hi
    · exact not_occursAt hneedle (by omega)

/-- The search ends with the first place of the needle. -/
lemma memIndexOf_spec (hay needle : Slice) :
    ∃ result, memIndexOf hay needle = some result ∧ FirstPlace hay.bytes needle.bytes result := by
  have hlength := hay.length_lt
  rw [memIndexOf]
  by_cases hempty : needle.bytes.length = 0
  · refine ⟨some 0, if_pos hempty, ?_, fun j hj => absurd hj (Nat.not_lt_zero j)⟩
    rw [OccursAt, List.length_eq_zero_iff.mp hempty]
    exact List.nil_prefix
  have hneedle : needle.bytes ≠ [] := fun h => hempty (List.length_eq_zero_iff.mpr h)
  rw [if_neg hempty]
  by_cases hlong : hay.bytes.length < needle.bytes.length
  · exact ⟨none, if_pos hlong, fun i => not_occursAt hneedle (by omega)⟩
  rw [if_neg hlong]
  have hsub : checkedSub hay.bytes.length needle.bytes.length =
      some (hay.bytes.length - needle.bytes.length) := if_pos (Nat.le_of_not_lt hlong)
  rw [hsub, Option.bind_eq_bind, Option.bind_some]
  refine loopUntil_spec (fun start => start ≤ hay.bytes.length - needle.bytes.length + 1 ∧
    ∀ j < start, ¬OccursAt hay.bytes needle.bytes j)
    (fun start => hay.bytes.length - needle.bytes.length + 1 - start) ?_
    ⟨Nat.zero_le _, fun j hj => absurd hj (Nat.not_lt_zero j)⟩ (by omega)
  rintro start ⟨hstart, hbefore⟩
  rcases indexPass_spec hlength hneedle (Nat.le_of_not_lt hlong) hstart hbefore with
    ⟨hpass, hnot, hfits⟩ | hresult
  · refine .inl ⟨start + 1, hpass, ⟨by omega, fun j hj => ?_⟩, by omega⟩
    rcases Nat.lt_or_eq_of_le (Nat.le_of_lt_succ hj) with hj | rfl
    · exact hbefore j hj
    · exact hnot
  · exact .inr hresult

/-- **Splitting inverts joining, and a search finds the first place.**  There are parts of the slice
between its separators, one more than it has separators, and every number of calls yields the first
of them and then no field; and a search ends with the least place of the needle, if there is one. -/
theorem split_and_search (s : Slice) (sep : UInt8) (needle : Slice) :
    (∃ parts : List (List UInt8), parts.length = s.bytes.count sep + 1 ∧
      (∀ part ∈ parts, sep ∉ part) ∧ List.intercalate [sep] parts = s.bytes ∧
      ∀ n, ∃ sp, fields n (splitBy s sep) =
        some ((parts.map .ofPart).take n ++ List.replicate (n - parts.length) .done, sp)) ∧
    ∃ result, memIndexOf s needle = some result ∧ FirstPlace s.bytes needle.bytes result := by
  obtain ⟨parts, hparts, hcalls⟩ := exists_parts s sep (Nat.zero_le _)
  rw [List.drop_zero] at hparts
  exact ⟨⟨parts, hparts.length, hparts.not_mem, hparts.join, hcalls⟩, memIndexOf_spec s needle⟩

/-- `a,b,` at the address 4096. -/
def commaText : Slice where
  address := 4096
  bytes := [97, 44, 98, 44]
  not_null _ := by decide
  stop_lt := by decide

example : (fields 4 (splitBy commaText 44)).map Prod.fst =
    some [.ofPart [97], .ofPart [98], .ofPart [], .done] := by decide

end ModernC.Bytes.Split
