import Mathlib.Data.Set.Card
import Mathlib.Order.Interval.Finset.Nat

/-!
# Linear probing

The slots of a hash table form a circle.  A key is looked for from its home slot on, up to the first
empty slot, so that no empty slot may lie between the home of a key and its place.
-/

namespace ModernC.Framework

/-! ## The circle of slots -/

/-- The number of steps from one slot to another. -/
def slotDist (cap a b : ℕ) : ℕ := (b + cap - a) % cap

def nextSlot (cap j : ℕ) : ℕ := if cap ≤ j + 1 then 0 else j + 1

variable {cap a b c j : ℕ}

lemma slotDist_cases (ha : a < cap) (hb : b < cap) :
    (a ≤ b ∧ slotDist cap a b = b - a) ∨ (b < a ∧ slotDist cap a b = b + cap - a) := by
  rw [slotDist]
  rcases Nat.lt_or_ge b a with hlt | hle
  · exact .inr ⟨hlt, Nat.mod_eq_of_lt (by omega)⟩
  · refine .inl ⟨hle, ?_⟩
    have hsum : b + cap - a = b - a + cap := by omega
    rw [hsum, Nat.add_mod_right, Nat.mod_eq_of_lt (by omega)]

lemma slotDist_self (ha : a < cap) : slotDist cap a a = 0 := by
  rcases slotDist_cases ha ha with ⟨-, hdist⟩ | ⟨hlt, -⟩
  · rw [hdist, Nat.sub_self]
  · exact absurd hlt (Nat.lt_irrefl a)

lemma slotDist_lt (ha : a < cap) (hb : b < cap) : slotDist cap a b < cap := by
  rcases slotDist_cases ha hb with ⟨-, hdist⟩ | ⟨hlt, hdist⟩
  · omega
  · omega

lemma slotDist_pos (ha : a < cap) (hb : b < cap) (hne : a ≠ b) : 0 < slotDist cap a b := by
  rcases slotDist_cases ha hb with ⟨hle, hdist⟩ | ⟨hlt, hdist⟩
  · omega
  · omega

lemma slotDist_inj (ha : a < cap) (hb : b < cap) (hc : c < cap)
    (h : slotDist cap a b = slotDist cap a c) : b = c := by
  rcases slotDist_cases ha hb with ⟨hle, hdist⟩ | ⟨hlt, hdist⟩ <;>
    rcases slotDist_cases ha hc with ⟨hle', hdist'⟩ | ⟨hlt', hdist'⟩ <;> omega

/-- Slots further on are reached by way of those in between. -/
lemma slotDist_add (ha : a < cap) (hb : b < cap) (hc : c < cap)
    (h : slotDist cap a b ≤ slotDist cap a c) :
    slotDist cap a c = slotDist cap a b + slotDist cap b c := by
  rcases slotDist_cases ha hb with ⟨hle, hdist⟩ | ⟨hlt, hdist⟩ <;>
    rcases slotDist_cases ha hc with ⟨hle', hdist'⟩ | ⟨hlt', hdist'⟩ <;>
      rcases slotDist_cases hb hc with ⟨hle'', hdist''⟩ | ⟨hlt'', hdist''⟩ <;> omega

lemma slotDist_le_add (ha : a < cap) (hb : b < cap) (hc : c < cap) :
    slotDist cap a c ≤ slotDist cap a b + slotDist cap b c := by
  rcases slotDist_cases ha hb with ⟨hle, hdist⟩ | ⟨hlt, hdist⟩ <;>
    rcases slotDist_cases ha hc with ⟨hle', hdist'⟩ | ⟨hlt', hdist'⟩ <;>
      rcases slotDist_cases hb hc with ⟨hle'', hdist''⟩ | ⟨hlt'', hdist''⟩ <;> omega

lemma nextSlot_cases (cap j : ℕ) :
    (cap ≤ j + 1 ∧ nextSlot cap j = 0) ∨ (j + 1 < cap ∧ nextSlot cap j = j + 1) := by
  rw [nextSlot]
  split
  · next hle => exact .inl ⟨hle, rfl⟩
  · next hlt => exact .inr ⟨Nat.lt_of_not_le hlt, rfl⟩

lemma nextSlot_lt (hj : j < cap) : nextSlot cap j < cap := by
  rcases nextSlot_cases cap j with ⟨-, hnext⟩ | ⟨hlt, hnext⟩
  · omega
  · omega

/-- The next slot is one step further, unless it is the one where the count begins. -/
lemma slotDist_nextSlot (ha : a < cap) (hj : j < cap) (hne : nextSlot cap j ≠ a) :
    slotDist cap a (nextSlot cap j) = slotDist cap a j + 1 := by
  have hnext := nextSlot_lt hj
  have hcases := nextSlot_cases cap j
  rcases slotDist_cases ha hj with ⟨hle, hdist⟩ | ⟨hlt, hdist⟩ <;>
    rcases slotDist_cases ha hnext with ⟨hle', hdist'⟩ | ⟨hlt', hdist'⟩ <;> omega

/-- From the next slot on a slot is one step nearer. -/
lemma slotDist_nextSlot_left (ha : a < cap) (hj : j < cap) (hne : j ≠ a) :
    slotDist cap j a = slotDist cap (nextSlot cap j) a + 1 := by
  have hnext := nextSlot_lt hj
  have hcases := nextSlot_cases cap j
  rcases slotDist_cases hj ha with ⟨hle, hdist⟩ | ⟨hlt, hdist⟩ <;>
    rcases slotDist_cases hnext ha with ⟨hle', hdist'⟩ | ⟨hlt', hdist'⟩ <;> omega

/-! ## Contents -/

/-- The slots of a table. -/
abbrev Slots (κ ν : Type*) := ℕ → Option (κ × ν)

variable {κ ν : Type*} {home : κ → ℕ} {T : Slots κ ν} {f : κ → Option ν} {k : κ}
  {v : ν} {i hole : ℕ}

/-- The slots hold a finite map, each key once. -/
structure Stores (cap : ℕ) (T : Slots κ ν) (f : κ → Option ν) : Prop where
  distinct : ∀ i < cap, ∀ j < cap, ∀ k v w, T i = some (k, v) → T j = some (k, w) → i = j
  mem_iff : ∀ k v, f k = some v ↔ ∃ i < cap, T i = some (k, v)

lemma stores_empty (cap : ℕ) : Stores (κ := κ) (ν := ν) cap (fun _ => none) fun _ => none :=
  ⟨nofun, fun _ _ => ⟨nofun, fun ⟨_, _, h⟩ => nomatch h⟩⟩

/-- A key is put into a slot that is empty or has that key. -/
lemma Stores.put [DecidableEq κ] (hstores : Stores cap T f) (hi : i < cap)
    (hslot : ∀ k' w, T i = some (k', w) → k' = k)
    (hothers : ∀ p < cap, ∀ w, T p = some (k, w) → p = i) :
    Stores cap (Function.update T i (some (k, v))) (Function.update f k (some v)) := by
  constructor
  · intro p hp q hq k' w w' hpk hqk
    by_cases hpi : p = i
    · by_cases hqi : q = i
      · rw [hpi, hqi]
      · subst hpi
        rw [Function.update_self] at hpk
        rw [Function.update_of_ne hqi] at hqk
        obtain ⟨rfl, -⟩ := Prod.mk.inj (Option.some.inj hpk)
        exact (hothers q hq w' hqk).symm
    · rw [Function.update_of_ne hpi] at hpk
      by_cases hqi : q = i
      · subst hqi
        rw [Function.update_self] at hqk
        obtain ⟨rfl, -⟩ := Prod.mk.inj (Option.some.inj hqk)
        exact hothers p hp w hpk
      · rw [Function.update_of_ne hqi] at hqk
        exact hstores.distinct p hp q hq k' w w' hpk hqk
  · intro k' w
    by_cases hk : k' = k
    · subst hk
      rw [Function.update_self]
      constructor
      · rintro hw
        exact ⟨i, hi, by rw [Function.update_self, Option.some.inj hw]⟩
      · rintro ⟨p, hp, hpk⟩
        by_cases hpi : p = i
        · subst hpi
          rw [Function.update_self] at hpk
          exact congrArg some (Prod.mk.inj (Option.some.inj hpk)).2
        · rw [Function.update_of_ne hpi] at hpk
          exact absurd (hothers p hp w hpk) hpi
    · rw [Function.update_of_ne hk, hstores.mem_iff]
      refine exists_congr fun p => and_congr_right fun hp => ?_
      by_cases hpi : p = i
      · subst hpi
        rw [Function.update_self]
        refine iff_of_false (fun hold => hk (hslot k' w hold)) fun hnew => hk ?_
        exact (Prod.mk.inj (Option.some.inj hnew)).1.symm
      · rw [Function.update_of_ne hpi]

lemma Stores.erase [DecidableEq κ] (hstores : Stores cap T f) (hi : i < cap) (hslot : T i = some (k, v)) :
    Stores cap (Function.update T i none) (Function.update f k none) := by
  have hold : ∀ {p k' w}, Function.update T i none p = some (k', w) →
      p ≠ i ∧ T p = some (k', w) := by
    intro p k' w hp
    have hpi : p ≠ i := by
      rintro rfl
      rw [Function.update_self] at hp
      exact nomatch hp
    exact ⟨hpi, Function.update_of_ne hpi none T ▸ hp⟩
  constructor
  · intro p hp q hq k' w w' hpk hqk
    exact hstores.distinct p hp q hq k' w w' (hold hpk).2 (hold hqk).2
  · intro k' w
    by_cases hk : k' = k
    · subst hk
      rw [Function.update_self]
      refine iff_of_false nofun fun ⟨p, hp, hpk⟩ => ?_
      obtain ⟨hpi, hpk⟩ := hold hpk
      exact hpi (hstores.distinct p hp i hi k' w v hpk hslot)
    · rw [Function.update_of_ne hk, hstores.mem_iff]
      refine exists_congr fun p => and_congr_right fun hp => ⟨fun hpk => ?_, fun hpk => (hold hpk).2⟩
      have hpi : p ≠ i := by
        rintro rfl
        exact hk (Prod.mk.inj (Option.some.inj (hpk.symm.trans hslot))).1
      rw [Function.update_of_ne hpi, hpk]

/-- An entry is moved to an empty slot. -/
lemma Stores.move (hstores : Stores cap T f) (hi : i < cap) (hj : j < cap)
    (hempty : T i = none) (hslot : T j = some (k, v)) :
    Stores cap (Function.update (Function.update T i (some (k, v))) j none) f := by
  have hne : i ≠ j := by
    rintro rfl
    exact nomatch hempty.symm.trans hslot
  -- where an entry was before the move
  have hold : ∀ {p k' w},
      Function.update (Function.update T i (some (k, v))) j none p = some (k', w) →
        (p = i ∧ k' = k ∧ w = v) ∨ (p ≠ i ∧ p ≠ j ∧ T p = some (k', w)) := by
    intro p k' w hp
    have hpj : p ≠ j := by
      rintro rfl
      rw [Function.update_self] at hp
      exact nomatch hp
    rw [Function.update_of_ne hpj] at hp
    by_cases hpi : p = i
    · subst hpi
      rw [Function.update_self] at hp
      obtain ⟨rfl, rfl⟩ := Prod.mk.inj (Option.some.inj hp)
      exact .inl ⟨rfl, rfl, rfl⟩
    · exact .inr ⟨hpi, hpj, Function.update_of_ne hpi _ T ▸ hp⟩
  constructor
  · intro p hp q hq k' w w' hpk hqk
    rcases hold hpk with ⟨rfl, rfl, rfl⟩ | ⟨hpi, hpj, hpold⟩
    · rcases hold hqk with ⟨rfl, -, -⟩ | ⟨-, hqj, hqold⟩
      · rfl
      · exact absurd (hstores.distinct q hq j hj k' w' w hqold hslot) hqj
    · rcases hold hqk with ⟨rfl, rfl, rfl⟩ | ⟨-, hqj, hqold⟩
      · exact absurd (hstores.distinct p hp j hj k' w w' hpold hslot) hpj
      · exact hstores.distinct p hp q hq k' w w' hpold hqold
  · intro k' w
    rw [hstores.mem_iff]
    constructor
    · rintro ⟨p, hp, hpk⟩
      by_cases hpj : p = j
      · subst hpj
        obtain ⟨rfl, rfl⟩ := Prod.mk.inj (Option.some.inj (hpk.symm.trans hslot))
        exact ⟨i, hi, by rw [Function.update_of_ne hne, Function.update_self]⟩
      · have hpi : p ≠ i := by
          rintro rfl
          exact nomatch hempty.symm.trans hpk
        exact ⟨p, hp, by rw [Function.update_of_ne hpj, Function.update_of_ne hpi, hpk]⟩
    · rintro ⟨p, hp, hpk⟩
      rcases hold hpk with ⟨-, rfl, rfl⟩ | ⟨-, -, hpk⟩
      · exact ⟨j, hj, hslot⟩
      · exact ⟨p, hp, hpk⟩

/-- There are as many keys as slots in use. -/
lemma Stores.ncard_eq (hstores : Stores cap T f) :
    {k | (f k).isSome}.ncard = ((Finset.range cap).filter fun i => (T i).isSome).card := by
  rw [← Set.ncard_coe_finset]
  refine (Set.ncard_congr (fun i hi => ((T i).get (Finset.mem_filter.mp hi).2).1) ?_ ?_ ?_).symm
  · intro i hi
    obtain ⟨hrange, hused⟩ := Finset.mem_filter.mp hi
    obtain ⟨⟨k, v⟩, hslot⟩ := Option.isSome_iff_exists.mp hused
    have hmem := (hstores.mem_iff k v).mpr ⟨i, Finset.mem_range.mp hrange, hslot⟩
    simp [hslot, hmem]
  · intro i j hi hj heq
    obtain ⟨hrange, hused⟩ := Finset.mem_filter.mp hi
    obtain ⟨hrange', hused'⟩ := Finset.mem_filter.mp hj
    obtain ⟨⟨k, v⟩, hslot⟩ := Option.isSome_iff_exists.mp hused
    obtain ⟨⟨k', v'⟩, hslot'⟩ := Option.isSome_iff_exists.mp hused'
    simp only [hslot, hslot', Option.get_some] at heq
    exact hstores.distinct i (Finset.mem_range.mp hrange) j (Finset.mem_range.mp hrange') k v v' hslot
      (heq ▸ hslot')
  · intro k hk
    obtain ⟨v, hv⟩ := Option.isSome_iff_exists.mp hk
    obtain ⟨i, hi, hslot⟩ := (hstores.mem_iff k v).mp hv
    have hused : i ∈ (Finset.range cap).filter fun i => (T i).isSome :=
      Finset.mem_filter.mpr ⟨Finset.mem_range.mpr hi, by rw [hslot]; rfl⟩
    exact ⟨i, hused, by simp [hslot]⟩

lemma Stores.exists_empty (hstores : Stores cap T f) (hlt : {k | (f k).isSome}.ncard < cap) :
    ∃ i < cap, T i = none := by
  by_contra hfull
  push Not at hfull
  have hall : ((Finset.range cap).filter fun i => (T i).isSome) = Finset.range cap :=
    Finset.filter_true_of_mem fun i hi =>
      Option.isSome_iff_ne_none.mpr (hfull i (Finset.mem_range.mp hi))
  rw [hstores.ncard_eq, hall, Finset.card_range] at hlt
  exact Nat.lt_irrefl _ hlt

lemma Stores.finite (hstores : Stores cap T f) : {k | (f k).isSome}.Finite := by
  have himage : ((fun i => (T i).map Prod.fst) '' Set.Iio cap).Finite := (Set.finite_Iio cap).image _
  refine (himage.preimage (Option.some_injective κ).injOn).subset fun k hk => ?_
  obtain ⟨v, hv⟩ := Option.isSome_iff_exists.mp hk
  obtain ⟨i, hi, hslot⟩ := (hstores.mem_iff k v).mp hv
  exact ⟨i, hi, by simp [hslot]⟩

/-- What the slots below an index hold. -/
def contents [DecidableEq κ] (T : Slots κ ν) : ℕ → κ → Option ν
  | 0 => fun _ => none
  | n + 1 =>
    match T n with
    | none => contents T n
    | some entry => Function.update (contents T n) entry.1 (some entry.2)

lemma Stores.contents_eq_some [DecidableEq κ] (hstores : Stores cap T f) {n : ℕ} (hn : n ≤ cap) :
    contents T n k = some v ↔ ∃ i < n, T i = some (k, v) := by
  induction n with
  | zero => exact ⟨nofun, fun ⟨i, hi, _⟩ => absurd hi (Nat.not_lt_zero i)⟩
  | succ n ih =>
    have ih := ih (Nat.le_of_succ_le hn)
    rw [contents]
    rcases hslot : T n with _ | ⟨k', v'⟩
    · rw [ih]
      constructor
      · rintro ⟨i, hi, hk⟩
        exact ⟨i, Nat.lt_succ_of_lt hi, hk⟩
      · rintro ⟨i, hi, hk⟩
        rcases Nat.lt_succ_iff_lt_or_eq.mp hi with hi | rfl
        · exact ⟨i, hi, hk⟩
        · exact nomatch hslot.symm.trans hk
    · dsimp only
      by_cases hkey : k = k'
      · subst hkey
        rw [Function.update_self]
        constructor
        · intro h
          exact ⟨n, Nat.lt_succ_self n, by rw [hslot, Option.some.inj h]⟩
        · rintro ⟨i, hi, hk⟩
          obtain rfl := hstores.distinct i (Nat.lt_of_lt_of_le hi hn) n hn k v v' hk hslot
          exact congrArg some (Prod.mk.inj (Option.some.inj (hslot.symm.trans hk))).2
      · rw [Function.update_of_ne hkey, ih]
        constructor
        · rintro ⟨i, hi, hk⟩
          exact ⟨i, Nat.lt_succ_of_lt hi, hk⟩
        · rintro ⟨i, hi, hk⟩
          rcases Nat.lt_succ_iff_lt_or_eq.mp hi with hi | rfl
          · exact ⟨i, hi, hk⟩
          · exact absurd (Prod.mk.inj (Option.some.inj (hk.symm.trans hslot))).1 hkey

lemma Stores.contents_eq [DecidableEq κ] (hstores : Stores cap T f) : contents T cap = f := by
  funext k
  apply Option.ext
  intro v
  rw [hstores.contents_eq_some (Nat.le_refl cap), hstores.mem_iff]

/-- Part of the slots holds part of the keys. -/
lemma Stores.ncard_contents_le [DecidableEq κ] (hstores : Stores cap T f) {n : ℕ} (hn : n ≤ cap) :
    {k | (contents T n k).isSome}.ncard ≤ {k | (f k).isSome}.ncard := by
  refine Set.ncard_le_ncard (fun k hk => ?_) hstores.finite
  obtain ⟨v, hv⟩ := Option.isSome_iff_exists.mp hk
  obtain ⟨i, hi, hslot⟩ := (hstores.contents_eq_some hn).mp hv
  have hmem := (hstores.mem_iff k v).mpr ⟨i, Nat.lt_of_lt_of_le hi hn, hslot⟩
  exact Option.isSome_iff_exists.mpr ⟨v, hmem⟩

/-! ## Chains -/

/-- No empty slot lies between the home of a key and its place. -/
def Chained (cap : ℕ) (home : κ → ℕ) (T : Slots κ ν) : Prop :=
  ∀ i < cap, ∀ k v, T i = some (k, v) → ∀ p < cap,
    slotDist cap (home k) p < slotDist cap (home k) i → (T p).isSome

/-- A key is looked for up to a slot: the slots before it are in use for other keys. -/
def Passed (cap : ℕ) (home : κ → ℕ) (T : Slots κ ν) (k : κ) (i : ℕ) : Prop :=
  ∀ p < cap, slotDist cap (home k) p < slotDist cap (home k) i →
    ∃ k' v, T p = some (k', v) ∧ k' ≠ k

/-- A key that is not found up to an empty slot is nowhere. -/
lemma Chained.notMem (hchained : Chained cap home T) (hhome : home k < cap) (hi : i < cap)
    (hpassed : Passed cap home T k i) (hempty : T i = none) : ∀ p < cap, ∀ v, T p ≠ some (k, v) := by
  intro p hp v hslot
  rcases Nat.lt_trichotomy (slotDist cap (home k) p) (slotDist cap (home k) i) with
    hlt | heq | hlt
  · obtain ⟨k', v', hslot', hne⟩ := hpassed p hp hlt
    exact hne (Prod.mk.inj (Option.some.inj (hslot'.symm.trans hslot))).1
  · obtain rfl := slotDist_inj hhome hp hi heq
    exact nomatch hempty.symm.trans hslot
  · have hused := hchained p hp k v hslot i hi hlt
    rw [hempty] at hused
    exact nomatch hused

/-- An entry may be put behind slots that are in use. -/
lemma Chained.put (hchained : Chained cap home T) (hi : i < cap)
    (hpassed : ∀ p < cap, slotDist cap (home k) p < slotDist cap (home k) i → (T p).isSome) :
    Chained cap home (Function.update T i (some (k, v))) := by
  have hused : ∀ {p}, (T p).isSome → (Function.update T i (some (k, v)) p).isSome := by
    intro p hp
    by_cases hpi : p = i
    · rw [hpi, Function.update_self]
      rfl
    · rwa [Function.update_of_ne hpi]
  intro j hj k' w hslot p hp hlt
  by_cases hji : j = i
  · subst hji
    rw [Function.update_self] at hslot
    obtain ⟨rfl, -⟩ := Prod.mk.inj (Option.some.inj hslot)
    exact hused (hpassed p hp hlt)
  · rw [Function.update_of_ne hji] at hslot
    exact hused (hchained j hj k' w hslot p hp hlt)

/-! ## Deletion by shifting back -/

/-- A table with a hole, of which the slots up to `j` do not need an entry from before it. -/
structure Shifting (cap : ℕ) (home : κ → ℕ) (T : Slots κ ν) (hole j : ℕ) : Prop where
  hole_lt : hole < cap
  j_lt : j < cap
  empty : T hole = none
  chained : ∀ i < cap, ∀ k v, T i = some (k, v) → ∀ p < cap,
    slotDist cap (home k) p < slotDist cap (home k) i → (T p).isSome ∨ p = hole
  behind : ∀ i < cap, ∀ k v, T i = some (k, v) →
    slotDist cap (home k) hole < slotDist cap (home k) i → slotDist cap hole j < slotDist cap hole i

lemma Chained.shifting (hchained : Chained cap home T) (hi : i < cap) :
    Shifting cap home (Function.update T i none) i i := by
  have hold : ∀ {p k v}, Function.update T i none p = some (k, v) → p ≠ i ∧ T p = some (k, v) := by
    intro p k v hp
    have hpi : p ≠ i := by
      rintro rfl
      rw [Function.update_self] at hp
      exact nomatch hp
    exact ⟨hpi, Function.update_of_ne hpi none T ▸ hp⟩
  refine ⟨hi, hi, Function.update_self .., ?_, ?_⟩
  · intro p hp k v hslot q hq hlt
    by_cases hqi : q = i
    · exact .inr hqi
    · left
      rw [Function.update_of_ne hqi]
      exact hchained p hp k v (hold hslot).2 q hq hlt
  · intro p hp k v hslot _
    rw [slotDist_self hi]
    exact slotDist_pos hi hp (hold hslot).1.symm

/-- The next entry stays where it is. -/
lemma Shifting.skip (hshift : Shifting cap home T hole j)
    (hslot : T (nextSlot cap j) = some (k, v))
    (hle : slotDist cap (home k) (nextSlot cap j) ≤ slotDist cap (home k) hole) :
    Shifting cap home T hole (nextSlot cap j) := by
  obtain ⟨hhole, hj, hempty, hchained, hbehind⟩ := hshift
  have hne : nextSlot cap j ≠ hole := by
    intro heq
    rw [heq, hempty] at hslot
    exact nomatch hslot
  refine ⟨hhole, nextSlot_lt hj, hempty, hchained, fun i hi k' w hslot' hlt => ?_⟩
  have hstep := slotDist_nextSlot hhole hj hne
  have hbefore := hbehind i hi k' w hslot' hlt
  have hdiffer : slotDist cap hole (nextSlot cap j) ≠ slotDist cap hole i := by
    intro heq
    obtain rfl := slotDist_inj hhole (nextSlot_lt hj) hi heq
    obtain ⟨rfl, -⟩ := Prod.mk.inj (Option.some.inj (hslot.symm.trans hslot'))
    omega
  omega

/-- The next entry is moved to the hole. -/
lemma Shifting.move (hshift : Shifting cap home T hole j)
    (hslot : T (nextSlot cap j) = some (k, v))
    (hlt : slotDist cap (home k) hole < slotDist cap (home k) (nextSlot cap j)) :
    Shifting cap home
      (Function.update (Function.update T hole (some (k, v))) (nextSlot cap j) none)
      (nextSlot cap j) (nextSlot cap j) := by
  obtain ⟨hhole, hj, hempty, hchained, -⟩ := hshift
  have hnext := nextSlot_lt hj
  have hused : ∀ {p}, (T p).isSome ∨ p = hole → p ≠ nextSlot cap j →
      (Function.update (Function.update T hole (some (k, v))) (nextSlot cap j) none p).isSome := by
    intro p hp hpj
    rw [Function.update_of_ne hpj]
    by_cases hph : p = hole
    · rw [hph, Function.update_self]
      rfl
    · rw [Function.update_of_ne hph]
      exact hp.resolve_right hph
  refine ⟨hnext, hnext, Function.update_self .., ?_, ?_⟩
  · intro i hi k' w hslot' p hp hbefore
    by_cases hpj : p = nextSlot cap j
    · exact .inr hpj
    · refine .inl (hused ?_ hpj)
      have hij : i ≠ nextSlot cap j := by
        rintro rfl
        rw [Function.update_self] at hslot'
        exact nomatch hslot'
      rw [Function.update_of_ne hij] at hslot'
      by_cases hih : i = hole
      · subst hih
        rw [Function.update_self] at hslot'
        obtain ⟨rfl, rfl⟩ := Prod.mk.inj (Option.some.inj hslot')
        exact hchained _ hnext k v hslot p hp (hbefore.trans hlt)
      · rw [Function.update_of_ne hih] at hslot'
        exact hchained i hi k' w hslot' p hp hbefore
  · intro i hi k' w hslot' _
    rw [slotDist_self hnext]
    refine slotDist_pos hnext hi ?_
    rintro rfl
    rw [Function.update_self] at hslot'
    exact nomatch hslot'

/-- **The hole may stay** where the next slot is empty. -/
lemma Shifting.finish (hshift : Shifting cap home T hole j) (hhome : ∀ k, home k < cap)
    (hnone : T (nextSlot cap j) = none) : Chained cap home T := by
  obtain ⟨hhole, hj, hempty, hchained, hbehind⟩ := hshift
  have hnext := nextSlot_lt hj
  intro i hi k v hslot p hp hlt
  refine (hchained i hi k v hslot p hp hlt).resolve_right ?_
  rintro rfl
  have hbefore := hbehind i hi k v hslot hlt
  have hdiffer : slotDist cap p (nextSlot cap j) ≠ slotDist cap p i := by
    intro heq
    obtain rfl := slotDist_inj hhole hnext hi heq
    exact nomatch hnone.symm.trans hslot
  by_cases hsame : nextSlot cap j = p
  · -- the whole circle was passed
    have hlast := slotDist_lt hhole hi
    have hcases := nextSlot_cases cap j
    rcases slotDist_cases hhole hj with ⟨hle, hdist⟩ | ⟨hgt, hdist⟩
    · omega
    · omega
  · have hstep := slotDist_nextSlot hhole hj hsame
    have hpath := slotDist_add (hhome k) hhole hi (Nat.le_of_lt hlt)
    have hreach : slotDist cap (home k) (nextSlot cap j) ≤
        slotDist cap (home k) p + slotDist cap p (nextSlot cap j) :=
      slotDist_le_add (hhome k) hhole hnext
    rcases hchained i hi k v hslot (nextSlot cap j) hnext (by omega) with hused | heq
    · rw [hnone] at hused
      exact nomatch hused
    · exact hsame heq

end ModernC.Framework
