import ModernC.Framework.CheckedWords
import ModernC.Framework.LinearProbing

/-!
# The string map

`StrHashMap` maps byte strings to values by open addressing: linear probing, growth at a load of
three quarters, and deletion that shifts entries back into the hole.  Whatever traps has no result.
-/

namespace ModernC.Collections

open Framework

/-- The bytes of a key. -/
abbrev Key := List UInt8

/-- A map.  An entry that is not in use is an empty slot. -/
structure StrHashMap (V : Type) where
  slots : Slots Key V
  len : ℕ
  cap : ℕ

variable {V : Type}

/-! ## Hashing -/

def fnv1aMul (h : ℕ) : ℕ := (h * 16777619) &&& 0xFFFFFFFF

def fnv1a (key : Key) : ℕ := key.foldl (fun h byte => fnv1aMul (h ^^^ byte.toNat)) 2166136261

/-- The slot a key hashes to. -/
def homeSlot (cap : ℕ) (key : Key) : ℕ := fnv1a key % cap

/-! ## Probing -/

/-- The rest of the loop of `strmap_probe`, of as many steps as are left. -/
def probeFrom (slots : Slots Key V) (cap : ℕ) (key : Key) : ℕ → ℕ → Option ℕ
  | 0, _ => none
  | steps + 1, idx =>
    match slots idx with
    | none => some idx
    | some entry =>
      if entry.1 = key then some idx else probeFrom slots cap key steps (nextSlot cap idx)

def strmapProbe (slots : Slots Key V) (cap : ℕ) (key : Key) : Option ℕ :=
  probeFrom slots cap key cap (homeSlot cap key)

/-! ## Growing -/

/-- The bytes of the slots are asked for and zeroed.  The size of an entry is that of the target. -/
def strmapAllocSlots (entrySize cap : ℕ) : Option (Slots Key V) := do
  let _bytes ← checkedMul 64 cap entrySize
  return fun _ => none

/-- An old entry is put into the new slots. -/
def rehashSlot (old : Slots Key V) (newcap : ℕ) (slots : Slots Key V) (i : ℕ) :
    Option (Slots Key V) :=
  match old i with
  | none => some slots
  | some entry => do
    let j ← strmapProbe slots newcap entry.1
    return Function.update slots j (some entry)

def newCap (cap : ℕ) : ℕ := if cap ≠ 0 then cap * 2 else 8

def strmapGrow (entrySize : ℕ) (m : StrHashMap V) : Option (StrHashMap V) := do
  let newslots ← strmapAllocSlots entrySize (newCap m.cap)
  let slots ← (List.range m.cap).foldlM (rehashSlot m.slots (newCap m.cap)) newslots
  return { m with slots := slots, cap := newCap m.cap }

/-! ## Operations -/

def strmapNew (V : Type) : StrHashMap V := { slots := fun _ => none, len := 0, cap := 0 }

def strmapLen (m : StrHashMap V) : ℕ := m.len

/-- The map has room for one more entry. -/
def reserve (entrySize : ℕ) (m : StrHashMap V) : Option (StrHashMap V) :=
  if m.cap * 3 < (m.len + 1) * 4 then strmapGrow entrySize m else some m

def strmapPut (entrySize : ℕ) (m : StrHashMap V) (key : Key) (val : V) : Option (StrHashMap V) := do
  let m ← reserve entrySize m
  let idx ← strmapProbe m.slots m.cap key
  return { m with
    len := if (m.slots idx).isSome then m.len else m.len + 1
    slots := Function.update m.slots idx (some (key, val)) }

/-- The pointer to a value is the index of its slot. -/
def strmapGet (m : StrHashMap V) (key : Key) : Option (Option ℕ) :=
  if m.cap = 0 then some none
  else do
    let idx ← strmapProbe m.slots m.cap key
    return if (m.slots idx).isSome then some idx else none

def strmapGetOr (m : StrHashMap V) (key : Key) (fallback : V) : Option V :=
  if m.cap = 0 then some fallback
  else do
    let idx ← strmapProbe m.slots m.cap key
    return match m.slots idx with
    | some entry => entry.2
    | none => fallback

def strmapContains (m : StrHashMap V) (key : Key) : Option Bool :=
  if m.cap = 0 then some false
  else do
    let idx ← strmapProbe m.slots m.cap key
    return (m.slots idx).isSome

/-- The loop of `strmap_del` that shifts the rest of the cluster back into the hole. -/
def shiftBack (cap : ℕ) : ℕ → Slots Key V → ℕ → ℕ → Option (Slots Key V)
  | 0, _, _, _ => none
  | fuel + 1, slots, hole, j =>
    let j := nextSlot cap j
    match slots j with
    | none => some slots
    | some entry =>
      let home := homeSlot cap entry.1
      if slotDist cap home hole < slotDist cap home j then
        shiftBack cap fuel (Function.update (Function.update slots hole (some entry)) j none) j j
      else shiftBack cap fuel slots hole j

def strmapDel (m : StrHashMap V) (key : Key) : Option (StrHashMap V) :=
  if m.cap = 0 then some m
  else do
    let start ← strmapProbe m.slots m.cap key
    match m.slots start with
    | none => return m
    | some entry =>
      if entry.1 ≠ key then return m
      else
        let len ← checkedSub m.len 1
        let slots ← shiftBack m.cap m.cap (Function.update m.slots start none) start start
        return { m with slots := slots, len := len }

def strmapFree (_m : StrHashMap V) : StrHashMap V := strmapNew V

end ModernC.Collections

/-!
## Probing, growing and shifting

While a slot is empty, each loop of the map comes to its end, and what it leaves is a table without
gaps that holds what it should.
-/

namespace ModernC.Collections

open Framework

variable {V : Type} {cap : ℕ} {slots : Slots Key V} {f : Key → Option V} {key : Key}

lemma homeSlot_lt (hcap : 0 < cap) (key : Key) : homeSlot cap key < cap := Nat.mod_lt _ hcap

/-! ## Probing -/

/-- Where a key is, or where it would be put. -/
structure Found (cap : ℕ) (slots : Slots Key V) (key : Key) (i : ℕ) : Prop where
  lt : i < cap
  passed : Passed cap (homeSlot cap) slots key i
  slot : ∀ k v, slots i = some (k, v) → k = key

/-- **The loop of the probe** meets an empty slot or the key. -/
lemma probeFrom_spec {steps idx : ℕ} (hempty : ∃ e < cap, slots e = none) (hidx : idx < cap)
    (hsteps : slotDist cap (homeSlot cap key) idx + steps = cap)
    (hpassed : Passed cap (homeSlot cap) slots key idx) :
    ∃ i, probeFrom slots cap key steps idx = some i ∧ Found cap slots key i := by
  have hhome := homeSlot_lt (Nat.zero_lt_of_lt hidx) key
  induction steps generalizing idx with
  | zero =>
    have hlt := slotDist_lt hhome hidx
    omega
  | succ steps ih =>
    rw [probeFrom]
    rcases hslot : slots idx with _ | ⟨k, v⟩
    · exact ⟨idx, rfl, hidx, hpassed, fun k v h => nomatch hslot.symm.trans h⟩
    · dsimp only
      by_cases hkey : k = key
      · rw [if_pos hkey]
        refine ⟨idx, rfl, hidx, hpassed, fun k' v' h => ?_⟩
        rw [hslot] at h
        rw [← (Prod.mk.inj (Option.some.inj h)).1, hkey]
      · rw [if_neg hkey]
        have hupto : ∀ p < cap, slotDist cap (homeSlot cap key) p ≤
            slotDist cap (homeSlot cap key) idx → ∃ k' v', slots p = some (k', v') ∧ k' ≠ key := by
          intro p hp hle
          rcases Nat.lt_or_eq_of_le hle with hlt | heq
          · exact hpassed p hp hlt
          · obtain rfl := slotDist_inj hhome hp hidx heq
            exact ⟨k, v, hslot, hkey⟩
        have hwrap : nextSlot cap idx ≠ homeSlot cap key := by
          intro heq
          obtain ⟨e, he, hnone⟩ := hempty
          have hround := slotDist_lt hhome he
          have hcases := nextSlot_cases cap idx
          have hlast : slotDist cap (homeSlot cap key) e ≤
              slotDist cap (homeSlot cap key) idx := by
            rcases slotDist_cases hhome hidx with ⟨hle, hdist⟩ | ⟨hlt, hdist⟩
            · omega
            · omega
          obtain ⟨k', v', hused, -⟩ := hupto e he hlast
          exact nomatch hnone.symm.trans hused
        have hstep := slotDist_nextSlot hhome hidx hwrap
        exact ih (nextSlot_lt hidx) (by omega) fun p hp hlt => hupto p hp (by omega)

lemma strmapProbe_spec (hempty : ∃ e < cap, slots e = none) (key : Key) :
    ∃ i, strmapProbe slots cap key = some i ∧ Found cap slots key i := by
  obtain ⟨e, he, hnone⟩ := hempty
  have hhome := homeSlot_lt (Nat.zero_lt_of_lt he) key
  have hself := slotDist_self hhome
  refine probeFrom_spec ⟨e, he, hnone⟩ hhome (by omega) fun p _ hlt => ?_
  rw [hself] at hlt
  exact absurd hlt (Nat.not_lt_zero _)

/-- What is found is what the table holds. -/
lemma Found.value_eq {i : ℕ} (hfound : Found cap slots key i) (hstores : Stores cap slots f)
    (hchained : Chained cap (homeSlot cap) slots) : (slots i).map Prod.snd = f key := by
  have hhome := homeSlot_lt (Nat.zero_lt_of_lt hfound.lt) key
  rcases hslot : slots i with _ | ⟨k, v⟩
  · have hnone := hchained.notMem hhome hfound.lt hfound.passed hslot
    symm
    rw [Option.map_none, Option.eq_none_iff_forall_ne_some]
    intro v hv
    obtain ⟨p, hp, hpk⟩ := (hstores.mem_iff key v).mp hv
    exact hnone p hp v hpk
  · obtain rfl := hfound.slot k v hslot
    exact ((hstores.mem_iff k v).mpr ⟨i, hfound.lt, hslot⟩).symm

/-- A slot that is found may take the key. -/
lemma Found.put {i : ℕ} (hfound : Found cap slots key i) (hstores : Stores cap slots f)
    (hchained : Chained cap (homeSlot cap) slots) (v : V) :
    Stores cap (Function.update slots i (some (key, v))) (Function.update f key (some v)) ∧
      Chained cap (homeSlot cap) (Function.update slots i (some (key, v))) := by
  have hhome := homeSlot_lt (Nat.zero_lt_of_lt hfound.lt) key
  have hothers : ∀ p < cap, ∀ w, slots p = some (key, w) → p = i := by
    intro p hp w hpk
    rcases hslot : slots i with _ | ⟨k, v'⟩
    · exact absurd hpk (hchained.notMem hhome hfound.lt hfound.passed hslot p hp w)
    · obtain rfl := hfound.slot k v' hslot
      exact hstores.distinct p hp i hfound.lt k w v' hpk hslot
  refine ⟨hstores.put hfound.lt hfound.slot hothers, hchained.put hfound.lt fun p hp hlt => ?_⟩
  obtain ⟨k', v', hslot, -⟩ := hfound.passed p hp hlt
  rw [hslot]
  rfl

/-! ## Growing -/

lemma chained_empty (cap : ℕ) (home : Key → ℕ) : Chained (ν := V) cap home fun _ => none :=
  fun _ _ _ _ h => nomatch h

/-- **The rehash** puts each old entry into the new slots. -/
lemma rehash_spec (newcap : ℕ) {n : ℕ} (hstores : Stores cap slots f)
    (hroom : {k | (f k).isSome}.ncard < newcap) (hn : n ≤ cap) :
    ∃ T, (List.range n).foldlM (rehashSlot slots newcap) (fun _ => none) = some T ∧
      Stores newcap T (contents slots n) ∧ Chained newcap (homeSlot newcap) T := by
  induction n with
  | zero => exact ⟨_, rfl, stores_empty newcap, chained_empty newcap _⟩
  | succ n ih =>
    obtain ⟨T, hfold, hT, hchained⟩ := ih (Nat.le_of_succ_le hn)
    have hstep : (List.range (n + 1)).foldlM (rehashSlot slots newcap) (fun _ => none) =
        rehashSlot slots newcap T n := by
      rw [List.range_succ, List.foldlM_append, hfold]
      simp only [Option.bind_eq_bind, Option.bind_some, List.foldlM_cons, List.foldlM_nil]
      exact Option.bind_fun_some _
    rw [hstep, rehashSlot, contents]
    rcases hslot : slots n with _ | ⟨k, v⟩
    · exact ⟨T, rfl, hT, hchained⟩
    · have hempty := hT.exists_empty
        ((hstores.ncard_contents_le (Nat.le_of_succ_le hn)).trans_lt hroom)
      obtain ⟨i, hprobe, hfound⟩ := strmapProbe_spec hempty k
      obtain ⟨hput, hputChained⟩ := hfound.put hT hchained v
      dsimp only
      rw [hprobe]
      exact ⟨_, rfl, hput, hputChained⟩

/-! ## Shifting back -/

/-- **The shift** ends at an empty slot and leaves no gap. -/
lemma shiftBack_spec {fuel hole j e : ℕ} (hstores : Stores cap slots f)
    (hshift : Shifting cap (homeSlot cap) slots hole j) (he : e < cap) (hnone : slots e = none)
    (hhole : e ≠ hole) (hj : j ≠ e) (hfuel : slotDist cap j e ≤ fuel) :
    ∃ T, shiftBack cap fuel slots hole j = some T ∧ Stores cap T f ∧
      Chained cap (homeSlot cap) T := by
  have hcap := Nat.zero_lt_of_lt he
  induction fuel generalizing slots hole j with
  | zero =>
    have hpos := slotDist_pos hshift.j_lt he hj
    omega
  | succ fuel ih =>
    have hnext := nextSlot_lt hshift.j_lt
    have hstep := slotDist_nextSlot_left he hshift.j_lt hj
    rw [shiftBack]
    dsimp only
    rcases hslot : slots (nextSlot cap j) with _ | ⟨k, v⟩
    · exact ⟨slots, rfl, hstores, hshift.finish (homeSlot_lt hcap) hslot⟩
    · have hne : nextSlot cap j ≠ e := by
        rintro rfl
        exact nomatch hnone.symm.trans hslot
      dsimp only
      by_cases hlt : slotDist cap (homeSlot cap k) hole <
          slotDist cap (homeSlot cap k) (nextSlot cap j)
      · rw [if_pos hlt]
        refine ih (hstores.move hshift.hole_lt hnext hshift.empty hslot) (hshift.move hslot hlt) ?_
          hne.symm hne (by omega)
        rw [Function.update_of_ne hne.symm, Function.update_of_ne hhole, hnone]
      · rw [if_neg hlt]
        exact ih hstores (hshift.skip hslot (Nat.le_of_not_lt hlt)) hnone hhole hne (by omega)

end ModernC.Collections
