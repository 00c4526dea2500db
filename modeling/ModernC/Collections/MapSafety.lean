import ModernC.Collections.HashMap

/-!
# The map refines a finite map

In every run the map answers like the finite map that the same updates build, and its probes always
come to an end. The main result is `map_refines`, about every run from an empty map.
-/

namespace ModernC.Collections

open Framework

variable {V : Type} {entrySize : ℕ} {m m' : StrHashMap V} {f : Key → Option V} {key : Key}

/-! ## The invariant -/

/-- The slots of a map hold a finite map and are not too full. -/
structure StrHashMap.Represents (m : StrHashMap V) (f : Key → Option V) : Prop where
  stores : Stores m.cap m.slots f
  chained : Chained m.cap (homeSlot m.cap) m.slots
  len_eq : m.len = {key | (f key).isSome}.ncard
  load : m.len * 4 ≤ m.cap * 3
  cap : m.cap = 0 ∨ 8 ≤ m.cap

lemma represents_strmapNew : (strmapNew V).Represents fun _ => none := by
  refine ⟨stores_empty 0, chained_empty 0 _, ?_, Nat.le_refl _, .inl rfl⟩
  have hnone : {key : Key | (none : Option V).isSome} = ∅ := by simp
  rw [hnone, Set.ncard_empty]
  rfl

/-- There is an empty slot. -/
lemma StrHashMap.Represents.exists_empty (hm : m.Represents f) (hcap : m.cap ≠ 0) :
    ∃ e < m.cap, m.slots e = none := by
  refine hm.stores.exists_empty ?_
  have hlen := hm.len_eq
  have hload := hm.load
  omega

lemma StrHashMap.Represents.probe (hm : m.Represents f) (hcap : m.cap ≠ 0) (key : Key) :
    ∃ i, strmapProbe m.slots m.cap key = some i ∧ Found m.cap m.slots key i ∧
      (m.slots i).map Prod.snd = f key := by
  obtain ⟨i, hprobe, hfound⟩ := strmapProbe_spec (hm.exists_empty hcap) key
  exact ⟨i, hprobe, hfound, hfound.value_eq hm.stores hm.chained⟩

lemma StrHashMap.Represents.eq_none (hm : m.Represents f) (hcap : m.cap = 0) (key : Key) :
    f key = none := by
  rw [Option.eq_none_iff_forall_ne_some]
  intro v hv
  obtain ⟨i, hi, -⟩ := (hm.stores.mem_iff key v).mp hv
  omega

/-! ## Growing -/

lemma newCap_spec (hm : m.Represents f) :
    8 ≤ newCap m.cap ∧ (m.len + 1) * 4 ≤ newCap m.cap * 3 := by
  have hload := hm.load
  rw [newCap]
  rcases hm.cap with hcap | hcap
  · rw [if_neg (not_not.mpr hcap)]
    omega
  · rw [if_pos (by omega)]
    omega

/-- A map grows unless the bytes of its new slots cannot be counted. -/
lemma StrHashMap.Represents.grow (hm : m.Represents f) (entrySize : ℕ) :
    (2 ^ 64 ≤ newCap m.cap * entrySize ∧ strmapGrow entrySize m = none) ∨
      ∃ T, strmapGrow entrySize m = some { m with slots := T, cap := newCap m.cap } ∧
        ({ m with slots := T, cap := newCap m.cap } : StrHashMap V).Represents f := by
  obtain ⟨hcap, hload⟩ := newCap_spec hm
  rw [strmapGrow, strmapAllocSlots]
  by_cases hbytes : newCap m.cap * entrySize < 2 ^ 64
  · have hlen := hm.len_eq
    have hmul : checkedMul 64 (newCap m.cap) entrySize = some (newCap m.cap * entrySize) :=
      checkedMul_eq_some.mpr ⟨hbytes, rfl⟩
    obtain ⟨T, hfold, hT, hchained⟩ :=
      rehash_spec (newCap m.cap) hm.stores (by omega) (Nat.le_refl m.cap)
    rw [hm.stores.contents_eq] at hT
    rw [hmul]
    refine .inr ⟨T, ?_, hT, hchained, hlen, by dsimp only; omega, .inr hcap⟩
    simp only [Option.bind_eq_bind, Option.bind_some, Option.pure_def, hfold]
  · have hmul : checkedMul 64 (newCap m.cap) entrySize = none := if_neg hbytes
    rw [hmul]
    exact .inl ⟨Nat.le_of_not_lt hbytes, rfl⟩

lemma StrHashMap.Represents.reserve (hm : m.Represents f) (entrySize : ℕ) :
    (m.cap * 3 < (m.len + 1) * 4 ∧ 2 ^ 64 ≤ newCap m.cap * entrySize ∧
        Collections.reserve entrySize m = none) ∨
      ∃ m', Collections.reserve entrySize m = some m' ∧ m'.Represents f ∧ 8 ≤ m'.cap ∧
        (m'.len + 1) * 4 ≤ m'.cap * 3 := by
  obtain ⟨hcap, hload⟩ := newCap_spec hm
  rw [Collections.reserve]
  by_cases hfull : m.cap * 3 < (m.len + 1) * 4
  · rw [if_pos hfull]
    rcases hm.grow entrySize with ⟨hbytes, hnone⟩ | ⟨T, hgrow, hrepresents⟩
    · exact .inl ⟨hfull, hbytes, hnone⟩
    · exact .inr ⟨_, hgrow, hrepresents, hcap, hload⟩
  · rw [if_neg hfull]
    refine .inr ⟨m, rfl, hm, ?_, Nat.le_of_not_lt hfull⟩
    rcases hm.cap with hzero | hle
    · omega
    · exact hle

/-! ## Updates -/

/-- **A key is bound** unless the map cannot grow. -/
theorem StrHashMap.Represents.put (hm : m.Represents f) (entrySize : ℕ) (key : Key) (v : V) :
    (m.cap * 3 < (m.len + 1) * 4 ∧ 2 ^ 64 ≤ newCap m.cap * entrySize ∧
        strmapPut entrySize m key v = none) ∨
      ∃ m', strmapPut entrySize m key v = some m' ∧
        m'.Represents (Function.update f key (some v)) := by
  rw [strmapPut]
  rcases hm.reserve entrySize with ⟨hfull, hbytes, hnone⟩ | ⟨m₁, hreserve, hm₁, hcap, hload⟩
  · rw [hnone]
    exact .inl ⟨hfull, hbytes, rfl⟩
  · obtain ⟨i, hprobe, hfound, hvalue⟩ := hm₁.probe (by omega) key
    obtain ⟨hstores, hchained⟩ := hfound.put hm₁.stores hm₁.chained v
    rw [hreserve]
    simp only [Option.bind_eq_bind, Option.bind_some, hprobe]
    refine .inr ⟨_, rfl, hstores, hchained, ?_, ?_, .inr hcap⟩
    · have hkeys : {k | (Function.update f key (some v) k).isSome} =
          insert key {k | (f k).isSome} := by
        ext k
        by_cases hk : k = key
        · simp [hk]
        · simp [hk]
      have hlen := hm₁.len_eq
      dsimp only
      rw [hkeys]
      rcases hslot : m₁.slots i with _ | entry
      · have hnot : key ∉ {k | (f k).isSome} := by
          rw [Set.mem_ofPred_eq, ← hvalue, hslot]
          exact nofun
        rw [Set.ncard_insert_of_notMem hnot hm₁.stores.finite, ← hlen]
        rfl
      · have hmem : key ∈ {k | (f k).isSome} := by
          rw [Set.mem_ofPred_eq, ← hvalue, hslot]
          rfl
        rw [Set.insert_eq_of_mem hmem, ← hlen]
        rfl
    · dsimp only
      split
      · omega
      · omega

/-- **A key is unbound**, and the rest of its cluster is shifted back. -/
theorem StrHashMap.Represents.del (hm : m.Represents f) (key : Key) :
    ∃ m', strmapDel m key = some m' ∧ m'.Represents (Function.update f key none) := by
  rw [strmapDel]
  by_cases hcap : m.cap = 0
  · rw [if_pos hcap]
    refine ⟨m, rfl, ?_⟩
    rwa [← hm.eq_none hcap key, Function.update_eq_self]
  · obtain ⟨i, hprobe, hfound, hvalue⟩ := hm.probe hcap key
    rw [if_neg hcap, hprobe]
    simp only [Option.bind_eq_bind, Option.bind_some]
    rcases hslot : m.slots i with _ | ⟨k, v⟩
    · rw [hslot] at hvalue
      refine ⟨m, rfl, ?_⟩
      rw [Option.map_none] at hvalue
      rwa [hvalue, Function.update_eq_self]
    · obtain rfl := hfound.slot k v hslot
      rw [hslot, Option.map_some] at hvalue
      have hmem : k ∈ {k | (f k).isSome} := by
        rw [Set.mem_ofPred_eq, ← hvalue]
        rfl
      have hpos : 0 < m.len := by
        rw [hm.len_eq, Set.ncard_pos hm.stores.finite]
        exact ⟨k, hmem⟩
      have hlen : checkedSub m.len 1 = some (m.len - 1) := checkedSub_eq_some.mpr ⟨hpos, rfl⟩
      obtain ⟨e, he, hnone⟩ := hm.exists_empty hcap
      have hei : e ≠ i := by
        rintro rfl
        exact nomatch hnone.symm.trans hslot
      have hempty : Function.update m.slots i none e = none := by
        rw [Function.update_of_ne hei, hnone]
      obtain ⟨T, hshift, hstores, hchained⟩ :=
        shiftBack_spec (hm.stores.erase hfound.lt hslot) (hm.chained.shifting hfound.lt) he hempty
          hei hei.symm (Nat.le_of_lt (slotDist_lt hfound.lt he))
      dsimp only
      rw [if_neg (not_not.mpr rfl), hlen]
      simp only [Option.bind_some, hshift]
      refine ⟨_, rfl, hstores, hchained, ?_, ?_, hm.cap⟩
      · have hkeys : {k' | (Function.update f k none k').isSome} = {k | (f k).isSome} \ {k} := by
          ext k'
          by_cases hk : k' = k
          · simp [hk]
          · simp [hk]
        rw [hkeys, Set.ncard_sdiff_singleton_of_mem hmem, ← hm.len_eq]
      · have hload := hm.load
        dsimp only
        omega

/-! ## Runs -/

/-- The map a run leads to, with the finite map that the same updates build.  Lookups change
neither. -/
inductive MapRun (entrySize : ℕ) : StrHashMap V → (Key → Option V) → Prop where
  | new : MapRun entrySize (strmapNew V) fun _ => none
  | put {m m' : StrHashMap V} {f : Key → Option V} {key : Key} {val : V} :
      MapRun entrySize m f → strmapPut entrySize m key val = some m' →
        MapRun entrySize m' (Function.update f key (some val))
  | del {m m' : StrHashMap V} {f : Key → Option V} {key : Key} :
      MapRun entrySize m f → strmapDel m key = some m' →
        MapRun entrySize m' (Function.update f key none)
  | free {m : StrHashMap V} {f : Key → Option V} :
      MapRun entrySize m f → MapRun entrySize (strmapFree m) fun _ => none

/-- **What is kept** in every run. -/
lemma MapRun.represents (hrun : MapRun entrySize m f) : m.Represents f := by
  induction hrun with
  | new | free => exact represents_strmapNew
  | @put m m' f key val _ heq ih =>
    rcases ih.put entrySize key val with ⟨-, -, hnone⟩ | ⟨m₁, hput, hrepresents⟩
    · exact nomatch hnone.symm.trans heq
    · obtain rfl := Option.some.inj (hput.symm.trans heq)
      exact hrepresents
  | @del m m' f key _ heq ih =>
    obtain ⟨m₁, hdel, hrepresents⟩ := ih.del key
    obtain rfl := Option.some.inj (hdel.symm.trans heq)
    exact hrepresents

/-- The map answers like a finite map, and its loops come to an end. -/
structure Refines (entrySize : ℕ) (m : StrHashMap V) (f : Key → Option V) : Prop where
  get : ∀ key, ∃ p, strmapGet m key = some p ∧
    (p.bind fun i => (m.slots i).map Prod.snd) = f key
  getOr : ∀ key fallback, strmapGetOr m key fallback = some ((f key).getD fallback)
  contains : ∀ key, strmapContains m key = some (f key).isSome
  finite : {key | (f key).isSome}.Finite
  len : strmapLen m = {key | (f key).isSome}.ncard
  reachable : ∀ i < m.cap, ∀ key v, m.slots i = some (key, v) →
    strmapProbe m.slots m.cap key = some i ∧
      ∀ p < m.cap, slotDist m.cap (homeSlot m.cap key) p < slotDist m.cap (homeSlot m.cap key) i →
        (m.slots p).isSome
  probe : m.cap ≠ 0 → (∃ e < m.cap, m.slots e = none) ∧
    ∀ key, (strmapProbe m.slots m.cap key).isSome
  put : ∀ key val, strmapPut entrySize m key val = none →
    m.cap * 3 < (m.len + 1) * 4 ∧ 2 ^ 64 ≤ newCap m.cap * entrySize
  del : ∀ key, (strmapDel m key).isSome

lemma StrHashMap.Represents.refines (hm : m.Represents f) (entrySize : ℕ) :
    Refines entrySize m f := by
  constructor
  · intro key
    rw [strmapGet]
    by_cases hcap : m.cap = 0
    · rw [if_pos hcap]
      exact ⟨none, rfl, (hm.eq_none hcap key).symm⟩
    · obtain ⟨i, hprobe, -, hvalue⟩ := hm.probe hcap key
      rw [if_neg hcap, hprobe]
      refine ⟨_, rfl, ?_⟩
      rw [← hvalue]
      rcases hslot : m.slots i with _ | entry
      · rfl
      · simp [hslot]
  · intro key fallback
    rw [strmapGetOr]
    by_cases hcap : m.cap = 0
    · rw [if_pos hcap, hm.eq_none hcap key]
      rfl
    · obtain ⟨i, hprobe, -, hvalue⟩ := hm.probe hcap key
      rw [if_neg hcap, hprobe, ← hvalue]
      simp only [Option.bind_eq_bind, Option.bind_some]
      rcases hslot : m.slots i with _ | entry
      · rfl
      · rfl
  · intro key
    rw [strmapContains]
    by_cases hcap : m.cap = 0
    · rw [if_pos hcap, hm.eq_none hcap key]
      rfl
    · obtain ⟨i, hprobe, -, hvalue⟩ := hm.probe hcap key
      rw [if_neg hcap, hprobe, ← hvalue, Option.isSome_map]
      rfl
  · exact hm.stores.finite
  · exact hm.len_eq
  · intro i hi key v hslot
    refine ⟨?_, hm.chained i hi key v hslot⟩
    obtain ⟨j, hprobe, hfound, hvalue⟩ := hm.probe (Nat.ne_zero_of_lt hi) key
    rw [(hm.stores.mem_iff key v).mpr ⟨i, hi, hslot⟩] at hvalue
    obtain ⟨⟨k, w⟩, hentry, -⟩ := Option.map_eq_some_iff.mp hvalue
    obtain rfl := hfound.slot k w hentry
    rw [hprobe, hm.stores.distinct i hi j hfound.lt k v w hslot hentry]
  · intro hcap
    refine ⟨hm.exists_empty hcap, fun key => ?_⟩
    obtain ⟨i, hprobe, -⟩ := hm.probe hcap key
    rw [hprobe]
    rfl
  · intro key val hnone
    rcases hm.put entrySize key val with ⟨hfull, hbytes, -⟩ | ⟨m₁, hput, -⟩
    · exact ⟨hfull, hbytes⟩
    · exact nomatch hnone.symm.trans hput
  · intro key
    obtain ⟨m₁, hdel, -⟩ := hm.del key
    rw [hdel]
    rfl

/-- **The map refines a finite map** in every run. -/
theorem map_refines (hrun : MapRun entrySize m f) : Refines entrySize m f :=
  hrun.represents.refines entrySize

/-- The first of two keys with one home slot is deleted: the second is shifted back into that slot, and
is the only key that the map has. -/
theorem map_refines_shiftedBack : ∃ m : StrHashMap ℕ,
    homeSlot 8 [97] = homeSlot 8 [105] ∧ m.slots (homeSlot 8 [105]) = some ([105], 2) ∧ m.len = 1 ∧
      Refines 40 m (Function.update (Function.update (Function.update (fun _ => none) [97] (some 1))
        [105] (some 2)) [97] none) := by
  have hcalls : ((strmapPut 40 (strmapNew ℕ) [97] 1).bind fun m =>
      (strmapPut 40 m [105] 2).bind fun m => (strmapDel m [97]).bind fun m =>
        (m.slots (homeSlot 8 [105])).map fun entry => (entry, m.len)) = some (([105], 2), 1) := by
    decide
  obtain ⟨first, hfirst, hcalls⟩ := Option.bind_eq_some_iff.mp hcalls
  obtain ⟨second, hsecond, hcalls⟩ := Option.bind_eq_some_iff.mp hcalls
  obtain ⟨m, hm, hcalls⟩ := Option.bind_eq_some_iff.mp hcalls
  obtain ⟨entry, hslot, hentry⟩ := Option.map_eq_some_iff.mp hcalls
  obtain ⟨rfl, hlen⟩ := Prod.mk.inj hentry
  exact ⟨m, by decide, hslot, hlen, map_refines (((MapRun.new.put hfirst).put hsecond).del hm)⟩

end ModernC.Collections
