import Mathlib.Data.List.Perm.Subperm
import ModernC.Mir.OwnershipFlow

/-!
# What the ownership verifier admits

The solved entry table is related to the paths through the function: an entry holds exactly
the states that paths with at most `blocks.len` turns bring to its block.  The round bound is
therefore not only a guard, as a change found in the last round may still have to travel back.
An admitted function is legal along every path exactly when no state
that performs a forbidden event needs more turns than that to arrive.
-/

namespace ModernC.Mir

open ModernC.Framework

variable {function : Function} {root : ValueId}

/-! ## Flows as sets of states -/

/-- The states a flow stands for. -/
def OwnershipFlow.HasState (flow : OwnershipFlow) (state : OwnershipRootState) : Prop :=
  flow.reachable = true ∧ flow.states.contains state = true

/-- A reachable point is reached in some state. -/
def OwnershipFlow.Inhabited (flow : OwnershipFlow) : Prop :=
  flow.reachable = true → flow.states.isEmpty = false

namespace OwnershipFlow

variable {s : OwnershipRootState} {a : OwnershipFlow}

@[simp] lemma hasState_single {state : OwnershipRootState} {generation : ℕ} :
    (single state generation).HasState s ↔ s = state := by
  simp [HasState, single]

@[simp] lemma hasState_default : ¬ HasState {} s := by
  simp [HasState]

lemma inhabited_single (state : OwnershipRootState) (generation : ℕ) :
    (single state generation).Inhabited := by
  cases state <;> simp [Inhabited, single, OwnershipStateSet.of, OwnershipStateSet.isEmpty]

lemma hasState_join {b : OwnershipFlow} :
    (a.join b).HasState s ↔ a.HasState s ∨ b.HasState s := by
  unfold join
  cases ha : a.reachable <;> cases hb : b.reachable <;> simp [HasState, ha, hb]

lemma Inhabited.exists_hasState (h : a.Inhabited)
    (hreach : a.reachable = true) : ∃ s, a.HasState s := by
  obtain ⟨s, hs⟩ := OwnershipStateSet.exists_contains (h hreach)
  exact ⟨s, hreach, hs⟩

lemma inhabited_of_hasState (h : a.HasState s) :
    a.Inhabited := by
  intro _
  by_contra hempty
  have hbits : a.states.bits = 0 := by
    simpa [OwnershipStateSet.isEmpty] using hempty
  have hmem := h.2
  simp [OwnershipStateSet.contains, hbits] at hmem

lemma inhabited_join {b : OwnershipFlow} (ha : a.Inhabited) (hb : b.Inhabited) :
    (a.join b).Inhabited := by
  intro hreach
  have hor : a.reachable = true ∨ b.reachable = true := by
    cases hra : a.reachable <;> cases hrb : b.reachable <;> simp [join, hra, hrb] at hreach ⊢
  rcases hor with h | h
  · obtain ⟨s, hs⟩ := ha.exists_hasState h
    exact inhabited_of_hasState (hasState_join.mpr (.inl hs)) hreach
  · obtain ⟨s, hs⟩ := hb.exists_hasState h
    exact inhabited_of_hasState (hasState_join.mpr (.inr hs)) hreach

/-- Applying an event moves every state of an inhabited flow. -/
lemma hasState_applyOwnershipEvent {flow : OwnershipFlow} (hflow : flow.Inhabited)
    (hreach : flow.reachable = true) (event : OwnershipEvent) (s : OwnershipRootState) :
    (applyOwnershipEvent flow event).HasState s ↔
      ∃ s', flow.HasState s' ∧ s'.after event.kind = s := by
  obtain ⟨s₀, hs₀⟩ := hflow.exists_hasState hreach
  have hconst : ∀ target : OwnershipRootState,
      s = target ↔ ∃ s' : OwnershipRootState, flow.HasState s' ∧ target = s := fun target =>
    ⟨fun h => ⟨s₀, hs₀, h.symm⟩, fun ⟨_, _, h⟩ => h.symm⟩
  cases hkind : event.kind <;>
    simp only [applyOwnershipEvent, hkind, hasState_single, OwnershipRootState.after]
  all_goals first
    | exact hconst _
    | simp

end OwnershipFlow

/-! ## The transfer of a block -/

lemma applyOwnershipBlockEvents_eq (function : Function) (root : ValueId) (index : ℕ)
    (flow : OwnershipFlow) :
    applyOwnershipBlockEvents function root (.fromIndex index) flow =
      (blockEvents function root index).foldl applyOwnershipEvent flow := by
  rw [applyOwnershipBlockEvents, blockEvents, List.foldl_filter]
  congr 1
  funext flow event
  cases ownershipEventTracksRoot event root <;> simp

variable {flow exit : OwnershipFlow} {entry : List OwnershipFlow}

lemma reachable_applyOwnershipEvent (h : flow.reachable = true)
    (event : OwnershipEvent) : (applyOwnershipEvent flow event).reachable = true := by
  unfold applyOwnershipEvent
  split <;> first | rfl | exact h

lemma inhabited_applyOwnershipEvent (h : flow.Inhabited)
    (event : OwnershipEvent) : (applyOwnershipEvent flow event).Inhabited := by
  unfold applyOwnershipEvent
  split <;> first | exact OwnershipFlow.inhabited_single _ _ | exact h

/-- A block moves every state of an inhabited flow along its events. -/
lemma hasState_foldl_applyOwnershipEvent (hflow : flow.Inhabited)
    (hreach : flow.reachable = true) (events : List OwnershipEvent) (s : OwnershipRootState) :
    (events.foldl applyOwnershipEvent flow).HasState s ↔
      ∃ s', flow.HasState s' ∧ stateAfterEvents s' events = s := by
  induction events generalizing flow with
  | nil => simp
  | cons event events ih =>
    rw [List.foldl_cons, ih (inhabited_applyOwnershipEvent hflow event)
      (reachable_applyOwnershipEvent hreach event)]
    simp only [OwnershipFlow.hasState_applyOwnershipEvent hflow hreach, stateAfterEvents_cons]
    constructor
    · rintro ⟨_, ⟨s', hs', rfl⟩, hs⟩
      exact ⟨s', hs', hs⟩
    · rintro ⟨s', hs', hs⟩
      exact ⟨_, ⟨s', hs', rfl⟩, hs⟩

lemma inhabited_foldl_applyOwnershipEvent (h : flow.Inhabited)
    (events : List OwnershipEvent) : (events.foldl applyOwnershipEvent flow).Inhabited := by
  induction events generalizing flow with
  | nil => exact h
  | cons event events ih => exact ih (inhabited_applyOwnershipEvent h event)

/-! ## The entry table -/

/-- The entry of the block at `v` holds the state `s`. -/
def EntryHolds (entry : List OwnershipFlow) (v : ℕ) (s : OwnershipRootState) : Prop :=
  (entry.getD v {}).HasState s

/-- One entry for every block, and no reachable entry without a state. -/
structure EntryTable (function : Function) (entry : List OwnershipFlow) : Prop where
  length : entry.length = function.blocks.length
  inhabited : ∀ v, (entry.getD v {}).Inhabited

/-- The table `joinIntoSuccessor` leaves, without the change flag. -/
def joinedTable (exit : OwnershipFlow) (entry : List OwnershipFlow) (successor : BlockId) :
    List OwnershipFlow :=
  if !successor.isValid || decide (entry.length ≤ successor.index) then entry
  else entry.set successor.index ((entry.getD successor.index {}).join exit)

/-- The table `propagateBlock` leaves, without the change flag. -/
def propagatedTable (function : Function) (root : ValueId) (entry : List OwnershipFlow)
    (index : ℕ) : List OwnershipFlow :=
  if !(entry.getD index {}).reachable then entry
  else (function.successors index).foldl
    (joinedTable (applyOwnershipBlockEvents function root (.fromIndex index)
      (entry.getD index {}))) entry

lemma joinIntoSuccessor_reportsChange (exit : OwnershipFlow) :
    ReportsChange (joinIntoSuccessor exit) (joinedTable exit) := by
  have hset : ∀ (entry : List OwnershipFlow) (i : ℕ), i < entry.length →
      entry.set i (entry.getD i {}) = entry := by
    intro entry i hi
    simp [List.getD_eq_getElem?_getD, hi]
  constructor
  · rintro ⟨entry, changed⟩ successor
    simp only [joinIntoSuccessor, joinedTable]
    split <;> rename_i hrange
    · rfl
    · split <;> rename_i heql
      · simp only [Bool.or_eq_true, decide_eq_true_eq, not_or, Nat.not_le] at hrange
        rw [OwnershipFlow.eql_iff.mp heql, hset _ _ hrange.2]
      · rfl
  · rintro ⟨entry, changed⟩ successor hflag
    simp only [joinIntoSuccessor, joinedTable] at hflag ⊢
    split <;> rename_i hrange
    · rw [if_pos hrange] at hflag
      exact ⟨hflag, rfl⟩
    · rw [if_neg hrange] at hflag
      split at hflag <;> rename_i heql
      · simp only [Bool.or_eq_true, decide_eq_true_eq, not_or, Nat.not_le] at hrange
        rw [OwnershipFlow.eql_iff.mp heql, hset _ _ hrange.2]
        exact ⟨hflag, rfl⟩
      · simp at hflag

lemma propagateBlock_reportsChange (function : Function) (root : ValueId) :
    ReportsChange (propagateBlock function root) (propagatedTable function root) := by
  constructor
  · intro acc index
    simp only [propagateBlock, propagatedTable]
    split
    · rfl
    · exact (joinIntoSuccessor_reportsChange _).foldl.table acc _
  · intro acc index hflag
    simp only [propagateBlock, propagatedTable] at hflag ⊢
    split <;> rename_i hreach
    · rw [if_pos hreach] at hflag
      exact ⟨hflag, rfl⟩
    · rw [if_neg hreach] at hflag
      exact (joinIntoSuccessor_reportsChange _).foldl.unchanged acc _ hflag

/-- The solver's rounds are all carried out, as far as the table is concerned. -/
lemma solveOwnershipRootEntryStates_eq (function : Function) (root : ValueId) :
    solveOwnershipRootEntryStates function root =
      (visitBelow (fun index entry => propagatedTable function root entry index)
        function.blocks.length)^[function.blocks.length + 1] (initialEntryStates function) := by
  have hround := (propagateBlock_reportsChange function root).foldl
  rw [solveOwnershipRootEntryStates, sweepUntil_eq_iterate]
  · congr 1
    funext entry
    exact hround.table (entry, false) _
  · intro entry hflag
    rw [propagateRound] at hflag ⊢
    rw [hround.table (entry, false)]
    exact (hround.unchanged (entry, false) _ hflag).2

/-! ## One visit, in terms of states -/

lemma getD_joinedTable {successor : BlockId} (v : ℕ) :
    (joinedTable exit entry successor).getD v {} =
      if successor.isValid = true ∧ successor.index = v ∧ v < entry.length then
        (entry.getD v {}).join exit
      else entry.getD v {} := by
  unfold joinedTable
  by_cases hvalid : successor.isValid = true
  · by_cases hlen : successor.index < entry.length
    · have hguard : ¬ ((!successor.isValid || decide (entry.length ≤ successor.index)) = true) := by
        simp [hvalid, hlen]
      rw [if_neg hguard]
      by_cases hv : successor.index = v
      · subst hv
        simp [hvalid, hlen, List.getD_eq_getElem?_getD]
      · simp [hv, List.getD_eq_getElem?_getD, List.getElem?_set_ne hv]
    · have hv : ¬ (successor.index = v ∧ v < entry.length) := by omega
      simp [hvalid, hv, Nat.not_lt.mp hlen]
  · simp [hvalid]

lemma EntryTable.joinedTable (hexit : exit.Inhabited)
    (h : EntryTable function entry) (successor : BlockId) :
    EntryTable function (joinedTable exit entry successor) := by
  constructor
  · unfold ModernC.Mir.joinedTable
    split
    · exact h.length
    · rw [List.length_set, h.length]
  · intro v
    rw [getD_joinedTable]
    split
    · exact OwnershipFlow.inhabited_join (h.inhabited v) hexit
    · exact h.inhabited v

lemma entryHolds_foldl_joinedTable (hexit : exit.Inhabited)
    (successors : List BlockId) (h : EntryTable function entry) (v : ℕ) (s : OwnershipRootState) :
    EntryTable function (successors.foldl (joinedTable exit) entry) ∧
    (EntryHolds (successors.foldl (joinedTable exit) entry) v s ↔
      EntryHolds entry v s ∨
        (∃ successor ∈ successors, successor.isValid = true ∧ successor.index = v ∧
          v < function.blocks.length) ∧ exit.HasState s) := by
  induction successors generalizing entry with
  | nil => exact ⟨h, by simp⟩
  | cons successor successors ih =>
    obtain ⟨htable, hholds⟩ := ih (h.joinedTable hexit successor)
    refine ⟨htable, ?_⟩
    rw [List.foldl_cons, hholds, EntryHolds, getD_joinedTable, h.length]
    simp only [List.mem_cons, exists_eq_or_imp, EntryHolds]
    split <;> rename_i hhit
    · rw [OwnershipFlow.hasState_join]
      constructor
      · rintro ((hold | hexits) | ⟨hedge, hexits⟩)
        exacts [.inl hold, .inr ⟨.inl hhit, hexits⟩, .inr ⟨.inr hedge, hexits⟩]
      · rintro (hold | ⟨-, hexits⟩)
        exacts [.inl (.inl hold), .inl (.inr hexits)]
    · rw [or_iff_right hhit]

/-! ## The solved table and the paths -/

/-- A visit follows the edges of its block, with the block's own transfer. -/
lemma propagatedTable_relaxes (function : Function) (root : ValueId) :
    Relaxes (EntryTable function) EntryHolds (FlowEdge function)
      (fun index state => stateAfterEvents state (blockEvents function root index))
      (fun index entry => propagatedTable function root entry index) := by
  have hvisit : ∀ entry u, EntryTable function entry →
      EntryTable function (propagatedTable function root entry u) ∧
      ∀ v s, EntryHolds (propagatedTable function root entry u) v s ↔
        EntryHolds entry v s ∨ FlowEdge function u v ∧ ∃ s', EntryHolds entry u s' ∧
          stateAfterEvents s' (blockEvents function root u) = s := by
    intro entry u hentry
    unfold propagatedTable
    split <;> rename_i hreach
    · refine ⟨hentry, fun v s => ⟨.inl, ?_⟩⟩
      -- an unreached block holds no state to push
      rintro (hold | ⟨-, s', hs', -⟩)
      · exact hold
      · rw [show (entry.getD u {}).reachable = true from hs'.1] at hreach
        cases hreach
    · have hreach : (entry.getD u {}).reachable = true := by simpa using hreach
      have hexit := inhabited_foldl_applyOwnershipEvent (hentry.inhabited u)
        (blockEvents function root u)
      rw [applyOwnershipBlockEvents_eq]
      refine ⟨(entryHolds_foldl_joinedTable hexit _ hentry 0 .live).1, fun v s => ?_⟩
      rw [(entryHolds_foldl_joinedTable hexit _ hentry v s).2,
        hasState_foldl_applyOwnershipEvent (hentry.inhabited u) hreach]
      exact Iff.rfl
  exact ⟨fun entry u h => (hvisit entry u h).1, fun entry u v s h => (hvisit entry u h).2 v s⟩

lemma getD_initialEntryStates (hblocks : function.blocks ≠ []) (v : ℕ) :
    (initialEntryStates function).getD v {} =
      if v = 0 then .single .untracked 0 else {} := by
  have hlen : 0 < function.blocks.length := List.length_pos_iff.mpr hblocks
  cases v with
  | zero => simp [initialEntryStates, List.getD_eq_getElem?_getD, hlen]
  | succ v =>
    simp only [initialEntryStates, List.getD_eq_getElem?_getD, Nat.succ_ne_zero, if_false,
      List.getElem?_set_ne (Nat.zero_ne_add_one v), List.getElem?_replicate]
    split <;> rfl

lemma entryTable_initialEntryStates (hblocks : function.blocks ≠ []) :
    EntryTable function (initialEntryStates function) := by
  refine ⟨by simp [initialEntryStates], fun v => ?_⟩
  rw [getD_initialEntryStates hblocks]
  split
  · exact OwnershipFlow.inhabited_single _ _
  · intro hreach
    simp at hreach

/-- **The solved entries, exactly.**  The entry of a block holds the states that paths with
at most `blocks.len` turns before their last step bring to it, and no other state. -/
theorem entryHolds_solved_iff (hblocks : function.blocks ≠ []) (v : ℕ) (s : OwnershipRootState) :
    EntryHolds (solveOwnershipRootEntryStates function root) v s ↔
      ∃ p, Arrives function p v ∧ arrivalState function root p = s ∧
        turns p ≤ function.blocks.length := by
  have hinit : ∀ v s, EntryHolds (initialEntryStates function) v s ↔
      v = 0 ∧ s = OwnershipRootState.untracked := by
    intro v s
    rw [EntryHolds, getD_initialEntryStates hblocks]
    split <;> rename_i hv <;> simp [hv]
  rw [solveOwnershipRootEntryStates_eq,
    sweepTable_holds_iff (propagatedTable_relaxes function root)
      (fun u v h => h.source_lt) (entryTable_initialEntryStates hblocks) hinit]
  constructor
  · rintro ⟨p, hp, hs, hk⟩
    refine ⟨p, ⟨hp, ?_⟩, hs, hk⟩
    rcases hp.eq_nil_or_snoc with ⟨-, rfl⟩ | ⟨q, u, -, -, he⟩
    · exact List.length_pos_iff.mpr hblocks
    · exact he.target_lt
  · rintro ⟨p, hp, hs, hk⟩
    exact ⟨p, hp.walk, hs, hk⟩

/-! ## The checks against the legality of a single state -/

/-- An event valid in a flow is permitted in every state of the flow. -/
lemma permits_of_ownershipEventValidInFlow {event : OwnershipEvent} {eventIndex : ℕ}
    {s : OwnershipRootState}
    (hvalid : ownershipEventValidInFlow function event eventIndex root flow = true)
    (hs : flow.states.contains s = true) : s.permits event.kind = true := by
  have hlive : flow.states.only .live = true → s = .live := fun h =>
    OwnershipStateSet.eq_of_only h hs
  have hnotLive : flow.states.contains .live = false → s ≠ .live := by
    rintro h rfl
    simp [h] at hs
  cases hkind : event.kind with
  | storageLive | storageDead =>
    have hcontains : flow.states.contains .live = false := by
      by_contra h
      simp [ownershipEventValidInFlow, hkind, h] at hvalid
    simpa [OwnershipRootState.permits] using hnotLive hcontains
  | init =>
    have honly : flow.states.only .storageLive = true := by
      by_contra h
      simp [ownershipEventValidInFlow, hkind, h] at hvalid
    simpa [OwnershipRootState.permits] using OwnershipStateSet.eq_of_only honly hs
  | reinit =>
    have hwithin : flow.states.within .storageLive .consumed = true := by
      by_contra h
      simp [ownershipEventValidInFlow, hkind, h] at hvalid
    simpa [OwnershipRootState.permits] using OwnershipStateSet.eq_or_eq_of_within hwithin hs
  | moveOut | forget | explicitDrop | autoDrop | borrowBegin | setDropFlag =>
    have honly : flow.states.only .live = true := by
      by_contra h
      simp [ownershipEventValidInFlow, hkind, h] at hvalid
    simpa [OwnershipRootState.permits] using hlive honly
  | borrowEnd => rfl

/-- The two guards of the inner loop select the events of the block. -/
lemma blockEventsValid_cons {index : ℕ} (hindex : index < maxU32) (event : OwnershipEvent)
    (events : List OwnershipEvent) (eventIndex : ℕ) (flow : OwnershipFlow) :
    blockEventsValid function root index (event :: events) eventIndex flow =
      if ownershipEventTracksRoot event root && event.blockId.eql (.fromIndex index) then
        ownershipEventValidInFlow function event eventIndex root flow &&
          blockEventsValid function root index events (eventIndex + 1)
            (applyOwnershipEvent flow event)
      else blockEventsValid function root index events (eventIndex + 1) flow := by
  have hblock : (!event.blockId.isValid || event.blockId.index != index) =
      !event.blockId.eql (.fromIndex index) := by
    by_cases h : event.blockId.raw = index
    · have hvalid : event.blockId.raw ≠ maxU32 := by omega
      simp [TypedIndex.isValid, TypedIndex.index, TypedIndex.eql, TypedIndex.fromIndex, h,
        Nat.ne_of_lt hindex]
    · have hne : (event.blockId.raw == index) = false := by simpa using h
      simp [TypedIndex.index, TypedIndex.eql, TypedIndex.fromIndex, bne, hne]
  rw [blockEventsValid, hblock]
  cases ownershipEventTracksRoot event root <;>
    cases event.blockId.eql (.fromIndex index) <;>
    cases ownershipEventValidInFlow function event eventIndex root flow <;> simp

/-- A validated block is legal from every state of its entry flow. -/
lemma eventsPermitted_of_blockEventsValid {index : ℕ} (hindex : index < maxU32)
    {events : List OwnershipEvent} {eventIndex : ℕ}
    {s : OwnershipRootState} (hinhabited : flow.Inhabited) (hflow : flow.HasState s)
    (hvalid : blockEventsValid function root index events eventIndex flow = true) :
    eventsPermitted s (events.filter fun event =>
      ownershipEventTracksRoot event root && event.blockId.eql (.fromIndex index)) = true := by
  induction events generalizing eventIndex flow s with
  | nil => rfl
  | cons event events ih =>
    rw [blockEventsValid_cons hindex] at hvalid
    rw [List.filter_cons]
    split at hvalid <;> rename_i hselected
    · rw [if_pos hselected, eventsPermitted]
      rw [Bool.and_eq_true] at hvalid ⊢
      refine ⟨permits_of_ownershipEventValidInFlow hvalid.1 hflow.2, ?_⟩
      refine ih (inhabited_applyOwnershipEvent hinhabited event) ?_ hvalid.2
      exact (OwnershipFlow.hasState_applyOwnershipEvent hinhabited hflow.1 event _).mpr
        ⟨s, hflow, rfl⟩
    · rw [if_neg hselected]
      exact ih hinhabited hflow hvalid

/-- The loop over the events checks every tracked root that is not yet in `seen`. -/
lemma ownershipRootsFlowValid_iff {events : List OwnershipEvent} {seen : List ValueId} :
    ownershipRootsFlowValid function events seen = true ↔
      ∀ root, root ∉ seen →
        (∃ event ∈ events, ownershipEventTracksRoot event root = true) →
        ownershipRootHasStorageLive function root = true →
        ownershipRootFlowValid function root (solveOwnershipRootEntryStates function root) =
          true := by
  induction events generalizing seen with
  | nil => simp [ownershipRootsFlowValid]
  | cons event events ih =>
    -- an event of no root that still has to be checked can be passed over
    have hskip : (∀ root, ownershipEventTracksRoot event root = true → root ∉ seen →
        ownershipRootHasStorageLive function root = false) →
        (ownershipRootsFlowValid function events seen = true ↔ ∀ root, root ∉ seen →
          (∃ e ∈ event :: events, ownershipEventTracksRoot e root = true) →
          ownershipRootHasStorageLive function root = true →
          ownershipRootFlowValid function root
            (solveOwnershipRootEntryStates function root) = true) := by
      intro hirrelevant
      rw [ih]
      refine forall_congr' fun root => forall_congr' fun hunseen => ?_
      constructor
      · rintro h ⟨e, he, htracks⟩ hlive
        rcases List.mem_cons.mp he with rfl | he
        · simp [hirrelevant root htracks hunseen] at hlive
        · exact h ⟨e, he, htracks⟩ hlive
      · rintro h ⟨e, he, htracks⟩ hlive
        exact h ⟨e, List.mem_cons_of_mem _ he, htracks⟩ hlive
    rw [ownershipRootsFlowValid]
    split
    next hroot =>
      refine hskip fun root htracks _ => ?_
      simp [(ownershipEventTracksRoot_iff.mp htracks).1] at hroot
    next root hroot =>
      have hsame : ∀ r, ownershipEventTracksRoot event r = true → r = root := by
        intro r htracks
        simpa [hroot, eq_comm] using (ownershipEventTracksRoot_iff.mp htracks).1
      split_ifs with htyped hlive hseen hvalid
      · refine hskip fun r htracks _ => ?_
        simp [(ownershipEventTracksRoot_iff.mp htracks).2] at htyped
      · refine hskip fun r htracks _ => ?_
        rw [hsame r htracks]
        simpa using hlive
      · refine hskip fun r htracks hunseen => ?_
        rw [hsame r htracks] at hunseen
        simp [hunseen] at hseen
      · have htracks : ownershipEventTracksRoot event root = true :=
          ownershipEventTracksRoot_iff.mpr ⟨hroot, by simpa using htyped⟩
        simp only [false_iff, not_forall]
        exact ⟨root, by simpa using hseen, ⟨event, by simp, htracks⟩, by simpa using hlive,
          by simpa using hvalid⟩
      · rw [ih]
        constructor
        · rintro h r hunseen ⟨e, he, htracks⟩ hr
          by_cases hsameRoot : r = root
          · subst hsameRoot
            simpa using hvalid
          · rcases List.mem_cons.mp he with rfl | he
            · exact absurd (hsame r htracks) hsameRoot
            · exact h r (by simp [hunseen, hsameRoot]) ⟨e, he, htracks⟩ hr
        · rintro h r hunseen ⟨e, he, htracks⟩ hr
          exact h r (fun hmem => hunseen (by simp [hmem])) ⟨e, List.mem_cons_of_mem _ he, htracks⟩ hr

/-- An admitted function with blocks has passed the flow check of every tracked root. -/
lemma ownershipRootFlowValid_of_sequenceValid
    (hvalid : ownershipEventSequenceValid function = true) (hblocks : function.blocks ≠ [])
    (hroot : OwnershipRootTracked function root) :
    ownershipRootFlowValid function root (solveOwnershipRootEntryStates function root) =
      true := by
  have hflow : ownershipRootsFlowValid function function.ownershipEvents [] = true := by
    rw [ownershipEventSequenceValid, Bool.and_eq_true] at hvalid
    simpa [hblocks] using hvalid.1
  exact ownershipRootsFlowValid_iff.mp hflow root (by simp) hroot.1 hroot.2

/-! ## Soundness -/

/-- A path that turns at most `blocks.len` times before its last step is legal. -/
theorem eventsPermitted_of_turns_le (hvalid : ownershipEventSequenceValid function = true)
    (hroot : OwnershipRootTracked function root) {p : List ℕ} {v : ℕ}
    (hp : Arrives function p v) (hturns : turns p ≤ function.blocks.length) :
    eventsPermitted (arrivalState function root p) (blockEvents function root v) = true := by
  have hblocks : function.blocks ≠ [] := by
    rintro h
    simpa [h] using hp.inRange
  have hholds : EntryHolds (solveOwnershipRootEntryStates function root) v
      (arrivalState function root p) :=
    (entryHolds_solved_iff hblocks v _).mpr ⟨p, hp, rfl, hturns⟩
  have hflow := ownershipRootFlowValid_of_sequenceValid hvalid hblocks hroot
  rw [ownershipRootFlowValid, List.all_eq_true] at hflow
  have hblock := hflow v (List.mem_range.mpr hp.inRange)
  simp only [show ((solveOwnershipRootEntryStates function root).getD v {}).reachable = true
    from hholds.1] at hblock
  have hindex : v < maxU32 := Nat.lt_of_lt_of_le hp.inRange function.blocksIndexed
  exact eventsPermitted_of_blockEventsValid hindex
    (OwnershipFlow.inhabited_of_hasState hholds) hholds hblock

/-- **When an admitted function is legal along every path.**  This is so exactly when no
root can arrive in a state that performs a forbidden event only by paths which turn back
more often than the solver has rounds. -/
theorem pathsLegal_iff_illegalStatesWithinRounds
    (hvalid : ownershipEventSequenceValid function = true) :
    (∀ root, OwnershipRootTracked function root → PathsLegal function root) ↔
      ∀ root, OwnershipRootTracked function root → IllegalStatesWithinRounds function root := by
  constructor
  · intro h root hroot p v hillegal
    exact absurd hillegal (pathsLegal_iff.mp (h root hroot) p v)
  · intro h root hroot
    rw [pathsLegal_iff]
    intro p v hillegal
    obtain ⟨q, hq, hstate, hturns⟩ := h root hroot p v hillegal
    have hlegal := eventsPermitted_of_turns_le hvalid hroot hq hturns
    rw [hstate, hillegal.2] at hlegal
    cases hlegal

/-- A function whose paths never come back to a block they have left is legal along every
path once admitted, whatever the numbering of its blocks. -/
theorem pathsLegal_of_noBlockRepeats (hvalid : ownershipEventSequenceValid function = true)
    (hacyclic : ∀ p v, Arrives function p v → p.Nodup)
    (hroot : OwnershipRootTracked function root) : PathsLegal function root := by
  intro p v hp
  have hsub : p ⊆ List.range function.blocks.length := fun u hu =>
    List.mem_range.mpr (hp.walk.forall_mem_left (fun _ _ h => h.source_lt) u hu)
  have hlength : p.length ≤ function.blocks.length := by
    simpa using (List.subperm_of_subset (hacyclic p v hp) hsub).length_le
  exact eventsPermitted_of_turns_le hvalid hroot hp
    (Nat.le_trans (turns_le_length p) hlength)

/-! ## A loop that is descended twice -/

/-- The place of a local of some resource type. -/
def localPlace (root : ValueId) : OwnershipPlace :=
  { rootValueId := root, rootTypeSymbolId := ⟨0⟩ }

/-- An event at the same source point as every other one. -/
def eventOn (kind : OwnershipEventKind) (root : ValueId) (block : ℕ) : OwnershipEvent :=
  { kind := kind, place := localPlace root, blockId := ⟨block⟩, source := { line := 1, column := 1 } }

/-- Block `0` initialises a local, which block `1` moves out. -/
def straightLine : Function where
  blocks :=
    [ { id := ⟨0⟩, successors := [⟨1⟩], terminator := .jump ⟨1⟩ },
      { id := ⟨1⟩, successors := [], terminator := .return_ } ]
  ownershipEvents :=
    [eventOn .storageLive ⟨0⟩ 0, eventOn .init ⟨0⟩ 0, eventOn .moveOut ⟨0⟩ 1]

theorem straightLine_pathsLegal : PathsLegal straightLine ⟨0⟩ := by
  refine pathsLegal_of_noBlockRepeats (by decide) (fun p v hp => ?_)
    ⟨⟨eventOn .storageLive ⟨0⟩ 0, by decide, by decide⟩, by decide⟩
  have hedge : ∀ u v, FlowEdge straightLine u v → u = 0 ∧ v = 1 := by
    rintro (_ | _ | u) v ⟨successor, hmem, -, rfl, -⟩
    · obtain rfl := List.mem_singleton.mp hmem
      exact ⟨rfl, rfl⟩
    all_goals cases hmem
  cases hp.walk with
  | nil => exact List.nodup_nil
  | snoc hwalk hlast =>
    obtain ⟨rfl, -⟩ := hedge _ _ hlast
    cases hwalk with
    | nil => simp
    | snoc _ hnext => cases (hedge _ _ hnext).2

/-- Block `0` initialises a local and enters the loop `6 → 5 → 4 → 3 → 2 → 1 → 6`, numbered
against the flow; block `1` moves the local out and leaves for the return in block `7` or
goes round again. -/
def descendingLoop : Function where
  blocks :=
    [ { id := ⟨0⟩, successors := [⟨6⟩], terminator := .jump ⟨6⟩ },
      { id := ⟨1⟩, successors := [⟨6⟩, ⟨7⟩], terminator := .branch ⟨6⟩ ⟨7⟩ },
      { id := ⟨2⟩, successors := [⟨1⟩], terminator := .jump ⟨1⟩ },
      { id := ⟨3⟩, successors := [⟨2⟩], terminator := .jump ⟨2⟩ },
      { id := ⟨4⟩, successors := [⟨3⟩], terminator := .jump ⟨3⟩ },
      { id := ⟨5⟩, successors := [⟨4⟩], terminator := .jump ⟨4⟩ },
      { id := ⟨6⟩, successors := [⟨5⟩], terminator := .jump ⟨5⟩ },
      { id := ⟨7⟩, successors := [], terminator := .return_ } ]
  ownershipEvents :=
    [eventOn .storageLive ⟨0⟩ 0, eventOn .init ⟨0⟩ 0, eventOn .moveOut ⟨0⟩ 1]

lemma descendingLoop_admitted : ownershipEventSequenceValid descendingLoop = true := by
  decide

lemma descendingLoop_tracked : OwnershipRootTracked descendingLoop ⟨0⟩ :=
  ⟨⟨eventOn .storageLive ⟨0⟩ 0, by decide, by decide⟩, by decide⟩

/-- The second time round, the local is moved out again. -/
lemma descendingLoop_secondRound :
    Arrives descendingLoop [0, 6, 5, 4, 3, 2, 1, 6, 5, 4, 3, 2] 1 := by
  have hedge : ∀ u v, (⟨v⟩ : BlockId) ∈ descendingLoop.successors u → v < 8 →
      FlowEdge descendingLoop u v := fun u v hmem hv =>
    ⟨⟨v⟩, hmem, by simp [TypedIndex.isValid, maxU32]; omega, rfl, hv⟩
  have hsteps : ∀ (p : List ℕ) (u v : ℕ), Walk (FlowEdge descendingLoop) 0 p u →
      (⟨v⟩ : BlockId) ∈ descendingLoop.successors u → v < 8 →
      Walk (FlowEdge descendingLoop) 0 (p ++ [u]) v := fun p u v hp hmem hv =>
    hp.snoc (hedge u v hmem hv)
  refine ⟨?_, by decide⟩
  have h1 := hsteps _ 0 6 .nil (by decide) (by decide)
  have h2 := hsteps _ 6 5 h1 (by decide) (by decide)
  have h3 := hsteps _ 5 4 h2 (by decide) (by decide)
  have h4 := hsteps _ 4 3 h3 (by decide) (by decide)
  have h5 := hsteps _ 3 2 h4 (by decide) (by decide)
  have h6 := hsteps _ 2 1 h5 (by decide) (by decide)
  have h7 := hsteps _ 1 6 h6 (by decide) (by decide)
  have h8 := hsteps _ 6 5 h7 (by decide) (by decide)
  have h9 := hsteps _ 5 4 h8 (by decide) (by decide)
  have h10 := hsteps _ 4 3 h9 (by decide) (by decide)
  have h11 := hsteps _ 3 2 h10 (by decide) (by decide)
  exact hsteps _ 2 1 h11 (by decide) (by decide)

/-- An admitted function can move a local twice along a path. -/
theorem admitted_not_pathsLegal :
    ¬ ∀ (function : Function) (root : ValueId), ownershipEventSequenceValid function = true →
      OwnershipRootTracked function root → PathsLegal function root := by
  intro h
  have hlegal := h descendingLoop ⟨0⟩ descendingLoop_admitted descendingLoop_tracked _ _
    descendingLoop_secondRound
  revert hlegal
  decide

/-- The characterisation at the loop, which is admitted. -/
theorem descendingLoop_pathsLegal_iff :
    (∀ root, OwnershipRootTracked descendingLoop root → PathsLegal descendingLoop root) ↔
      ∀ root, OwnershipRootTracked descendingLoop root →
        IllegalStatesWithinRounds descendingLoop root :=
  pathsLegal_iff_illegalStatesWithinRounds descendingLoop_admitted

end ModernC.Mir
