import Mathlib.Data.List.Pairwise
import Mathlib.Data.Nat.Prime.Basic
import ModernC.Alloc.Addresses

/-!
# The arena

An arena moves a frontier through a region, and a reset moves it back.  A reference carries the
generation of the arena that it was made in, which every reset counts up.  An allocation that traps
gives no answer.  The main result is `arena_safe_iff`, about every run.
-/

namespace ModernC.Alloc

open Framework

structure Arena where
  base : ℕ
  next : ℕ
  /-- `end` -/
  last : ℕ
  gen : ℕ
deriving DecidableEq

def arenaInit (region : PhysRange) : Arena := ⟨region.start, region.start, region.last, 0⟩

def arenaAlloc (a : Arena) (size align : ℕ) : Option ℕ × Arena :=
  match paAlignUp a.next align with
  | none => (none, a)
  | some start =>
    match paOffset start size with
    | none => (none, a)
    | some next => if a.last < next then (none, a) else (some start, { a with next := next })

/-- A reset that does not trap. -/
def arenaReset (a : Arena) : Option Arena := do
  let gen ← checkedAdd 32 a.gen 1
  return { a with next := a.base, gen := gen }

/-! ## Generational references -/

/-- `sizeof` and `alignof` of a type. -/
structure TypeLayout where
  size : ℕ
  align : ℕ
  isPowerOfTwo : align.isPowerOfTwo

/-- A reference to a value of the type. -/
structure GenRef (T : TypeLayout) where
  addr : ℕ
  gen : ℕ
deriving DecidableEq

inductive ArenaError where
  | staleHandle
  | forgedHandle
deriving DecidableEq

def arenaAllocGen (T : TypeLayout) (a : Arena) (size align : ℕ) : Option (GenRef T) × Arena :=
  if size < T.size then (none, a)
  else if align < T.align then (none, a)
  else
    let (start, a') := arenaAlloc a size align
    (start.map fun addr => ⟨addr, a.gen⟩, a')

def arenaResolve {T : TypeLayout} (a : Arena) (h : GenRef T) : Option (Except ArenaError ℕ) :=
  if h.gen ≠ a.gen then some (.error .staleHandle)
  else if h.addr < a.base then some (.error .forgedHandle)
  else if ¬h.addr < a.next then some (.error .forgedHandle)
  else do
    let room ← paDiff h.addr a.next
    if T.size > room then return .error .forgedHandle
    else if !paIsAligned h.addr T.align then return .error .forgedHandle
    else return .ok h.addr

/-! ## Runs -/

/-- A block that is handed out. -/
structure Block where
  start : ℕ
  size : ℕ
  align : ℕ

/-- An operation with its answer.  A refused allocation answers nothing. -/
inductive ArenaEvent where
  | alloc (size align : ℕ) (answer : Option ℕ)
  | allocGen (T : TypeLayout) (size align : ℕ) (answer : Option (GenRef T))
  | reset

/-- A run of an arena over the region, with its events, the last one first. -/
inductive ArenaRun (region : PhysRange) : List ArenaEvent → Arena → Prop
  | init : ArenaRun region [] (arenaInit region)
  | alloc {history a} (h : ArenaRun region history a) (size align : ℕ) :
      ArenaRun region (.alloc size align (arenaAlloc a size align).1 :: history)
        (arenaAlloc a size align).2
  | allocGen {history a} (h : ArenaRun region history a) (T : TypeLayout) (size align : ℕ) :
      ArenaRun region (.allocGen T size align (arenaAllocGen T a size align).1 :: history)
        (arenaAllocGen T a size align).2
  | reset {history a a'} (h : ArenaRun region history a) (hop : arenaReset a = some a') :
      ArenaRun region (.reset :: history) a'

/-- The block that an event hands out. -/
def ArenaEvent.block : ArenaEvent → Option Block
  | .alloc size align answer => answer.map fun start => ⟨start, size, align⟩
  | .allocGen _ size align answer => answer.map fun h => ⟨h.addr, size, align⟩
  | .reset => none

/-- The events since the last reset. -/
def sinceReset : List ArenaEvent → List ArenaEvent
  | [] => []
  | .reset :: _ => []
  | event :: history => event :: sinceReset history

/-- The blocks handed out since the last reset. -/
def blocks (history : List ArenaEvent) : List Block :=
  (sinceReset history).filterMap ArenaEvent.block

/-- The reference was made by one of the events. -/
def Made {T : TypeLayout} (h : GenRef T) (events : List ArenaEvent) : Prop :=
  ∃ size align, .allocGen T size align (some h) ∈ events

end ModernC.Alloc

/-!
## Blocks of an arena

The blocks handed out since the last reset lie side by side below the frontier.  A reference of the
current generation resolves if the frontier is behind its address.
-/

namespace ModernC.Alloc

open Framework

variable {region : PhysRange} {history : List ArenaEvent} {a : Arena}

/-! ## What a step does -/

/-- A request at a place in an arena. -/
structure Fits (a : Arena) (start size align : ℕ) : Prop where
  aligned : align ∣ start
  above : a.next ≤ start
  below : start + size ≤ a.last
  isPowerOfTwo : align.isPowerOfTwo

/-- The arena with a block behind which the frontier stands. -/
def Arena.bump (a : Arena) (start size : ℕ) : Arena := { a with next := start + size }

lemma arenaAlloc_cases (a : Arena) (size align : ℕ) :
    arenaAlloc a size align = (none, a) ∨
      ∃ start, arenaAlloc a size align = (some start, a.bump start size) ∧
        Fits a start size align := by
  rw [arenaAlloc]
  split
  · exact .inl rfl
  · next start hstart =>
    obtain ⟨hpower, hdvd, hle, -⟩ := paAlignUp_spec hstart
    split
    · exact .inl rfl
    · next next hnext =>
      obtain ⟨-, rfl⟩ := paOffset_eq_some.mp hnext
      split
      · exact .inl rfl
      · next hroom => exact .inr ⟨start, rfl, hdvd, hle, by omega, hpower⟩

lemma arenaAllocGen_cases (T : TypeLayout) (a : Arena) (size align : ℕ) :
    arenaAllocGen T a size align = (none, a) ∨
      ∃ start, arenaAllocGen T a size align = (some ⟨start, a.gen⟩, a.bump start size) ∧
        Fits a start size align ∧ T.size ≤ size ∧ T.align ≤ align := by
  rw [arenaAllocGen]
  split
  · exact .inl rfl
  · next hsize =>
    split
    · exact .inl rfl
    · next halign =>
      rcases arenaAlloc_cases a size align with heq | ⟨start, heq, hfits⟩
      · rw [heq]
        exact .inl rfl
      · rw [heq]
        exact .inr ⟨start, rfl, hfits, by omega, by omega⟩

lemma arenaReset_eq_some {a' : Arena} (h : arenaReset a = some a') :
    a' = { a with next := a.base, gen := a.gen + 1 } := by
  obtain ⟨gen, hgen, ha'⟩ := Option.bind_eq_some_iff.mp h
  obtain ⟨-, rfl⟩ := checkedAdd_eq_some.mp hgen
  exact (Option.some.inj ha').symm

/-! ## The invariant -/

/-- A block between the base of an arena and its frontier. -/
structure Block.Inside (block : Block) (a : Arena) : Prop where
  aligned : block.align ∣ block.start
  above : a.base ≤ block.start
  below : block.start + block.size ≤ a.next
  room : block.start + block.size ≤ a.last

/-- The blocks have no byte in common. -/
def Block.Disjoint (block block' : Block) : Prop :=
  block.start + block.size ≤ block'.start ∨ block'.start + block'.size ≤ block.start

/-- What an arena knows of its history. -/
structure Arena.Tracks (history : List ArenaEvent) (a : Arena) : Prop where
  base_le : a.base ≤ a.next
  inside : ∀ block ∈ blocks history, block.Inside a
  disjoint : (blocks history).Pairwise Block.Disjoint
  made : ∀ {T : TypeLayout} (h : GenRef T), Made h history → h.gen ≤ a.gen ∧
    (Made h (sinceReset history) ↔ h.gen = a.gen)
  resolves : ∀ {T : TypeLayout} (h : GenRef T), Made h (sinceReset history) →
    a.base ≤ h.addr ∧ h.addr + T.size ≤ a.next ∧ T.align ∣ h.addr

variable {event : ArenaEvent} {start : ℕ}

lemma made_cons {T : TypeLayout} {h : GenRef T} :
    Made h (event :: history) ↔
      (∃ size align, .allocGen T size align (some h) = event) ∨ Made h history := by
  simp only [Made, List.mem_cons, exists_or]

lemma Block.Inside.bump {block : Block} {size : ℕ} (h : block.Inside a)
    (hstart : a.next ≤ start) : block.Inside (a.bump start size) :=
  ⟨h.aligned, h.above, h.below.trans (hstart.trans (Nat.le_add_right _ _)), h.room⟩

/-- A new block lies behind the others. -/
lemma Arena.Tracks.bump {size align : ℕ} (h : a.Tracks history)
    (hfits : Fits a start size align) (hevent : event ≠ .reset)
    (hblock : event.block = some ⟨start, size, align⟩)
    (hmade : ∀ {T : TypeLayout} (r : GenRef T) size' align',
      .allocGen T size' align' (some r) = event →
        r = ⟨start, a.gen⟩ ∧ T.size ≤ size ∧ T.align ∣ start) :
    (a.bump start size).Tracks (event :: history) := by
  have hsince : sinceReset (event :: history) = event :: sinceReset history := by
    cases event with
    | reset => exact absurd rfl hevent
    | alloc | allocGen => rfl
  have hblocks : blocks (event :: history) = ⟨start, size, align⟩ :: blocks history := by
    rw [blocks, hsince, List.filterMap_cons, hblock]
    rfl
  constructor
  · exact h.base_le.trans (hfits.above.trans (Nat.le_add_right _ _))
  · rw [hblocks]
    rintro block hmem
    rcases List.mem_cons.mp hmem with rfl | hmem
    · exact ⟨hfits.aligned, h.base_le.trans hfits.above, le_refl _, hfits.below⟩
    · exact (h.inside block hmem).bump hfits.above
  · rw [hblocks, List.pairwise_cons]
    refine ⟨fun block hmem => .inr ?_, h.disjoint⟩
    exact (h.inside block hmem).below.trans hfits.above
  · intro T r hr
    rw [hsince, made_cons]
    rcases made_cons.mp hr with ⟨size', align', hnew⟩ | hold
    · obtain ⟨rfl, -⟩ := hmade r size' align' hnew
      exact ⟨le_refl _, iff_of_true (.inl ⟨size', align', hnew⟩) rfl⟩
    · obtain ⟨hle, hiff⟩ := h.made r hold
      refine ⟨hle, ⟨?_, fun hgen => .inr (hiff.mpr hgen)⟩⟩
      rintro (⟨size', align', hnew⟩ | hsince)
      · rw [(hmade r size' align' hnew).1]
        rfl
      · exact hiff.mp hsince
  · intro T r hr
    rw [hsince] at hr
    rcases made_cons.mp hr with ⟨size', align', hnew⟩ | hold
    · obtain ⟨rfl, hsize, hdvd⟩ := hmade r size' align' hnew
      exact ⟨h.base_le.trans hfits.above, Nat.add_le_add_left hsize start, hdvd⟩
    · obtain ⟨habove, hbelow, hdvd⟩ := h.resolves r hold
      refine ⟨habove, hbelow.trans ?_, hdvd⟩
      exact hfits.above.trans (Nat.le_add_right _ _)

/-- A refusal changes nothing. -/
lemma Arena.Tracks.refuse (h : a.Tracks history) (hevent : event ≠ .reset)
    (hblock : event.block = none) (hmade : ∀ {T : TypeLayout} (r : GenRef T) size align,
      .allocGen T size align (some r) ≠ event) : a.Tracks (event :: history) := by
  have hsince : sinceReset (event :: history) = event :: sinceReset history := by
    cases event with
    | reset => exact absurd rfl hevent
    | alloc | allocGen => rfl
  have hblocks : blocks (event :: history) = blocks history := by
    rw [blocks, hsince, List.filterMap_cons, hblock]
    rfl
  have hcons : ∀ {T : TypeLayout} (r : GenRef T) events,
      Made r (event :: events) ↔ Made r events := by
    intro T r events
    refine made_cons.trans (or_iff_right ?_)
    rintro ⟨size, align, hnew⟩
    exact hmade r size align hnew
  constructor
  · exact h.base_le
  · rw [hblocks]
    exact h.inside
  · rw [hblocks]
    exact h.disjoint
  · intro T r hr
    rw [hsince, hcons]
    exact h.made r ((hcons r _).mp hr)
  · intro T r hr
    rw [hsince, hcons] at hr
    exact h.resolves r hr

lemma tracks_arenaInit (region : PhysRange) : (arenaInit region).Tracks [] := by
  constructor
  · exact le_refl _
  · exact nofun
  · exact .nil
  · rintro T r ⟨size, align, hmem⟩
    exact absurd hmem List.not_mem_nil
  · rintro T r ⟨size, align, hmem⟩
    exact absurd hmem List.not_mem_nil

/-- No reference is of a generation to come. -/
lemma Arena.Tracks.reset (h : a.Tracks history) :
    ({ a with next := a.base, gen := a.gen + 1 } : Arena).Tracks (.reset :: history) := by
  have hnone : ∀ {T : TypeLayout} (r : GenRef T), ¬Made r (sinceReset (.reset :: history)) := by
    rintro T r ⟨size, align, hmem⟩
    exact absurd hmem List.not_mem_nil
  constructor
  · exact le_refl _
  · exact nofun
  · exact .nil
  · intro T r hr
    have hold : Made r history := (made_cons.mp hr).resolve_left (by rintro ⟨_, _, ⟨⟩⟩)
    obtain ⟨hle, -⟩ := h.made r hold
    refine ⟨Nat.le_succ_of_le hle, iff_of_false (hnone r) fun hgen => ?_⟩
    have hgen' : r.gen = a.gen + 1 := hgen
    omega
  · exact fun r hr => absurd hr (hnone r)

lemma TypeLayout.align_dvd (T : TypeLayout) {align : ℕ} (hle : T.align ≤ align)
    (hpower : align.isPowerOfTwo) (hdvd : align ∣ start) : T.align ∣ start := by
  obtain ⟨j, hj⟩ := T.isPowerOfTwo
  obtain ⟨k, rfl⟩ := hpower
  rw [hj] at hle ⊢
  have hjk : j ≤ k := (Nat.pow_le_pow_iff_right (by decide)).mp hle
  exact (Nat.pow_dvd_pow 2 hjk).trans hdvd

/-- **A run keeps track.** -/
theorem ArenaRun.tracks (h : ArenaRun region history a) : a.Tracks history := by
  induction h with
  | init => exact tracks_arenaInit region
  | alloc h size align ih =>
    rcases arenaAlloc_cases _ size align with heq | ⟨start, heq, hfits⟩
    · rw [heq]
      exact ih.refuse (by simp) rfl (by simp)
    · rw [heq]
      exact ih.bump hfits (by simp) rfl (by simp)
  | allocGen h T size align ih =>
    rcases arenaAllocGen_cases T _ size align with heq | ⟨start, heq, hfits, hsize, halign⟩
    · rw [heq]
      refine ih.refuse (by simp) rfl ?_
      rintro T' r size' align' ⟨⟩
    · rw [heq]
      refine ih.bump hfits (by simp) rfl ?_
      rintro T' r size' align' heq
      cases heq
      exact ⟨rfl, hsize, T.align_dvd halign hfits.isPowerOfTwo hfits.aligned⟩
  | reset h hop ih =>
    rw [arenaReset_eq_some hop]
    exact ih.reset

lemma ArenaRun.region_eq (h : ArenaRun region history a) :
    a.base = region.start ∧ a.last = region.last := by
  induction h with
  | init => exact ⟨rfl, rfl⟩
  | alloc h size align ih =>
    rcases arenaAlloc_cases _ size align with heq | ⟨start, heq, -⟩ <;> rw [heq] <;> exact ih
  | allocGen h T size align ih =>
    rcases arenaAllocGen_cases T _ size align with heq | ⟨start, heq, -⟩ <;> rw [heq] <;> exact ih
  | reset h hop ih =>
    rw [arenaReset_eq_some hop]
    exact ih

/-! ## Safety -/

/-- A reference of the current generation resolves unless the frontier stands at its address. -/
lemma Arena.Tracks.arenaResolve_iff (h : a.Tracks history) {T : TypeLayout} {r : GenRef T}
    (hr : Made r history) :
    arenaResolve a r = some (.ok r.addr) ↔ Made r (sinceReset history) ∧ r.addr < a.next := by
  obtain ⟨-, hgen⟩ := h.made r hr
  by_cases hsince : Made r (sinceReset history)
  · obtain ⟨habove, hbelow, hdvd⟩ := h.resolves r hsince
    have hroom : paDiff r.addr a.next = some (a.next - r.addr) :=
      checkedSub_eq_some.mpr ⟨by omega, rfl⟩
    have haligned : paIsAligned r.addr T.align = true := by
      simpa [paIsAligned] using Nat.mod_eq_zero_of_dvd hdvd
    rw [and_iff_right hsince, arenaResolve, if_neg (not_not.mpr (hgen.mp hsince)),
      if_neg (Nat.not_lt_of_le habove)]
    by_cases hlt : r.addr < a.next
    · rw [if_neg (not_not.mpr hlt), hroom]
      refine iff_of_true ?_ hlt
      have hsize : ¬T.size > a.next - r.addr := by omega
      simp [hsize, haligned]
    · rw [if_pos hlt]
      exact iff_of_false (by simp) hlt
  · refine iff_of_false ?_ fun hboth => hsince hboth.1
    rw [arenaResolve, if_pos fun heq => hsince (hgen.mpr heq)]
    simp

/-- What an arena keeps over every run. -/
structure ArenaSafe (region : PhysRange) (history : List ArenaEvent) (a : Arena) : Prop where
  disjoint : (blocks history).Pairwise Block.Disjoint
  aligned : ∀ block ∈ blocks history, block.align ∣ block.start
  inside : ∀ block ∈ blocks history,
    region.start ≤ block.start ∧ block.start + block.size ≤ region.last
  refused : ∀ size align, (arenaAlloc a size align).1 = none → (arenaAlloc a size align).2 = a
  refusedGen : ∀ T size align,
    (arenaAllocGen T a size align).1 = none → (arenaAllocGen T a size align).2 = a

theorem ArenaRun.safe (h : ArenaRun region history a) : ArenaSafe region history a := by
  have htracks := h.tracks
  obtain ⟨hbase, hlast⟩ := h.region_eq
  constructor
  · exact htracks.disjoint
  · exact fun block hmem => (htracks.inside block hmem).aligned
  · intro block hmem
    have hinside := htracks.inside block hmem
    exact ⟨hbase ▸ hinside.above, hlast ▸ hinside.room⟩
  · intro size align hnone
    rcases arenaAlloc_cases a size align with heq | ⟨start, heq, -⟩
    · rw [heq]
    · rw [heq] at hnone
      exact absurd hnone (by simp)
  · intro T size align hnone
    rcases arenaAllocGen_cases T a size align with heq | ⟨start, heq, -⟩
    · rw [heq]
    · rw [heq] at hnone
      exact absurd hnone (by simp)

/-- **Blocks are safe in every run, and a reference resolves exactly in the generation that made it
if and only if the frontier is behind its address there.** -/
theorem arena_safe_iff (h : ArenaRun region history a) :
    ArenaSafe region history a ∧ ∀ {T : TypeLayout} (r : GenRef T), Made r history →
      ((arenaResolve a r = some (.ok r.addr) ↔ Made r (sinceReset history)) ↔
        (Made r (sinceReset history) → r.addr < a.next)) := by
  refine ⟨h.safe, fun r hr => ?_⟩
  rw [h.tracks.arenaResolve_iff hr]
  tauto

/-- A type without bytes. -/
def emptyLayout : TypeLayout := ⟨0, 1, ⟨0, rfl⟩⟩

/-- A run that makes a reference to nothing. -/
lemma arenaRun_empty : ArenaRun ⟨0, 16⟩
    [.allocGen emptyLayout 0 1 (some ⟨0, 0⟩)] (arenaInit ⟨0, 16⟩) :=
  .allocGen .init emptyLayout 0 1

lemma made_empty : Made (⟨0, 0⟩ : GenRef emptyLayout)
    [.allocGen emptyLayout 0 1 (some ⟨0, 0⟩)] :=
  ⟨0, 1, List.mem_singleton_self _⟩

/-- It does not resolve, and only because of the frontier. -/
theorem arena_safe_iff_empty :
    (arenaResolve (arenaInit ⟨0, 16⟩) (⟨0, 0⟩ : GenRef emptyLayout) = some (.ok 0) ↔
      Made (⟨0, 0⟩ : GenRef emptyLayout) [.allocGen emptyLayout 0 1 (some ⟨0, 0⟩)]) ↔
      (Made (⟨0, 0⟩ : GenRef emptyLayout) [.allocGen emptyLayout 0 1 (some ⟨0, 0⟩)] → 0 < 0) :=
  (arena_safe_iff arenaRun_empty).2 _ made_empty

/-- A reference to a type without bytes does not resolve in its generation. -/
theorem not_arenaResolve_empty :
    ¬∀ (region : PhysRange) (history : List ArenaEvent) (a : Arena),
      ArenaRun region history a → ∀ (T : TypeLayout) (r : GenRef T), Made r history →
        (arenaResolve a r = some (.ok r.addr) ↔ Made r (sinceReset history)) := by
  intro hall
  have hresolve := (hall _ _ _ arenaRun_empty _ _ made_empty).mpr made_empty
  exact absurd hresolve (by decide)

end ModernC.Alloc
