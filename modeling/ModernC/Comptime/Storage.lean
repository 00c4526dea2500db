import ModernC.Comptime.Assignment

/-!
# Assignments in storage

The items of an array and the fields of a struct lie in a block of the arena, and a copy of an
aggregate shares its blocks.  An assignment copies the block at every level of its path and writes
into the copies alone; every value that was held before is still held.  The main result is
`foldComptimeAssign_lawful`, about every place and every value.
-/

namespace ModernC.Comptime

open Eval (ComptimeValue ComptimeFold)
open Framework Framework.GuardedRun Framework.TreeAccess
open Syntax (Expr TypeExpr Ident Stmt)

/-! ## Stored values -/

/-- A value, with its items or fields in a block. -/
inductive StoredValue where
  | scalar (value : ComptimeValue)
  | array (block : ℕ)
  | struct (block : ℕ)

inductive Block where
  | items (values : List StoredValue)
  | fields (values : List (String × StoredValue))

/-- Write a value to a position of a block. -/
def Block.write (index : ℕ) (value : StoredValue) : Block → Block
  | .items values => .items (values.set index value)
  | .fields values => .fields (values.modify index fun field => (field.1, value))

/-- The blocks in the order of their allocation. -/
abbrev Memory : Type := List Block

def isAggregate : ComptimeValue → Bool
  | .array _ | .struct _ => true
  | _ => false

/-- The memory holds a value, in certain blocks. -/
inductive Holds (memory : Memory) (within : ℕ → Prop) : StoredValue → ComptimeValue → Prop
  | scalar {value : ComptimeValue} (h : isAggregate value = false) :
    Holds memory within (.scalar value) value
  | array {block : ℕ} {stored : List StoredValue} {items : List ComptimeValue}
    (hwithin : within block) (hblock : memory[block]? = some (.items stored))
    (hlength : stored.length = items.length)
    (hitems : ∀ (i : ℕ) s v, stored[i]? = some s → items[i]? = some v → Holds memory within s v) :
    Holds memory within (.array block) (.array items)
  | struct {block : ℕ} {stored : List (String × StoredValue)}
    {fields : List (String × ComptimeValue)} (hwithin : within block)
    (hblock : memory[block]? = some (.fields stored))
    (hnames : stored.map Prod.fst = fields.map Prod.fst)
    (hfields : ∀ (i : ℕ) s v, stored[i]? = some s → fields[i]? = some v →
      Holds memory within s.2 v.2) :
    Holds memory within (.struct block) (.struct fields)

/-- A value is held as long as its blocks are as they were. -/
lemma Holds.mono {memory memory' : Memory} {within within' : ℕ → Prop} {s : StoredValue}
    {v : ComptimeValue} (h : Holds memory within s v) (hwithin : ∀ b, within b → within' b)
    (hsame : ∀ b, within b → memory'[b]? = memory[b]?) : Holds memory' within' s v := by
  induction h with
  | scalar hscalar => exact .scalar hscalar
  | array hblock hget hlength _ ih =>
    exact .array (hwithin _ hblock) ((hsame _ hblock).trans hget) hlength ih
  | struct hblock hget hnames _ ih =>
    exact .struct (hwithin _ hblock) ((hsame _ hblock).trans hget) hnames ih

/-! ## The update of a path -/

inductive StoredFold where
  | value (value : StoredValue)
  | trap
  | unknown

/-- The memory holds what a fold gave. -/
def HoldsFold (memory : Memory) (within : ℕ → Prop) : StoredFold → ComptimeFold → Prop
  | .value s, .value v => Holds memory within s v
  | .trap, .trap => True
  | .unknown, .unknown => True
  | _, _ => False

def storedStop : ComptimeFold → StoredFold
  | .trap => .trap
  | _ => .unknown

/-- Copy a block, update what lies at one of its positions, and write that into the copy. -/
def updateCopy (memory : Memory) (block : Block) (index : ℕ) (whole : ℕ → StoredValue)
    (updateChild : Memory → Run (Memory × StoredFold)) : Run (Memory × StoredFold) := do
  let (updated, fold) ← updateChild (memory ++ [block])
  match fold with
  | .value value =>
    pure (updated.modify memory.length (Block.write index value), .value (whole memory.length))
  | stop => pure (updated, stop)

/-- `foldComptimeUpdatePath` on the blocks.  An index is folded on the values that they hold. -/
def storedUpdatePath (F : Folders) (scope : ComptimeScope) (replacement : StoredValue) :
    Memory → StoredValue → List AssignPathSegment → Run (Memory × StoredFold)
  | memory, _, [] => pure (memory, .value replacement)
  | memory, .struct block, .member name :: path =>
    match memory[block]? with
    | some (.fields fields) =>
      match (fields.map Prod.fst).findIdx? (· = name) with
      | some i =>
        match fields[i]? with
        | some field =>
          updateCopy memory (.fields fields) i .struct fun memory =>
            storedUpdatePath F scope replacement memory field.2 path
        | none => pure (memory, .unknown)
      -- the loop over the copy finds no field
      | none => pure (memory ++ [.fields fields], .unknown)
    | _ => pure (memory, .unknown)
  | memory, .array block, .index expr :: path =>
    match memory[block]? with
    | some (.items items) => do
      match ← F.foldComptimeExpr scope expr with
      | .value indexValue =>
        match indexNumber indexValue with
        | .error stop => pure (memory, storedStop stop)
        | .ok index =>
          match if index < 0 then none else items[index.toNat]? with
          | some item =>
            updateCopy memory (.items items) index.toNat .array fun memory =>
              storedUpdatePath F scope replacement memory item path
          | none => pure (memory, .trap)
      | stop => pure (memory, storedStop stop)
    | _ => pure (memory, .unknown)
  | memory, _, _ => pure (memory, .unknown)

/-- The old blocks are as they were, and the result is held in some of them and in new ones. -/
structure Updates (memory : Memory) (within : ℕ → Prop) (result : Memory × StoredFold)
    (fold : ComptimeFold) : Prop where
  length_le : memory.length ≤ result.1.length
  same : ∀ b < memory.length, result.1[b]? = memory[b]?
  holds : HoldsFold result.1
    (fun b => b < result.1.length ∧ (within b ∨ memory.length ≤ b)) result.2 fold

section Update

variable {memory : Memory} {within : ℕ → Prop} {fold : ComptimeFold}

lemma updates_trap : Updates memory within (memory, .trap) .trap :=
  ⟨le_rfl, fun _ _ => rfl, trivial⟩

lemma updates_unknown : Updates memory within (memory, .unknown) .unknown :=
  ⟨le_rfl, fun _ _ => rfl, trivial⟩

variable {block : Block} {s : StoredValue} {v : ComptimeValue}
  {fields : List (String × ComptimeValue)} {name : String} {i : ℕ}

lemma updates_unknown_append :
    Updates memory within (memory ++ [block], .unknown) .unknown :=
  ⟨by simp, fun _ hb => List.getElem?_append_left hb, trivial⟩

/-- An index that is no number has no value. -/
lemma indexNumber_error {value : ComptimeValue} {stop : ComptimeFold}
    (h : indexNumber value = .error stop) : stop = .trap ∨ stop = .unknown := by
  unfold indexNumber at h
  split at h
  · cases h
  · split_ifs at h
    cases h
    exact .inl rfl
  · cases h
    exact .inr rfl

lemma updates_storedStop {stop : ComptimeFold} (h : stop = .trap ∨ stop = .unknown) :
    Updates memory within (memory, storedStop stop) stop := by
  rcases h with rfl | rfl
  · exact updates_trap
  · exact updates_unknown

/-- A fold whose value is made part of another one. -/
def mapFold (next : ComptimeValue → ComptimeValue) : ComptimeFold → ComptimeFold
  | .value value => .value (next value)
  | stop => stop

lemma onValue_pure_done {run : Run ComptimeFold} {next : ComptimeValue → ComptimeValue}
    (h : (onValue run fun value => pure (.value (next value))).ending = .done fold) :
    ∃ child, run.ending = .done child ∧ fold = mapFold next child := by
  obtain ⟨child, hchild, h⟩ := bind_done_iff.mp h
  refine ⟨child, hchild, ?_⟩
  cases child <;>
    simp only [ending_pure, Ending.done.injEq] at h <;>
    exact h.symm

/-- The blocks that are there before a copy is made stay apart from the copy. -/
lemma holds_in_copy (hwithin : ∀ b, within b → b < memory.length) (h : Holds memory within s v) :
    Holds (memory ++ [block]) within s v := by
  refine h.mono (fun _ hb => hb) fun b hb => ?_
  rw [List.getElem?_append_left (hwithin b hb)]

/-- **Updating a copy updates the whole**, if a block like the copy with a new child holds it. -/
lemma updateCopy_updates {index : ℕ} {whole : ℕ → StoredValue}
    {updateChild : Memory → Run (Memory × StoredFold)} {next : ComptimeValue → ComptimeValue}
    {child : ComptimeFold} {result : Memory × StoredFold}
    (hwithin : ∀ b, within b → b < memory.length)
    (hend : (updateChild (memory ++ [block])).ending = .done result)
    (hchild : Updates (memory ++ [block]) within result child)
    (hwhole : ∀ (memory' : Memory) (within' : ℕ → Prop) s v, within' memory.length →
      memory'[memory.length]? = some (block.write index s) → (∀ b, within b → within' b) →
        (∀ b, within b → memory'[b]? = memory[b]?) → Holds memory' within' s v →
          Holds memory' within' (whole memory.length) (next v)) :
    ∃ result, (updateCopy memory block index whole updateChild).ending = .done result ∧
      Updates memory within result (mapFold next child) := by
  obtain ⟨updated, childFold⟩ := result
  obtain ⟨hlength, hsame, hholds⟩ := hchild
  simp only [List.length_append, List.length_singleton] at hlength hsame hholds
  have hold : ∀ b < memory.length, updated[b]? = memory[b]? := by
    intro b hb
    rw [hsame b (by omega), List.getElem?_append_left hb]
  cases childFold with
  | value s =>
    cases child with
    | value v =>
      have hmodify : ∀ b, b ≠ memory.length →
          (updated.modify memory.length (Block.write index s))[b]? = updated[b]? := by
        intro b hb
        rw [List.getElem?_modify]
        simp [hb.symm]
      have hcopy : (updated.modify memory.length (Block.write index s))[memory.length]? =
          some (block.write index s) := by
        rw [List.getElem?_modify, hsame _ (by omega), List.getElem?_append_right le_rfl]
        simp
      refine ⟨_, ending_bind_of_done hend, ?_, ?_, ?_⟩
      · simp only [List.length_modify]
        omega
      · intro b hb
        exact (hmodify b (by omega)).trans (hold b hb)
      · refine hwhole _ _ s v ⟨by simp only [List.length_modify]; omega, .inr le_rfl⟩ hcopy ?_ ?_ ?_
        · intro b hb
          have := hwithin b hb
          exact ⟨by simp only [List.length_modify]; omega, .inl hb⟩
        · intro b hb
          have := hwithin b hb
          exact (hmodify b (by omega)).trans (hold b this)
        · have hs : Holds updated _ s v := hholds
          refine hs.mono ?_ ?_
          · rintro b ⟨hlt, hb⟩
            simp only [List.length_modify]
            exact ⟨hlt, hb.imp_right fun h => by omega⟩
          · rintro b ⟨hlt, hb⟩
            refine hmodify b ?_
            rcases hb with hb | hb
            · have := hwithin b hb
              omega
            · omega
    | trap | unknown => exact absurd hholds id
  | trap =>
    cases child with
    | trap =>
      exact ⟨_, ending_bind_of_done hend, by simp only; omega, hold, trivial⟩
    | value v | unknown => exact absurd hholds id
  | unknown =>
    cases child with
    | unknown =>
      exact ⟨_, ending_bind_of_done hend, by simp only; omega, hold, trivial⟩
    | value v | trap => exact absurd hholds id

/-- The position of the first field of a name. -/
lemma field_at_findIdx (h : (fields.map Prod.fst).findIdx? (· = name) = some i) :
    ∃ inner, fields[i]? = some (name, inner) ∧ fields.lookup name = some inner ∧
      ∀ v, setField name v fields = fields.set i (name, v) := by
  induction fields generalizing i with
  | nil => simp at h
  | cons field rest ih =>
    obtain ⟨fieldName, old⟩ := field
    rw [List.map_cons, List.findIdx?_cons] at h
    by_cases hname : fieldName = name
    · subst hname
      simp only [decide_true, if_true, Option.some.injEq] at h
      subst h
      exact ⟨old, rfl, by simp, fun v => by simp [setField]⟩
    · simp only [hname, decide_false, Bool.false_eq_true, if_false, Option.map_eq_some_iff] at h
      obtain ⟨j, hj, rfl⟩ := h
      obtain ⟨inner, hget, hlookup, hset⟩ := ih hj
      have hbeq : (name == fieldName) = false := by simpa using fun h => hname h.symm
      refine ⟨inner, hget, ?_, fun v => ?_⟩
      · simp only [List.lookup_cons, hbeq, hlookup]
      · simp only [setField, hname, if_false, hset, List.set_cons_succ]

lemma lookup_of_findIdx_none
    (h : (fields.map Prod.fst).findIdx? (· = name) = none) : fields.lookup name = none := by
  rw [List.lookup_eq_none_iff]
  intro field hfield
  have hne := List.findIdx?_eq_none_iff.mp h field.1 (List.mem_map_of_mem hfield)
  simpa using fun heq => (by simpa using hne : field.1 ≠ name) heq.symm

lemma getElem?_of_map_eq {α β : Type} {stored : List (String × α)} {fields : List (String × β)}
    (h : stored.map Prod.fst = fields.map Prod.fst) {field : String × β}
    (hfield : fields[i]? = some field) : ∃ found, stored[i]? = some found := by
  have hlength : stored.length = fields.length := by simpa using congrArg List.length h
  obtain ⟨hlt, -⟩ := List.getElem?_eq_some_iff.mp hfield
  exact ⟨_, List.getElem?_eq_getElem (by omega)⟩

/-- A copy of a held array with one item written. -/
lemma holds_array_write {stored : List StoredValue} {items : List ComptimeValue} {copy : ℕ}
      (hwithin : within copy) (hblock : memory[copy]? = some (.items (stored.set i s)))
    (hlength : stored.length = items.length)
    (hitems : ∀ (j : ℕ) s v, stored[j]? = some s → items[j]? = some v → Holds memory within s v)
    (hs : Holds memory within s v) :
    Holds memory within (.array copy) (.array (items.set i v)) := by
  refine .array hwithin hblock (by simpa using hlength) fun j s' v' hs' hv' => ?_
  by_cases hij : i = j
  · subst hij
    rw [List.getElem?_set_self'] at hs' hv'
    obtain ⟨-, -, rfl⟩ := Option.map_eq_some_iff.mp hs'
    obtain ⟨-, -, rfl⟩ := Option.map_eq_some_iff.mp hv'
    exact hs
  · rw [List.getElem?_set_ne hij] at hs' hv'
    exact hitems j s' v' hs' hv'

/-- A copy of a held struct with one field written. -/
lemma holds_struct_write {stored : List (String × StoredValue)} {copy : ℕ} {inner : ComptimeValue}
      (hwithin : within copy)
    (hblock : memory[copy]? = some (.fields (stored.modify i fun field => (field.1, s))))
    (hnames : stored.map Prod.fst = fields.map Prod.fst)
    (hfields : ∀ (j : ℕ) s v, stored[j]? = some s → fields[j]? = some v →
      Holds memory within s.2 v.2)
    (hname : fields[i]? = some (name, inner)) (hs : Holds memory within s v) :
    Holds memory within (.struct copy) (.struct (fields.set i (name, v))) := by
  refine .struct hwithin hblock ?_ fun j s' v' hs' hv' => ?_
  · have hmodify : (stored.modify i fun field => (field.1, s)).map Prod.fst =
        stored.map Prod.fst := by
      refine List.ext_getElem? fun j => ?_
      simp only [List.getElem?_map, List.getElem?_modify]
      cases stored[j]? with
      | none => rfl
      | some field => by_cases hij : i = j <;> simp [hij]
    have hset : (fields.set i (name, v)).map Prod.fst = fields.map Prod.fst := by
      refine List.ext_getElem? fun j => ?_
      by_cases hij : i = j
      · subst hij
        simp [List.getElem?_set_self', hname]
      · simp [List.getElem?_set_ne hij]
    rw [hmodify, hset, hnames]
  · by_cases hij : i = j
    · subst hij
      rw [List.getElem?_set_self', hname] at hv'
      obtain ⟨field, -, rfl⟩ : ∃ field, stored[i]? = some field ∧ (field.1, s) = s' := by
        simpa [List.getElem?_modify] using hs'
      cases hv'
      exact hs
    · rw [List.getElem?_set_ne hij] at hv'
      exact hfields j s' v' (by simpa [List.getElem?_modify, hij] using hs') hv'

variable {F : Folders} {scope : ComptimeScope} {replacement : StoredValue} {w : ComptimeValue}

/-- **The update in storage gives what the update of the values gives**, and leaves the blocks that
were there before as they were. -/
theorem storedUpdatePath_updates (path : List AssignPathSegment)
    (hwithin : ∀ b, within b → b < memory.length) (hs : Holds memory within s v)
    (hr : Holds memory within replacement w)
    (h : (foldComptimeUpdatePath F scope w v path).ending = .done fold) :
    ∃ result, (storedUpdatePath F scope replacement memory s path).ending = .done result ∧
      Updates memory within result fold := by
  induction path generalizing memory s v fold with
  | nil =>
    simp only [foldComptimeUpdatePath, ending_pure, Ending.done.injEq] at h
    subst h
    refine ⟨(memory, .value replacement), rfl, le_rfl, fun _ _ => rfl, ?_⟩
    exact hr.mono (fun b hb => ⟨hwithin b hb, .inl hb⟩) fun _ _ => rfl
  | cons segment path ih =>
    have hlt : ∀ block : Block, ∀ b, within b → b < (memory ++ [block]).length := by
      intro block b hb
      have := hwithin b hb
      simp only [List.length_append, List.length_singleton]
      omega
    cases segment with
    -- the slots of the level are copied behind the memory, and the copy is written
    | member name =>
      cases hs with
      | scalar hscalar =>
        cases v with
        | array items | struct fields => cases hscalar
        | _ =>
          simp only [foldComptimeUpdatePath, ending_pure, Ending.done.injEq] at h
          exact h ▸ ⟨_, rfl, updates_unknown⟩
      | array =>
        simp only [foldComptimeUpdatePath, ending_pure, Ending.done.injEq] at h
        exact h ▸ ⟨_, rfl, updates_unknown⟩
      | @struct block stored fields hblock hget hnames hfields =>
        cases hfind : (fields.map Prod.fst).findIdx? (· = name) with
        | none =>
          simp only [foldComptimeUpdatePath, lookup_of_findIdx_none hfind, ending_pure,
            Ending.done.injEq] at h
          subst h
          refine ⟨(memory ++ [.fields stored], .unknown), ?_, updates_unknown_append⟩
          simp only [storedUpdatePath, hget, hnames, hfind, ending_pure]
        | some i =>
          obtain ⟨inner, hfield, hlookup, hset⟩ := field_at_findIdx hfind
          obtain ⟨field, hstored⟩ : ∃ field, stored[i]? = some field :=
            getElem?_of_map_eq hnames hfield
          simp only [foldComptimeUpdatePath, hlookup] at h
          obtain ⟨child, hchild, rfl⟩ := onValue_pure_done h
          obtain ⟨result, hend, hupdates⟩ := ih (hlt (.fields stored))
            (holds_in_copy hwithin (hfields i field _ hstored hfield)) (holds_in_copy hwithin hr)
            hchild
          simp only [storedUpdatePath, hget, hnames, hfind, hstored]
          refine updateCopy_updates hwithin hend hupdates ?_
          intro memory' within' s' v' hcopy hwritten hsub hsame hs'
          rw [hset]
          refine holds_struct_write hcopy hwritten hnames (fun j s v hj hj' => ?_) hfield hs'
          exact (hfields j s v hj hj').mono hsub hsame
    | index expr =>
      cases hs with
      | scalar hscalar =>
        cases v with
        | array items | struct fields => cases hscalar
        | _ =>
          simp only [foldComptimeUpdatePath, ending_pure, Ending.done.injEq] at h
          exact h ▸ ⟨_, rfl, updates_unknown⟩
      | struct =>
        simp only [foldComptimeUpdatePath, ending_pure, Ending.done.injEq] at h
        exact h ▸ ⟨_, rfl, updates_unknown⟩
      | @array block stored items hblock hget hlength hitems =>
        simp only [foldComptimeUpdatePath] at h
        obtain ⟨indexFold, hindex, h⟩ := bind_done_iff.mp h
        simp only [storedUpdatePath, hget]
        rw [ending_bind_of_done hindex]
        cases indexFold with
        | trap =>
          cases h
          exact ⟨_, rfl, updates_trap⟩
        | unknown =>
          cases h
          exact ⟨_, rfl, updates_unknown⟩
        | value indexValue =>
          simp only at h ⊢
          cases hnumber : indexNumber indexValue with
          | error stop =>
            simp only [hnumber, ending_pure, Ending.done.injEq] at h
            subst h
            exact ⟨_, rfl, updates_storedStop (indexNumber_error hnumber)⟩
          | ok index =>
            simp only [hnumber] at h ⊢
            by_cases hneg : index < 0
            · rw [elementAt_trap (.inl hneg)] at h
              cases h
              simp only [if_pos hneg]
              exact ⟨_, rfl, updates_trap⟩
            · simp only [if_neg hneg]
              cases hitem : items[index.toNat]? with
              | none =>
                have hstored : stored[index.toNat]? = none := by
                  rw [List.getElem?_eq_none_iff] at hitem ⊢
                  omega
                rw [elementAt_trap (.inr (by rw [List.getElem?_eq_none_iff] at hitem; omega))] at h
                cases h
                rw [hstored]
                exact ⟨_, rfl, updates_trap⟩
              | some inner =>
                obtain ⟨item, hstored⟩ : ∃ item, stored[index.toNat]? = some item := by
                  obtain ⟨hlt, -⟩ := List.getElem?_eq_some_iff.mp hitem
                  exact ⟨_, List.getElem?_eq_getElem (by omega)⟩
                have helement : elementAt items index = .value inner :=
                  elementAt_value_iff.mpr ⟨index.toNat, by omega, hitem⟩
                rw [helement] at h
                obtain ⟨child, hchild, rfl⟩ := onValue_pure_done h
                obtain ⟨result, hend, hupdates⟩ := ih (hlt (.items stored))
                  (holds_in_copy hwithin (hitems _ item _ hstored hitem))
                  (holds_in_copy hwithin hr) hchild
                simp only [hstored]
                refine updateCopy_updates hwithin hend hupdates ?_
                intro memory' within' s' v' hcopy hwritten hsub hsame hs'
                refine holds_array_write hcopy hwritten hlength (fun j s v hj hj' => ?_) hs'
                exact (hitems j s v hj hj').mono hsub hsame

end Update

/-! ## Assignments -/

/-- The bindings of a scope as they are stored. -/
structure StoredScope where
  memory : Memory
  bindings : String → Option StoredValue

def storedUpdateTarget (F : Folders) (scope : ComptimeScope) (replacement : StoredValue)
    (memory : Memory) (current : StoredValue) (target : Expr) : Run (Memory × StoredFold) :=
  match appendAssignPath target with
  | some path => storedUpdatePath F scope replacement memory current path
  | none => pure (memory, .unknown)

/-- `foldComptimeAssign` in storage, behind the fold of the assigned value. -/
def foldStoredAssign (F : Folders) (scope : ComptimeScope) (stored : StoredScope) (target : Expr)
    (v : StoredValue) : Run (StoredScope × AssignResult) :=
  match comptimeAssignRootName target with
  | none => pure (stored, .unknown)
  | some rootName =>
    match stored.bindings rootName with
    | none => pure (stored, .unknown)
    | some root => do
      let (memory, fold) ← storedUpdateTarget F scope v stored.memory root target
      match fold with
      | .value updated =>
        pure ({ memory, bindings := put stored.bindings rootName updated }, .ok)
      | .trap => pure ({ stored with memory }, .trap)
      | .unknown => pure ({ stored with memory }, .unknown)

def Allocated (memory : Memory) (block : ℕ) : Prop := block < memory.length

/-- The storage holds the value of each name. -/
structure HoldsScope (stored : StoredScope) (scope : ComptimeScope) : Prop where
  bound : ∀ name, (stored.bindings name).isSome = (scope.bindings name).isSome
  held : ∀ name s v, stored.bindings name = some s → scope.bindings name = some v →
    Holds stored.memory (Allocated stored.memory) s v

/-- Whatever one memory holds, another one holds as well. -/
def KeepsHeld (memory memory' : Memory) : Prop :=
  ∀ s v, Holds memory (Allocated memory) s v → Holds memory' (Allocated memory') s v

lemma KeepsHeld.refl (memory : Memory) : KeepsHeld memory memory := fun _ _ h => h

section Assign

variable {memory : Memory} {result : Memory × StoredFold} {fold : ComptimeFold}

lemma Updates.keepsHeld (h : Updates memory (Allocated memory) result fold) :
    KeepsHeld memory result.1 :=
  fun _ _ hs => hs.mono (fun b (hb : b < _) => lt_of_lt_of_le hb h.length_le) h.same

variable {F : Folders} {scope scope' : ComptimeScope} {target valueExpr : Expr}
  {stored : StoredScope} {s : StoredValue} {w : ComptimeValue}

lemma storedUpdateTarget_updates {current : StoredValue} {v : ComptimeValue}
    (hs : Holds memory (Allocated memory) current v) (hr : Holds memory (Allocated memory) s w)
    (h : (foldComptimeUpdateTarget F scope v target w).ending = .done fold) :
    ∃ result, (storedUpdateTarget F scope s memory current target).ending = .done result ∧
      Updates memory (Allocated memory) result fold := by
  unfold foldComptimeUpdateTarget at h
  unfold storedUpdateTarget
  cases hpath : appendAssignPath target with
  | some path =>
    simp only [hpath] at h ⊢
    exact storedUpdatePath_updates path (fun _ hb => hb) hs hr h
  | none =>
    simp only [hpath] at h ⊢
    cases h
    exact ⟨_, rfl, updates_unknown⟩

lemma HoldsScope.keep (h : HoldsScope stored scope) {memory' : Memory}
    (hkeep : KeepsHeld stored.memory memory') :
    HoldsScope { stored with memory := memory' } scope where
  bound := h.bound
  held := fun name s v hs hv => hkeep s v (h.held name s v hs hv)

/-- The storage of a scope with one more binding. -/
lemma HoldsScope.bind (h : HoldsScope stored scope) (name : String)
    (hs : Holds stored.memory (Allocated stored.memory) s w) :
    HoldsScope { stored with bindings := put stored.bindings name s } (scope.bind name w) where
  bound := by
    intro other
    simp only [bindings_bind, put]
    split_ifs
    · rfl
    · exact h.bound other
  held := by
    intro other s' v hs' hv
    simp only [bindings_bind, put] at hs' hv
    split_ifs at hs' hv
    · cases hs'
      cases hv
      exact hs
    · exact h.held other s' v hs' hv

/-- **An assignment in storage does what the assignment does**, and keeps all that was held. -/
theorem foldStoredAssign_holds {result : AssignResult} {v : ComptimeValue}
    (hstored : HoldsScope stored scope) (hs : Holds stored.memory (Allocated stored.memory) s v)
    (hv : (foldAssigned F scope target valueExpr).ending = .done (.value v))
    (h : (foldComptimeAssign F scope target valueExpr).ending = .done (scope', result)) :
    ∃ stored', (foldStoredAssign F scope stored target s).ending = .done (stored', result) ∧
      HoldsScope stored' scope' ∧ KeepsHeld stored.memory stored'.memory := by
  have hassign := (ending_bind_of_done hv).symm.trans h
  simp only at hassign
  unfold foldStoredAssign
  cases hname : comptimeAssignRootName target with
  | none =>
    simp only [hname, ending_pure, Ending.done.injEq, Prod.mk.injEq] at hassign
    obtain ⟨rfl, rfl⟩ := hassign
    exact ⟨stored, rfl, hstored, .refl _⟩
  | some rootName =>
    simp only [hname] at hassign ⊢
    have hbound := hstored.bound rootName
    cases hroot : scope.bindings rootName with
    | none =>
      simp only [hroot, ending_pure, Ending.done.injEq, Prod.mk.injEq] at hassign
      obtain ⟨rfl, rfl⟩ := hassign
      rw [hroot, Option.isSome_none, Option.isSome_eq_false_iff,
        Option.isNone_iff_eq_none] at hbound
      rw [hbound]
      exact ⟨stored, rfl, hstored, .refl _⟩
    | some root =>
      rw [hroot, Option.isSome_some, Option.isSome_iff_exists] at hbound
      obtain ⟨current, hcurrent⟩ := hbound
      simp only [hroot] at hassign
      obtain ⟨fold, hfold, hassign⟩ := bind_done_iff.mp hassign
      obtain ⟨⟨memory', fold'⟩, hend, hupdates⟩ := storedUpdateTarget_updates
        (hstored.held rootName current root hcurrent hroot) hs hfold
      have hkeep := hupdates.keepsHeld
      have hheld := hupdates.holds
      simp only [hcurrent]
      rw [ending_bind_of_done hend]
      cases fold' with
      | value s' =>
        cases fold with
        | value updated =>
          simp only [ending_pure, Ending.done.injEq, Prod.mk.injEq] at hassign
          obtain ⟨rfl, rfl⟩ := hassign
          have hs' : Holds memory' (Allocated memory') s' updated :=
            Holds.mono hheld (fun _ hb => hb.1) fun _ _ => rfl
          exact ⟨_, rfl, (hstored.keep hkeep).bind rootName hs', hkeep⟩
        | trap | unknown => exact absurd hheld id
      | trap =>
        cases fold with
        | trap =>
          cases hassign
          exact ⟨_, rfl, hstored.keep hkeep, hkeep⟩
        | value updated | unknown => exact absurd hheld id
      | unknown =>
        cases fold with
        | unknown =>
          cases hassign
          exact ⟨_, rfl, hstored.keep hkeep, hkeep⟩
        | value updated | trap => exact absurd hheld id

end Assign

/-- **Assignment is a lawful update.**  It succeeds on the places of a scope; later folds then read
the new value at the place and what they read before beside it, and every other name is bound as
before.  Out of bounds it traps, and where it does not succeed it leaves the scope as it is.  In
storage it does the same, and all that was held before is still held. -/
theorem foldComptimeAssign_lawful (floats : FloatHost) (scope : ComptimeScope)
    (target valueExpr : Expr) {n : ℕ} (hn : foldingDepth scope (sizeOf target) ≤ n) :
    (∀ v root old steps, Assigns floats n scope target valueExpr v →
      PlaceAt floats scope target root steps → scope.bindings root = some old →
        (valueTree.slotAt old steps).isSome →
          ∃ scope', (foldComptimeAssign (folders floats n) scope target valueExpr).ending =
            .done (scope', .ok)) ∧
    (∀ scope', (foldComptimeAssign (folders floats n) scope target valueExpr).ending =
        .done (scope', .ok) →
      ∃ v root steps updated, Assigns floats n scope target valueExpr v ∧
        PlaceAt floats scope target root steps ∧ scope' = scope.bind root updated ∧
        (∀ name, name ≠ root → scope'.bindings name = scope.bindings name) ∧
        ∀ later : ComptimeScope, later.bindings root = scope'.bindings root →
          ReadsAssigned floats scope later root steps v) ∧
    (∀ v, Assigns floats n scope target valueExpr v → IndexesOutOfBounds floats scope target →
      (foldComptimeAssign (folders floats n) scope target valueExpr).ending =
        .done (scope, .trap)) ∧
    (∀ scope' result, (foldComptimeAssign (folders floats n) scope target valueExpr).ending =
      .done (scope', result) → result ≠ .ok → scope' = scope) ∧
    ∀ stored s v, HoldsScope stored scope → Holds stored.memory (Allocated stored.memory) s v →
      Assigns floats n scope target valueExpr v → ∀ scope' result,
        (foldComptimeAssign (folders floats n) scope target valueExpr).ending =
          .done (scope', result) →
        ∃ stored', (foldStoredAssign (folders floats n) scope stored target s).ending =
            .done (stored', result) ∧
          HoldsScope stored' scope' ∧ KeepsHeld stored.memory stored'.memory := by
  refine ⟨?_, ?_, ?_, ?_, ?_⟩
  · intro v root old steps hv hplace hroot hslot
    rw [← valueTree.write_isSome (w := v), Option.isSome_iff_exists] at hslot
    obtain ⟨updated, hwrite⟩ := hslot
    exact ⟨_, (foldComptimeAssign_ok_iff hn).mpr
      ⟨v, root, old, steps, updated, hv, hplace, hroot, hwrite, rfl⟩⟩
  · intro scope' h
    obtain ⟨v, root, old, steps, updated, hv, hplace, hroot, hwrite, rfl⟩ :=
      (foldComptimeAssign_ok_iff hn).mp h
    refine ⟨v, root, steps, updated, hv, hplace, rfl, ?_, ?_⟩
    · intro name hname
      exact put_of_ne hname
    · intro later hlater
      exact readsAssigned_of_write hroot hwrite (hlater.trans (put_self _ _ _))
  · intro v hv hbounds
    exact foldComptimeAssign_trap hn hv hbounds
  · intro scope' result h hresult
    exact foldComptimeAssign_stop h hresult
  · intro stored s v hstored hs hv scope' result h
    exact foldStoredAssign_holds hstored hs hv h

/-- `a`, an array of one item. -/
def oneItem : ComptimeScope := ({} : ComptimeScope).bind "a" (.array [.int 1])

/-- `a[3]`. -/
def itemPastEnd : Expr := .index (.ident { text := "a" }) (.intLiteral "3")

lemma indexesOutOfBounds_itemPastEnd (floats : FloatHost) :
    IndexesOutOfBounds floats oneItem itemPastEnd := by
  have hindex : FoldsToValue floats oneItem (.intLiteral "3") (.int 3) :=
    foldsTo_of_succ fun n _ => rfl
  exact ⟨"a", .array [.int 1], _, rfl, rfl, rfl, [], _, [], [], [.int 1], .int 3, rfl, .nil,
    rfl, hindex, .inr (by decide)⟩

lemma assigns_itemPastEnd (floats : FloatHost) (n : ℕ) :
    Assigns floats (n + 1) oneItem itemPastEnd (.intLiteral "5") (.int 5) := rfl

/-- `a[3] = 5` traps and leaves `a` as it is. -/
theorem foldComptimeAssign_lawful_past_end :
    (foldComptimeAssign (folders default (foldingDepth oneItem (sizeOf itemPastEnd) + 1)) oneItem
      itemPastEnd (.intLiteral "5")).ending = .done (oneItem, .trap) :=
  (foldComptimeAssign_lawful default oneItem itemPastEnd (.intLiteral "5")
    (Nat.le_succ _)).2.2.1 (.int 5) (assigns_itemPastEnd default _)
    (indexesOutOfBounds_itemPastEnd default)

end ModernC.Comptime
