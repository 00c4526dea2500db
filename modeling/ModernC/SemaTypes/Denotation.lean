import ModernC.SemaTypes.Interning

/-!
# What a type id denotes

The tree behind an id: its constructor, with the trees behind the ids and the runs it is built
out of.  Every id of a table denotes a tree, the same one after any further calls, and no other
id denotes that tree.
-/

namespace ModernC.SemaTypes

/-! ## Nodes -/

namespace Node

variable {ι κ ι' κ' : Type} {f f' : ι → Option ι'} {g g' : κ → Option κ'} {ty : Node ι κ}

lemma traverse_congr (hf : ∀ c ∈ ty.children, f c = f' c) (hg : ∀ r ∈ ty.runs, g r = g' r) :
    ty.traverse f g = ty.traverse f' g' := by
  cases ty <;> simp_all [traverse, children, runs]

lemma traverse_isSome (hf : ∀ c ∈ ty.children, ∃ s, f c = some s)
    (hg : ∀ r ∈ ty.runs, ∃ s, g r = some s) : ∃ node, ty.traverse f g = some node := by
  cases ty with
  | result ok err =>
    obtain ⟨s, hs⟩ := hf ok (by simp [children])
    obtain ⟨s', hs'⟩ := hf err (by simp [children])
    exact ⟨.result s s', by simp [traverse, hs, hs']⟩
  | signature kind params ret =>
    obtain ⟨s, hs⟩ := hg params (by simp [runs])
    obtain ⟨s', hs'⟩ := hf ret (by simp [children])
    exact ⟨.signature kind s s', by simp [traverse, hs, hs']⟩
  | generic base args =>
    obtain ⟨s, hs⟩ := hg args (by simp [runs])
    exact ⟨.generic base s, by simp [traverse, hs]⟩
  | pointer _ _ _ child | slice _ child | array _ child | optional child | qualified _ child =>
    obtain ⟨s, hs⟩ := hf child (by simp [children])
    exact ⟨_, by simp only [traverse, hs, Option.map_some]; rfl⟩
  | _ => exact ⟨_, rfl⟩

/-- Replaced components can be put back. -/
lemma traverse_back {back : ι' → ι} {back' : κ' → κ} {node : Node ι' κ'}
    (hf : ∀ c ∈ ty.children, ∀ s, f c = some s → back s = c)
    (hg : ∀ r ∈ ty.runs, ∀ s, g r = some s → back' s = r) (h : ty.traverse f g = some node) :
    node.traverse (fun s => some (back s)) (fun s => some (back' s)) = some ty := by
  cases ty with
  | result ok err =>
    simp only [traverse, Option.bind_eq_bind, Option.bind_eq_some_iff, Option.some.injEq] at h
    obtain ⟨s, hs, s', hs', rfl⟩ := h
    simp [traverse, hf ok (by simp [children]) s hs, hf err (by simp [children]) s' hs']
  | signature kind params ret =>
    simp only [traverse, Option.bind_eq_bind, Option.bind_eq_some_iff, Option.some.injEq] at h
    obtain ⟨s, hs, s', hs', rfl⟩ := h
    simp [traverse, hg params (by simp [runs]) s hs, hf ret (by simp [children]) s' hs']
  | generic base args =>
    obtain ⟨s, hs, rfl⟩ := Option.map_eq_some_iff.mp h
    simp [traverse, hg args (by simp [runs]) s hs]
  | pointer _ _ _ child | slice _ child | array _ child | optional child | qualified _ child =>
    obtain ⟨s, hs, rfl⟩ := Option.map_eq_some_iff.mp h
    simp [traverse, hf child (by simp [children]) s hs]
  | _ =>
    obtain rfl := Option.some.inj h
    rfl

end Node

/-- A partial function that is injective where it is asked to be can be undone there. -/
lemma exists_back {α β : Type} [Nonempty α] {f : α → Option β} {P : α → Prop}
    (h : ∀ a b s, P a → P b → f a = some s → f b = some s → a = b) :
    ∃ back : β → α, ∀ a s, P a → f a = some s → back s = a := by
  classical
  refine ⟨fun s => if hs : ∃ a, P a ∧ f a = some s then hs.choose else Classical.arbitrary α, ?_⟩
  intro a s ha hs
  have hex : ∃ a, P a ∧ f a = some s := ⟨a, ha, hs⟩
  exact (dif_pos hex).trans (h _ _ s hex.choose_spec.1 ha hex.choose_spec.2 hs)

/-- The elements of a list have their images in the same places. -/
lemma mapM_eq_some_iff {α β : Type} {f : α → Option β} {l : List α} {images : List β} :
    l.mapM f = some images ↔ List.Forall₂ (fun a s => f a = some s) l images := by
  induction l generalizing images with
  | nil => cases images <;> simp
  | cons a l ih =>
    rw [List.mapM_cons]
    cases images with
    | nil => simp [Option.bind_eq_some_iff]
    | cons s images => simp [← ih, Option.bind_eq_some_iff]

lemma mapM_congr {α β : Type} {f f' : α → Option β} {l : List α} (h : ∀ a ∈ l, f a = f' a) :
    l.mapM f = l.mapM f' := by
  induction l with
  | nil => rfl
  | cons a l ih =>
    rw [List.mapM_cons, List.mapM_cons, h a (by simp),
      ih fun b hb => h b (List.mem_cons_of_mem _ hb)]

lemma mapM_isSome {α β : Type} {f : α → Option β} {l : List α}
    (h : ∀ a ∈ l, ∃ s, f a = some s) : ∃ images, l.mapM f = some images := by
  induction l with
  | nil => exact ⟨[], rfl⟩
  | cons a l ih =>
    obtain ⟨s, hs⟩ := h a (by simp)
    obtain ⟨images, himages⟩ := ih fun b hb => h b (List.mem_cons_of_mem _ hb)
    exact ⟨s :: images, by simp [hs, himages]⟩

lemma mapM_injective {α β : Type} {f : α → Option β}
    (h : ∀ a b s, f a = some s → f b = some s → a = b) {l l' : List α} {images : List β}
    (hl : l.mapM f = some images) (hl' : l'.mapM f = some images) : l = l' := by
  rw [mapM_eq_some_iff] at hl hl'
  induction hl generalizing l' with
  | nil =>
    cases hl'
    rfl
  | cons ha _ ih =>
    cases hl' with
    | cons hb hrest => rw [h _ _ _ ha hb, ih hrest]

/-! ## The tree behind an id -/

namespace Table

/-- The tree behind an id, down to a depth. -/
def shape (t : Table) : ℕ → TypeId → Option Shape
  | 0, _ => none
  | fuel + 1, id => do
    let ty ← t.get id
    let head ← ty.traverse (t.shape fuel) fun run => (t.list run).mapM (t.shape fuel)
    some (.node head)

/-- What an id denotes.  Types are built out of types with smaller ids, so the depth is enough. -/
def denotation (t : Table) (id : TypeId) : Option Shape := t.shape (id.value + 1) id

variable {kindOf : DefId → NominalKind} {t t' : Table}

variable {fuel : ℕ}

lemma shape_isSome (h : WellFormed kindOf t) {id : TypeId} (hfuel : id.value < fuel)
    (hid : id.value < t.types.length) : ∃ s, t.shape fuel id = some s := by
  induction fuel generalizing id with
  | zero => omega
  | succ fuel ih =>
    have hget : t.get id = some t.types[id.value] := List.getElem?_eq_getElem hid
    have hentry := h.entries _ _ hget
    have hbelow : ∀ c : TypeId, c.value < id.value → ∃ s, t.shape fuel c = some s :=
      fun c hc => ih (by omega) (by omega)
    have hruns : ∀ run ∈ t.types[id.value].runs,
        ∃ images, (t.list run).mapM (t.shape fuel) = some images :=
      fun run hrun => mapM_isSome fun c hc => hbelow c ((hentry.runs run hrun).2 c hc)
    obtain ⟨head, hhead⟩ :=
      Node.traverse_isSome (fun c hc => hbelow c (hentry.children c hc)) hruns
    exact ⟨.node head, by simp [shape, hget, hhead]⟩

/-- The tree behind an id depends on nothing that comes after it. -/
lemma shape_congr (h : WellFormed kindOf t) (hext : Extends t t') {fuel' : ℕ} {id : TypeId}
    (hfuel : id.value < fuel) (hfuel' : id.value < fuel') (hid : id.value < t.types.length) :
    t'.shape fuel' id = t.shape fuel id := by
  induction fuel generalizing fuel' id with
  | zero => omega
  | succ fuel ih =>
    obtain ⟨fuel', rfl⟩ : ∃ n, fuel' = n + 1 := ⟨fuel' - 1, by omega⟩
    have hget : t.get id = some t.types[id.value] := List.getElem?_eq_getElem hid
    have hentry := h.entries _ _ hget
    have hsame : ∀ c : TypeId, c.value < id.value → t'.shape fuel' c = t.shape fuel c :=
      fun c hc => ih (by omega) (by omega) (by omega)
    have htraverse : t.types[id.value].traverse (t'.shape fuel')
          (fun run => (t'.list run).mapM (t'.shape fuel')) =
        t.types[id.value].traverse (t.shape fuel)
          (fun run => (t.list run).mapM (t.shape fuel)) := by
      refine Node.traverse_congr (fun c hc => hsame c (hentry.children c hc)) fun run hrun => ?_
      rw [h.list_eq hext (hentry.runs run hrun).1]
      exact mapM_congr fun c hc => hsame c ((hentry.runs run hrun).2 c hc)
    simp only [shape, hext.get_eq hid, hget, Option.bind_eq_bind, Option.bind_some, htraverse]

/-- **One id for each tree.** -/
lemma shape_injective (h : WellFormed kindOf t) {a b : TypeId} {s : Shape}
    (ha : t.shape fuel a = some s) (hb : t.shape fuel b = some s) : a = b := by
  induction fuel generalizing a b s with
  | zero => cases ha
  | succ fuel ih =>
    simp only [shape, Option.bind_eq_bind, Option.bind_eq_some_iff, Option.some.injEq] at ha hb
    obtain ⟨ty, hty, head, hhead, rfl⟩ := ha
    obtain ⟨ty', hty', head', hhead', heq⟩ := hb
    obtain rfl : head' = head := by injection heq
    have hids : ∀ a b s, True → True → t.shape fuel a = some s → t.shape fuel b = some s → a = b :=
      fun _ _ _ _ _ ha hb => ih ha hb
    have hruns : ∀ run run' images, t.Known run → t.Known run' →
        (t.list run).mapM (t.shape fuel) = some images →
        (t.list run').mapM (t.shape fuel) = some images → run = run' :=
      fun _ _ _ hknown hknown' hrun hrun' => h.known_injective hknown hknown'
        (mapM_injective (fun _ _ _ ha hb => ih ha hb) hrun hrun')
    have : Nonempty TypeId := ⟨a⟩
    have : Nonempty TypeList := ⟨.empty⟩
    obtain ⟨back, hback⟩ := exists_back hids
    obtain ⟨back', hback'⟩ := exists_back hruns
    -- both types are what the common tree is replaced back to
    have hto : ∀ {id : TypeId} {ty : ResolvedType}, t.get id = some ty →
        ty.traverse (t.shape fuel) (fun run => (t.list run).mapM (t.shape fuel)) = some head' →
        head'.traverse (fun s => some (back s)) (fun s => some (back' s)) = some ty := by
      intro id ty hget htraverse
      have hentry := h.entries id.value ty hget
      exact Node.traverse_back (fun c _ s hc => hback c s trivial hc)
        (fun run hrun s hs => hback' run s (hentry.runs run hrun).1 hs) htraverse
    have hsame := (hto hty hhead).symm.trans (hto hty' hhead')
    rw [Option.some.inj hsame] at hty
    exact h.get_injective hty hty'

/-- Every id of the table denotes a tree. -/
theorem denotation_isSome (h : WellFormed kindOf t) {id : TypeId}
    (hid : id.value < t.types.length) : ∃ s, t.denotation id = some s :=
  shape_isSome h (Nat.lt_succ_self _) hid

/-- Later calls change no denotation. -/
theorem denotation_extends (h : WellFormed kindOf t) (hext : Extends t t') {id : TypeId}
    (hid : id.value < t.types.length) : t'.denotation id = t.denotation id :=
  shape_congr h hext (Nat.lt_succ_self _) (Nat.lt_succ_self _) hid

/-- Ids are equal exactly when they denote the same tree. -/
theorem denotation_injective (h : WellFormed kindOf t) {a b : TypeId}
    (ha : a.value < t.types.length) (hb : b.value < t.types.length) :
    a = b ↔ t.denotation a = t.denotation b := by
  refine ⟨fun heq => by rw [heq], fun heq => ?_⟩
  obtain ⟨s, hs⟩ := denotation_isSome h ha
  have hmax : ∀ {id : TypeId}, id.value < t.types.length → id.value ≤ max a.value b.value →
      t.shape (max a.value b.value + 1) id = t.denotation id :=
    fun hid hle => shape_congr h (.refl t) (Nat.lt_succ_self _) (Nat.lt_succ_of_le hle) hid
  refine shape_injective h ((hmax ha (Nat.le_max_left _ _)).trans hs) ?_
  rw [hmax hb (Nat.le_max_right _ _), ← heq, hs]

end Table

end ModernC.SemaTypes
