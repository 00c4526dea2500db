import Mathlib.Data.Finset.Card
import Mathlib.Data.Fintype.Basic

/-!
# Swap-remove

An entry of an unordered list is removed by putting the last entry into its place.
-/

namespace ModernC.Framework

variable {α : Type*}

/-- The list without the entry at an index, where the last one is put. -/
def swapRemove (l : List α) (i : ℕ) : List α :=
  match l.getLast? with
  | none => []
  | some last => (l.set i last).dropLast

lemma exists_append_of_getElem {l : List α} {i : ℕ} (hi : i < l.length) :
    ∃ front back, l = front ++ l[i] :: back ∧ front.length = i := by
  refine ⟨l.take i, l.drop (i + 1), ?_, List.length_take_of_le (Nat.le_of_lt hi)⟩
  rw [List.getElem_cons_drop, List.take_append_drop]

lemma swapRemove_last (front : List α) (x : α) : swapRemove (front ++ [x]) front.length = front := by
  simp [swapRemove]

lemma swapRemove_middle (front middle : List α) (x last : α) :
    swapRemove (front ++ x :: (middle ++ [last])) front.length = front ++ last :: middle := by
  have hlast : (front ++ x :: (middle ++ [last])).getLast? = some last := by
    rw [← List.cons_append, ← List.append_assoc, List.getLast?_concat]
  have hset : (front ++ x :: (middle ++ [last])).set front.length last =
      (front ++ last :: middle) ++ [last] := by
    rw [List.set_append_right _ _ (Nat.le_refl _), Nat.sub_self, List.set_cons_zero, List.append_assoc,
      List.cons_append]
  rw [swapRemove, hlast]
  dsimp only
  rw [hset, List.dropLast_concat]

/-- The entries in front of the index stay, and the others are those behind it. -/
lemma swapRemove_append (front back : List α) (x : α) :
    ∃ back', swapRemove (front ++ x :: back) front.length = front ++ back' ∧ back'.Perm back := by
  rcases back.eq_nil_or_concat with rfl | ⟨middle, last, rfl⟩
  · exact ⟨[], by rw [swapRemove_last, List.append_nil], .nil⟩
  · rw [List.concat_eq_append, swapRemove_middle]
    exact ⟨_, rfl, (List.perm_append_comm : (middle ++ [last]).Perm ([last] ++ middle)).symm⟩

end ModernC.Framework

/-!
## Draining a queue

A worklist loop takes the front of a queue and visits it, which may put more into the queue,
until the queue is empty.  The loop is run with fuel; a measure that every visit decreases
says how much is enough.
-/

namespace ModernC.Framework

variable {β σ : Type} (visit : β → List β × σ → List β × σ)

/-- Visit the front of the queue until it is empty. -/
def drain : ℕ → List β × σ → List β × σ
  | 0, run => run
  | _ + 1, ([], data) => ([], data)
  | fuel + 1, (block :: rest, data) => drain fuel (visit block (rest, data))

variable {visit}

/-- **Invariant rule**: what every visit preserves holds at the end. -/
theorem drain_invariant {holds : List β × σ → Prop}
    (hvisit : ∀ block rest data, holds (block :: rest, data) → holds (visit block (rest, data))) :
    ∀ {fuel : ℕ} {run : List β × σ}, holds run → holds (drain visit fuel run)
  | 0, _, h | _ + 1, ([], _), h => h
  | fuel + 1, (block :: rest, data), h => by
    show holds (drain visit fuel (visit block (rest, data)))
    exact drain_invariant hvisit (hvisit block rest data h)

/-- **Termination rule**: with as much fuel as the measure says, the queue ends empty. -/
theorem drain_empties {holds : List β × σ → Prop} {measure : List β × σ → ℕ}
    (hvisit : ∀ block rest data, holds (block :: rest, data) → holds (visit block (rest, data)))
    (hless : ∀ block rest data, holds (block :: rest, data) →
      measure (visit block (rest, data)) < measure (block :: rest, data)) :
    ∀ {fuel : ℕ} {run : List β × σ}, holds run → measure run ≤ fuel →
      (drain visit fuel run).1 = []
  | 0, ([], _), _, _ => rfl
  | 0, (block :: rest, data), h, hfuel => by
    have hlt := hless block rest data h
    omega
  | _ + 1, ([], _), _, _ => rfl
  | fuel + 1, (block :: rest, data), h, hfuel => by
    show (drain visit fuel (visit block (rest, data))).1 = []
    apply drain_empties hvisit hless (hvisit block rest data h)
    have hlt := hless block rest data h
    omega

end ModernC.Framework

/-!
## Counting after an update

How many entries of a function have a property, after one entry is replaced.
-/

namespace ModernC.Framework

variable {α β : Type*} [Fintype α] [DecidableEq α] {p : β → Prop} [DecidablePred p] {f : α → β}
  {a : α} {b : β}

/-- The places whose entry has the property. -/
def places (p : β → Prop) [DecidablePred p] (f : α → β) : Finset α :=
  Finset.univ.filter fun x => p (f x)

omit [DecidableEq α] in
lemma mem_places {x : α} : x ∈ places p f ↔ p (f x) := Finset.mem_filter_univ x

lemma places_update_of_iff (h : p b ↔ p (f a)) : places p (Function.update f a b) = places p f := by
  ext x
  rw [mem_places, mem_places]
  by_cases hx : x = a
  · rw [hx, Function.update_self, h]
  · rw [Function.update_of_ne hx]

lemma places_update_of_pos (h : p b) :
    places p (Function.update f a b) = insert a (places p f) := by
  ext x
  rw [mem_places, Finset.mem_insert, mem_places]
  by_cases hx : x = a
  · simp [hx, h]
  · simp [hx]

lemma places_update_of_neg (h : ¬p b) :
    places p (Function.update f a b) = (places p f).erase a := by
  ext x
  rw [mem_places, Finset.mem_erase, mem_places]
  by_cases hx : x = a
  · simp [hx, h]
  · simp [hx]

lemma card_places_update_add (h : p b) (hold : ¬p (f a)) :
    (places p (Function.update f a b)).card = (places p f).card + 1 := by
  rw [places_update_of_pos h, Finset.card_insert_of_notMem fun hmem => hold (mem_places.mp hmem)]

lemma card_places_update_sub (h : ¬p b) (hold : p (f a)) :
    (places p (Function.update f a b)).card + 1 = (places p f).card := by
  rw [places_update_of_neg h, Finset.card_erase_add_one (mem_places.mpr hold)]

end ModernC.Framework
