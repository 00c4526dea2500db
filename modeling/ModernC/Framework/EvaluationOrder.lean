import Mathlib.Data.List.Basic
import Mathlib.Data.List.Pairwise

/-!
# Evaluation in a given order

Nodes are evaluated in the order of a list, each as soon as what has been evaluated so far makes
it *ready*.  A list whose nodes are all ready in their turn is evaluated to its end.

The second part unfolds a node to the tree of what it needs.  The unfolding ends if what a node
needs has a smaller rank.
-/

namespace ModernC.Framework

variable {α κ : Type}

/-! ## Lists of nodes -/

section Lists

variable (ready : List κ → α → Bool) (gives : α → List κ)

/-- Evaluates the nodes in turn, and stops on the first one that is not ready. -/
def evaluateAll : List κ → List α → Option (List κ)
  | done, [] => some done
  | done, node :: rest =>
    if ready done node then evaluateAll (done ++ gives node) rest else none

variable {ready gives}

variable {nodes : List α}

/-- **The evaluation reaches its end if and only if every node is ready in its turn**. -/
theorem evaluateAll_isSome_iff {done : List κ} :
    (evaluateAll ready gives done nodes).isSome = true ↔
      ∀ front node rest, nodes = front ++ node :: rest →
        ready (done ++ front.flatMap gives) node = true := by
  induction nodes generalizing done with
  | nil => simp [evaluateAll]
  | cons first nodes ih =>
    unfold evaluateAll
    constructor
    · intro h front node rest hsplit
      split_ifs at h with hready
      · cases front with
        | nil =>
          obtain ⟨rfl, -⟩ := List.cons.inj hsplit
          simpa using hready
        | cons head front =>
          obtain ⟨rfl, htail⟩ := List.cons.inj hsplit
          simpa using ih.mp h front node rest htail
      · simp at h
    · intro h
      have hready : ready done first = true := by simpa using h [] first nodes rfl
      rw [if_pos hready]
      refine ih.mpr fun front node rest hsplit => ?_
      simpa using h (first :: front) node rest (by rw [hsplit, List.cons_append])

/-- In a list that is sorted by an index, what has a smaller index stands in front. -/
lemma mem_front_of_lt {index : α → ℕ} {front rest : List α} {node earlier : α}
    (hsorted : nodes.Pairwise fun a b => index a < index b) (hsplit : nodes = front ++ node :: rest)
    (hmem : earlier ∈ nodes) (hlt : index earlier < index node) : earlier ∈ front := by
  subst hsplit
  rcases List.mem_append.mp hmem with hfront | hrest
  · exact hfront
  · have htail := (List.pairwise_append.mp hsorted).2.1
    rcases List.mem_cons.mp hrest with rfl | hrest
    · exact absurd hlt (Nat.lt_irrefl _)
    · exact absurd hlt (by have := List.rel_of_pairwise_cons htail hrest; omega)

/-- The entries of a list whose indices are their positions are sorted. -/
lemma pairwise_of_positions {index : α → ℕ} (h : ∀ i node, nodes[i]? = some node → index node = i) :
    nodes.Pairwise fun a b => index a < index b := by
  rw [List.pairwise_iff_getElem]
  intro i j hi hj hij
  rw [h i _ (List.getElem?_eq_getElem hi), h j _ (List.getElem?_eq_getElem hj)]
  exact hij

end Lists

/-! ## Trees -/

/-- A node with the trees of what it needs. -/
inductive NeedTree (κ : Type) where
  | node (key : κ) (needs : List (NeedTree κ))

/-- The tree of a node, if it is no deeper than the fuel. -/
def unfoldTree (needs : κ → Option (List κ)) : ℕ → κ → Option (NeedTree κ)
  | 0, _ => none
  | fuel + 1, key => do
    let keys ← needs key
    let trees ← keys.mapM (unfoldTree needs fuel)
    some (.node key trees)

lemma mapM_isSome {β γ : Type} {f : β → Option γ} {xs : List β}
    (h : ∀ x ∈ xs, (f x).isSome = true) : (xs.mapM f).isSome = true := by
  induction xs with
  | nil => rfl
  | cons x xs ih =>
    obtain ⟨y, hy⟩ := Option.isSome_iff_exists.mp (h x (List.mem_cons_self ..))
    obtain ⟨ys, hys⟩ := Option.isSome_iff_exists.mp
      (ih fun x' hx' => h x' (List.mem_cons_of_mem _ hx'))
    simp [List.mapM_cons, hy, hys]

/-- **The tree of a node is finite if what a node needs has a smaller rank**. -/
theorem unfoldTree_isSome {needs : κ → Option (List κ)} (Known : κ → Prop) (rank : κ → ℕ)
    (h : ∀ key, Known key → ∃ keys, needs key = some keys ∧
      ∀ key' ∈ keys, Known key' ∧ rank key' < rank key)
    {key : κ} (hknown : Known key) {fuel : ℕ} (hfuel : rank key < fuel) :
    (unfoldTree needs fuel key).isSome = true := by
  induction fuel generalizing key with
  | zero => omega
  | succ fuel ih =>
    obtain ⟨keys, hkeys, hsmaller⟩ := h key hknown
    have htrees : (keys.mapM (unfoldTree needs fuel)).isSome = true := by
      refine mapM_isSome fun key' hkey' => ?_
      obtain ⟨hknown', hrank⟩ := hsmaller key' hkey'
      exact ih hknown' (by omega)
    obtain ⟨trees, htrees⟩ := Option.isSome_iff_exists.mp htrees
    simp [unfoldTree, hkeys, htrees]

end ModernC.Framework
