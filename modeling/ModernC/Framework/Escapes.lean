import Mathlib.Data.List.Basic

/-!
# Escape codes

A word spells a value.  A marker in front of a symbol stands for what the symbol escapes; every
other symbol stands for itself.
-/

namespace ModernC.Framework

variable {α : Type*} {marker : α} {unescape : α → Option α}

/-- The word spells the value. -/
inductive Spells (marker : α) (unescape : α → Option α) : List α → List α → Prop
  | nil : Spells marker unescape [] []
  | plain {a : α} {word value : List α} (ha : a ≠ marker) (h : Spells marker unescape word value) :
      Spells marker unescape (a :: word) (a :: value)
  | escape {a b : α} {word value : List α} (ha : unescape a = some b)
      (h : Spells marker unescape word value) :
      Spells marker unescape (marker :: a :: word) (b :: value)

lemma Spells.append {word word' value value' : List α} (h : Spells marker unescape word value)
    (h' : Spells marker unescape word' value') :
    Spells marker unescape (word ++ word') (value ++ value') := by
  induction h with
  | nil => exact h'
  | plain ha _ ih => exact ih.plain ha
  | escape ha _ ih => exact ih.escape ha

/-- **Every value has a spelling** where each of its symbols has one. -/
lemma spells_flatMap {spell : α → List α} {value : List α}
    (hspell : ∀ a ∈ value, Spells marker unescape (spell a) [a]) :
    Spells marker unescape (value.flatMap spell) value := by
  induction value with
  | nil => exact .nil
  | cons a value ih =>
    have hfirst := hspell a List.mem_cons_self
    exact hfirst.append (ih fun b hb => hspell b (List.mem_cons_of_mem _ hb))

/-- A reader that takes the spelled symbols one at a time reads the whole spelling, whatever
follows it. -/
lemma read_flatMap {β : Type*} {read : List α → Option (List β × List α)} {spell : β → List α}
    {value : List β} (rest : List α)
    (hread : ∀ b ∈ value, ∀ rest, read (spell b ++ rest) =
      (read rest).map fun (value, rest) => (b :: value, rest)) :
    read (value.flatMap spell ++ rest) =
      (read rest).map fun (value', rest) => (value ++ value', rest) := by
  induction value with
  | nil => simp
  | cons b value ih =>
    have hrest := ih fun b hb => hread b (List.mem_cons_of_mem _ hb)
    rw [List.flatMap_cons, List.append_assoc, hread b List.mem_cons_self, hrest, Option.map_map]
    rfl

end ModernC.Framework
