import Mathlib.Algebra.Group.Nat.Defs
import Mathlib.Data.List.Basic

/-!
# UTF-8

The bytes of a text, character by character.  A byte below 128 is a character by itself, so bytes
may be cut there.
-/

namespace ModernC.Framework

abbrev Bytes := List UInt8

/-- The bytes of a text. -/
def encode (text : List Char) : Bytes := text.flatMap String.utf8EncodeChar

/-- The bytes are those of a text. -/
def IsUtf8 (bytes : Bytes) : Prop := ∃ text, encode text = bytes

lemma encode_append (text text' : List Char) : encode (text ++ text') = encode text ++ encode text' :=
  List.flatMap_append

lemma encode_cons (c : Char) (text : List Char) :
    encode (c :: text) = String.utf8EncodeChar c ++ encode text := rfl

lemma isUtf8_nil : IsUtf8 [] := ⟨[], rfl⟩

lemma IsUtf8.append {bytes bytes' : Bytes} (h : IsUtf8 bytes) (h' : IsUtf8 bytes') :
    IsUtf8 (bytes ++ bytes') := by
  obtain ⟨text, rfl⟩ := h
  obtain ⟨text', rfl⟩ := h'
  exact ⟨text ++ text', encode_append text text'⟩

/-! ## Bytes below 128 -/

lemma le_toNat_ofNat {n : ℕ} (hn : 128 ≤ n) (hlt : n < 256) : 128 ≤ (UInt8.ofNat n).toNat := by
  rw [UInt8.toNat_ofNat', Nat.mod_eq_of_lt hlt]
  exact hn

/-- A character below 128 is one byte; the bytes of any other are all above. -/
lemma utf8EncodeChar_cases (c : Char) :
    (c.toNat < 128 ∧ String.utf8EncodeChar c = [UInt8.ofNat c.toNat]) ∨
      (128 ≤ c.toNat ∧ ∀ b ∈ String.utf8EncodeChar c, 128 ≤ b.toNat) := by
  by_cases hsmall : c.toNat < 128
  · refine .inl ⟨hsmall, ?_⟩
    have hle : c.val.toNat ≤ 127 := Nat.le_of_lt_succ hsmall
    rw [String.utf8EncodeChar]
    exact if_pos hle
  · refine .inr ⟨Nat.le_of_not_lt hsmall, fun b hb => ?_⟩
    have hnot : ¬c.val.toNat ≤ 127 := fun hle => hsmall (Nat.lt_succ_of_le hle)
    rw [String.utf8EncodeChar] at hb
    simp only [if_neg hnot] at hb
    split at hb
    · simp only [List.mem_cons, List.not_mem_nil, or_false] at hb
      rcases hb with rfl | rfl <;> exact le_toNat_ofNat (by omega) (by omega)
    · split at hb
      · simp only [List.mem_cons, List.not_mem_nil, or_false] at hb
        rcases hb with rfl | rfl | rfl <;> exact le_toNat_ofNat (by omega) (by omega)
      · simp only [List.mem_cons, List.not_mem_nil, or_false] at hb
        rcases hb with rfl | rfl | rfl | rfl <;> exact le_toNat_ofNat (by omega) (by omega)

variable {b : UInt8}

/-- A byte below 128 is the first byte of a character only, and the whole of it. -/
lemma isUtf8_of_append_cons {front back : Bytes} (hb : b.toNat < 128)
    (h : IsUtf8 (front ++ b :: back)) : IsUtf8 front ∧ IsUtf8 back := by
  obtain ⟨text, htext⟩ := h
  induction text generalizing front with
  | nil => exact absurd htext.symm (by simp [encode])
  | cons c text ih =>
    have hbehind : ∀ rest, front = String.utf8EncodeChar c ++ rest →
        encode text = rest ++ b :: back → IsUtf8 front ∧ IsUtf8 back := by
      rintro rest rfl hrest
      obtain ⟨hfront, hback⟩ := ih hrest
      refine ⟨?_, hback⟩
      have hone : IsUtf8 (String.utf8EncodeChar c) := ⟨[c], List.append_nil _⟩
      exact hone.append hfront
    rw [encode_cons] at htext
    rcases List.append_eq_append_iff.mp htext with ⟨rest, hfront, hrest⟩ | ⟨rest, hchar, hrest⟩
    · exact hbehind rest hfront hrest
    · rcases rest with _ | ⟨d, rest⟩
      · rw [List.append_nil] at hchar
        exact hbehind [] (by rw [hchar, List.append_nil]) hrest.symm
      · obtain ⟨rfl, hback⟩ := List.cons.inj hrest
        rcases utf8EncodeChar_cases c with ⟨-, hone⟩ | ⟨-, hhigh⟩
        · rw [hchar] at hone
          rcases front with _ | ⟨e, front⟩
          · obtain ⟨-, rfl⟩ := List.cons.inj hone
            exact ⟨isUtf8_nil, text, hback.symm⟩
          · exact absurd (List.cons.inj hone).2 (by simp)
        · have hle := hhigh b (by rw [hchar]; simp)
          omega

/-- A byte below 128 is a character. -/
lemma exists_char (hb : b.toNat < 128) :
    ∃ c : Char, c.toNat = b.toNat ∧ String.utf8EncodeChar c = [b] := by
  have hvalid : b.toNat.isValidChar := .inl (by omega)
  have hsame : (Char.ofNatAux b.toNat hvalid).toNat = b.toNat := rfl
  refine ⟨Char.ofNatAux b.toNat hvalid, hsame, ?_⟩
  rcases utf8EncodeChar_cases (Char.ofNatAux b.toNat hvalid) with ⟨-, hone⟩ | ⟨hle, -⟩
  · rw [hone]
    exact congrArg (fun b => [b]) UInt8.ofNat_toNat
  · omega

lemma isUtf8_singleton (hb : b.toNat < 128) : IsUtf8 [b] := by
  obtain ⟨c, -, hc⟩ := exists_char hb
  exact ⟨[c], by rw [encode_cons, hc]; rfl⟩

/-- **Bytes may be cut at a byte below 128.** -/
lemma isUtf8_append_cons {front back : Bytes} (hb : b.toNat < 128) :
    IsUtf8 (front ++ b :: back) ↔ IsUtf8 front ∧ IsUtf8 back := by
  refine ⟨isUtf8_of_append_cons hb, fun ⟨hfront, hback⟩ => ?_⟩
  rw [List.append_cons]
  exact (hfront.append (isUtf8_singleton hb)).append hback

end ModernC.Framework
