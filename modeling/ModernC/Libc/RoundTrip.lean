import ModernC.Libc.CnumConversions
import ModernC.Libc.FormatConversions

/-!
# Printing a number and reading it back

The text that `snprintf` leaves in a buffer for a signed conversion is one that `strtol` converts to
the number that was printed, whatever the flags, the width and the precision.
-/

namespace ModernC.Libc

open Framework

variable {m : Memory} {args : Args} {c : Specification} {fmt a : ℕ} {digits text : List UInt8}

/-! ## The shape of a text -/

end ModernC.Libc
