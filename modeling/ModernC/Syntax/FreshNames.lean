import Mathlib.Data.List.Nodup
import Mathlib.Data.List.Perm.Subperm

/-!
# Fresh names for private declarations

A private declaration that is to be told apart from one in another file gets the name
`name__mcpN`, with the index `N` of its file, and `name__mcpN__gD` where that name is taken.
-/

namespace ModernC.Syntax

def privateName (name : String) (file : ℕ) : String := name ++ "__mcp" ++ toString file

/-- The name at first, and then with the disambiguators 0, 1, and so on. -/
def disambiguated (base : String) : ℕ → String
  | 0 => base
  | disambiguator + 1 => base ++ "__g" ++ toString disambiguator

/-- The first name that is not taken, if one is found in so many turns. -/
def firstFree (occupied : List String) (base : String) : ℕ → ℕ → String
  | 0, attempt => disambiguated base attempt
  | turns + 1, attempt =>
    if occupied.contains (disambiguated base attempt) then
      firstFree occupied base turns (attempt + 1)
    else disambiguated base attempt

/-- There are no more names to skip than are taken. -/
def freshName (occupied : List String) (name : String) (file : ℕ) : String :=
  firstFree occupied (privateName name file) occupied.length 0

/-! ## Names that end in a number -/

/-- The text before the digits at the end. -/
def stem (text : List Char) : List Char := (text.reverse.dropWhile Char.isDigit).reverse

variable {file : ℕ}

variable {name : String}

end ModernC.Syntax
