import LeftRecursion.Text.Quoted
import Mathlib.Data.Nat.Notation
import Mathlib.Tactic.SplitIfs

/-!
# What quoting shows

Nothing hidden is left in a quoted text.
-/

namespace LeftRecursion.Text

variable {c d mark : Char} {b n : ℕ}

end LeftRecursion.Text
