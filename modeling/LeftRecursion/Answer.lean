import LeftRecursion.Elimination
import LeftRecursion.Reading
import LeftRecursion.Rendering

/-!
# Grammars in, grammars out

The whole way from a written grammar to the text of its elimination.
-/

namespace LeftRecursion

def eliminateTextTraced (s : String) : Traced Grammar := do
  (← Grammar.parseTraced s).eliminateTraced

def eliminateText (s : String) : Except Failure Grammar := do
  (← Grammar.parse s).eliminate

theorem result_eliminateTextTraced (s : String) :
    (eliminateTextTraced s).result = eliminateText s :=
  Traced.result_bind _ _

def Failure.toJson (e : Failure) : Json :=
  .record [("error", .text e.message)]

/-- The text of the elimination in a format, or the failure as JSON whatever the format. -/
def answer (f : Format) (s : String) : String :=
  match eliminateText s with
  | .ok g => g.render f
  | .error e => e.toJson.print

end LeftRecursion
