import LeftRecursion.Proofs.Answer
import LeftRecursion.Proofs.Command.Log
import LeftRecursion.Proofs.Elimination.Step

/-!
# What a run leaves behind

Beside the lines of its log, a run that fails prints one error on one line and nothing else. On a
text, the arguments decide which renderings a run prints, and a failure is the one that the answers
report.
-/

namespace LeftRecursion

namespace Outcome

end Outcome

def Source.words : Source → List String
  | .standardInput => []
  | .file name => [name]

namespace Options

end Options

namespace Command

variable {o : Options} {source : Source} {words : List String} {word : String}

end Command

end LeftRecursion
