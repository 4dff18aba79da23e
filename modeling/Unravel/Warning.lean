import Unravel.Regexp.Hint

/-! Warnings: what a run reports beside its result. -/

namespace Unravel

inductive Warning where
  | pattern (hint : Regexp.Hint)
  | noConvergence (passes : Nat)
deriving DecidableEq, Repr

def Warning.message : Warning → String
  | .pattern hint => hint.message
  | .noConvergence passes => "rewrite did not converge after " ++ Nat.repr passes ++ " passes"

end Unravel
