import Unravel.Text.Quoted

/-! Remarks on patterns that are accepted but may not mean what their author thinks. -/

namespace Unravel.Regexp

inductive SetOperator where
  | difference
  | intersection
  | symmetricDifference
  | union
deriving DecidableEq, Repr

def SetOperator.text : SetOperator → String
  | .difference => "difference"
  | .intersection => "intersection"
  | .symmetricDifference => "symmetric difference"
  | .union => "union"

def SetOperator.ofMark? : Char → Option SetOperator
  | '-' => some .difference
  | '&' => some .intersection
  | '~' => some .symmetricDifference
  | '|' => some .union
  | _ => none

inductive Hint where
  | nestedSet (position : Nat)
  | setOperator (operator : SetOperator) (position : Nat)
  | groupNumber (text : String) (position : Nat)
deriving DecidableEq, Repr

def Hint.message : Hint → String
  | .nestedSet n => "Possible nested set at position " ++ Nat.repr n
  | .setOperator op n => "Possible set " ++ op.text ++ " at position " ++ Nat.repr n
  | .groupNumber text n =>
    "bad character in group name " ++ Text.quoted text ++ " at position " ++ Nat.repr n

end Unravel.Regexp
