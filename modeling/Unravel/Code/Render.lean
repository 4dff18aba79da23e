import Unravel.Code.Statement
import Unravel.Spelling
import Unravel.Tree.Fold

/-! Code from trees: spell, brace and print. -/

namespace Unravel.Code

def printNode (lay : Layout) : Node.Layer Printer := fun _ h slots c =>
  ((expressionText? lay c h slots).orElse fun _ => statementText? lay c h slots).getD
    (.error .malformed)

def print (lay : Layout) (n : Node) : Except Fault String :=
  Node.fold (printNode lay) n { base := "" }

def render (style : Style) (n : Node) : Except Fault String := do
  print (.ofStyle style) (Spelling.brace (← Spelling.spell n))

end Unravel.Code
