import Unravel.Code.Render
import Unravel.Session

/-! From a program to its simplified code: rename, simplify to a fixed point, collapse factories,
hoist functions and print. -/

namespace Unravel

namespace Pipeline

structure Result where
  code : String
  compactCode : String
  tree : Node
  fixpoint : Fixpoint.Report
  hoist : Hoist.Report
  collapsed : List String
  renamed : List (String × Nat)

def renameAll (tree : Node) : List (String × String) → Node × List (String × Nat)
  | [] => (tree, [])
  | (old, new) :: rest =>
    let (tree, count) := tree.rename old new
    let (tree, counts) := renameAll tree rest
    (tree, (old, count) :: counts)

def transform (settings : Settings) (style : Style) (rules : List Rule) (program : Node) :
    Except Fault Result := do
  let (tree, renamed) := renameAll program settings.renames
  let (tree, next) := tree.number 0
  let (progress, fixpoint) := Fixpoint.run visitBound rules settings tree {} next
  let fixpoint ← fixpoint
  let (tree, collapsed) ← Factory.collapse progress.tree
  let (tree, hoist) := Hoist.hoist settings.dedupDepth tree
  let hoist ← hoist
  let code ← Code.render style tree
  let compactCode ← Code.render style.compacted tree
  return { code, compactCode, tree, fixpoint, hoist, collapsed, renamed }

end Pipeline
end Unravel
