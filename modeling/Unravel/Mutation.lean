import Unravel.Tree.Walk

/-! The names that a tree writes to: assignment targets, update operands, targets of `for … in`,
members written or deleted through a name, and calls of methods that change an array in place. -/

namespace Unravel

def arrayMutators : List String :=
  ["push", "pop", "shift", "unshift", "splice", "reverse", "sort", "fill", "copyWithin"]

namespace Node

def rootName? : Node → Option String
  | .mk _ (.memberExpression _) [.one (some object), _] => object.rootName?
  | .mk _ (.identifier name) _ => some name
  | _ => none

def memberName? : Node → Option String
  | .memberExpression _ false _ (.identifier _ name) => some name
  | .memberExpression _ _ _ (.literal _ (.str s)) => some s
  | _ => none

def declaredName : Option Node → Except Fault String
  | some (.variableDeclarator _ (some (.identifier _ name)) _) => .ok name
  | _ => .error .malformed

def isMember (n : Node) : Bool := n.kind == .memberExpression

/-- The names that one node writes to, its children left aside. Assigning a name to itself is no
write. -/
def writes : Node → Except Fault (List String)
  | .assignmentExpression _ "=" (.identifier _ left) (.identifier _ right) =>
    .ok (if left == right then [] else [left])
  | .mk _ (.assignmentExpression _) (.one (some left) :: _) => .ok left.rootName?.toList
  | .updateExpression _ _ _ argument => .ok argument.rootName?.toList
  | .mk _ .forInStatement (.one (some (.variableDeclaration _ _ declarations)) :: _) =>
    declarations.mapM declaredName
  | .mk _ .forInStatement (.one (some left) :: _) => .ok left.rootName?.toList
  | .unaryExpression _ "delete" argument =>
    .ok (if argument.isMember then argument.rootName?.toList else [])
  | .mk _ .callExpression (.one (some (.memberExpression t computed object property)) :: _) =>
    .ok (match memberName? (.memberExpression t computed object property) with
      | some name => if arrayMutators.contains name then object.rootName?.toList else []
      | none => [])
  | _ => .ok []

def mutatedNames (tree : Node) : Except Fault (List String) := do
  let names ← tree.walk.mapM writes
  return names.flatten.eraseDups

end Node
end Unravel
