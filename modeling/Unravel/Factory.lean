import Unravel.Tree.Walk

/-! Array factories that replace themselves on the first call. A function declaration that starts
with a local array, assigns to its own name and ends by returning a call of itself returns the local
array instead, and the assignment goes. -/

namespace Unravel

namespace Factory

def reassigns (name : String) : Option Node → Bool
  | some (.mk _ .expressionStatement
      [.one (some (.mk _ (.assignmentExpression "=") (.one (some (.identifier _ left)) :: _)))]) =>
    left == name
  | _ => false

def localArray? : Option Node → Except Fault (Option String)
  | some (.variableDeclaration _ _
      (some (.variableDeclarator _ id (some (.mk _ .arrayExpression _))) :: _)) =>
    match id.bind Node.name? with
    | some name => .ok (some name)
    | none => .error .malformed
  | _ => .ok none

def returnsCall (name : String) : Option Node → Bool
  | some (.returnStatement _ (some (.mk _ .callExpression (.one (some (.identifier _ callee)) :: _))))
    => callee == name
  | _ => false

def returning (name : String) : Option Node → Option Node
  | some (.returnStatement t (some argument)) =>
    some (.returnStatement t (some (.identifier (.fresh argument.loc) name)))
  | s => s

/-- The collapsed body of a function with a given name, if the body has all three marks of a
factory. -/
def collapsedBody? (name : String) (body : List (Option Node)) :
    Except Fault (Option (List (Option Node))) :=
  match body.getLast? with
  | some last =>
    if body.length < 3 || !returnsCall name last then .ok none
    else do
      let some array ← localArray? (body.head?.join) | return none
      let init := body.dropLast
      match init.findIdx? (reassigns name) with
      | some i => return some (init.eraseIdx i ++ [returning array last])
      | none => return none
  | none => .ok none

def collapsed? : Node → Except Fault (Option (String × List (Option Node)))
  | .functionDeclaration _ (some (.identifier _ name)) _ (some (.blockStatement _ body)) => do
    return (← collapsedBody? name body).map ((name, ·))
  | .mk _ .functionDeclaration _ => .error .malformed
  | _ => .ok none

def collapseHere (n : Node) : Node :=
  match n with
  | .functionDeclaration t id params (some (.blockStatement u _)) =>
    match collapsed? n with
    | .ok (some (_, body)) => .functionDeclaration t id params (some (.blockStatement u body))
    | _ => n
  | _ => n

mutual

def collapseAll : Node → Node
  | .mk t h ss => collapseHere (.mk t h (collapseSlots ss))

def collapseSlots : List (Slot Node) → List (Slot Node)
  | [] => []
  | .one none :: ss => .one none :: collapseSlots ss
  | .one (some c) :: ss => .one (some (collapseAll c)) :: collapseSlots ss
  | .many cs :: ss => .many (collapseItems cs) :: collapseSlots ss

def collapseItems : List (Option Node) → List (Option Node)
  | [] => []
  | none :: cs => none :: collapseItems cs
  | some c :: cs => some (collapseAll c) :: collapseItems cs

end

/-- Collapses every factory of the tree and lists their names in pre-order. -/
def collapse (tree : Node) : Except Fault (Node × List String) := do
  let found ← tree.walk.mapM collapsed?
  return (collapseAll tree, found.filterMap (·.map (·.1)))

end Factory
end Unravel
