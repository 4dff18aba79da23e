import Unravel.Loop
import Unravel.Rule.Capture

/-! Rules that take wrappers off statements, and the one that drops named statements. -/

namespace Unravel.Rule

def isDirective : Node → Bool
  | .expressionStatement _ (.literal _ (.str _)) => true
  | _ => false

def mentionsSelf (id : Option Node) (body : Node) : Except Fault Bool :=
  match id with
  | none => .ok false
  | some id =>
    let names := body.walk.filterMap Node.name?
    match id.name? with
    | some self => .ok (names.contains self)
    | none => if names.isEmpty then .ok false else .error .malformed

/-- `(function () { S })();` among statements becomes `S` without its directives. -/
def unwrapCall : Transform
  | site, .expressionStatement _ (.callExpression _ (.functionExpression _ id [] body) []) => do
    if !site.inSequence then return none
    let some body := body | throw .malformed
    if body.containsReturn || body.usesFunctionContext then return none
    if ← mentionsSelf id body then return none
    let statements := (← Node.statements (some body)).dropWhile isDirective
    return some (if statements.isEmpty then .remove else .splice statements)
  | _, _ => .ok none

def asStatement (e : Node) : Node := .expressionStatement (.fresh e.loc) e

def leadIn : Option Node → List Node
  | none => []
  | some (.mk t (.variableDeclaration kind) ss) => [.mk t (.variableDeclaration kind) ss]
  | some e => [asStatement e]

/-- A loop that runs its one statement exactly once becomes that statement, between what the loop
runs before and after it. -/
def unwrapLoop : Transform
  | _, .mk t .doWhileStatement [.one (some (.blockStatement u [some statement])), test] => do
    let body := Node.blockStatement u [some statement]
    if body.hasLoopExit then return none
    if !(← Loop.executesOnce (.mk t .doWhileStatement [.one (some body), test])) then return none
    return some (.replace statement)
  | _, .mk t .forStatement
      [.one init, test, .one update, .one (some (.blockStatement u [some statement]))] => do
    let body := Node.blockStatement u [some statement]
    if body.hasLoopExit then return none
    let loop := Node.mk t .forStatement [.one init, test, .one update, .one (some body)]
    if !(← Loop.executesOnce loop) then return none
    match leadIn init ++ statement :: update.toList.map asStatement with
    | [statement] => return some (.replace statement)
    | statements => return some (.splice statements)
  | _, _ => .ok none

def pruneNamed : Transform
  | site, n =>
    let names := site.settings.prunedNames
    if names.isEmpty then .ok none
    else match n with
      | .variableDeclaration _ _ (declarator :: _) => do
        let name ← Node.declaredName declarator
        return if names.contains name then some .remove else none
      | .expressionStatement _ (.mk _ .callExpression (.one (some (.identifier _ callee)) :: _)) =>
        .ok (if names.contains callee then some .remove else none)
      | _ => .ok none

end Unravel.Rule
