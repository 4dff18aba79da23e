import Unravel.Rule.Basic

/-! Rules that record facts about declared names, and the one that uses recorded constants. -/

namespace Unravel.Rule

/-- The values of literal elements; holes are `undefined`, and so are other elements if `lenient`. -/
def literalElements (lenient : Bool) : List (Option Node) → Option (List Value)
  | [] => some []
  | none :: es => (literalElements lenient es).map (.undefined :: ·)
  | some (.mk _ (.literal v) _) :: es => (literalElements lenient es).map (v :: ·)
  | some _ :: es =>
    if lenient then (literalElements lenient es).map (.undefined :: ·) else none

def nameOf : Option Node → Except Fault String
  | some (.mk _ (.identifier name) _) => .ok name
  | _ => .error .malformed

def captureDeclarator : Transform
  | site, .variableDeclarator _ id init => do
    let name ← nameOf id
    if !site.isConstantName name then return none
    match init with
    | some (.mk _ (.literal v) _) => return some (.learn (.constant name v))
    | some (.arrayExpression _ elements) =>
      return (literalElements site.settings.partialArrays elements).map fun values =>
        .learn (.array name values)
    | _ => return none
  | _, _ => .ok none

def substituteIdentifier : Transform
  | site, .identifier t name =>
    if !isReference site.seat? || isWriteTarget site.seat? || !site.isConstantName name then
      .ok none
    else .ok ((site.facts.constants.get? name).map fun v => .replace (.literal (.fresh t.loc) v))
  | _, _ => .ok none

def bodyOf : Node → Except Fault (List Node)
  | .mk _ _ [_, _, .one body] => Node.statements body
  | _ => .error .malformed

/-- The argument of the `return` that a function's body consists of. -/
def singleReturn? (fn : Node) : Except Fault (Option (Option Node)) := do
  match ← bodyOf fn with
  | [.returnStatement _ argument] => return some argument
  | _ => return none

def captureFunction : Transform
  | site, .functionDeclaration t id params body => do
    capture site (← nameOf id) (.functionDeclaration t id params body)
  | site, .variableDeclarator _ id (some (.functionExpression t self params body)) => do
    capture site (← nameOf id) (.functionExpression t self params body)
  | _, _ => .ok none
where
  capture (site : Site) (name : String) (fn : Node) : Except Fault (Option Outcome) := do
    if !site.isConstantName name then return none
    return (← singleReturn? fn).map fun _ => .learn (.function name fn)

end Unravel.Rule
