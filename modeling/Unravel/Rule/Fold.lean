import Unravel.Rule.Basic

/-! Rules that compute: self-assignment, logical operators, sums of literals, tests with a literal,
and members of recorded arrays. -/

namespace Unravel.Rule

def selfAssignment : Transform
  | _, .expressionStatement _ (.assignmentExpression _ "=" (.identifier _ a) (.identifier _ b)) =>
    .ok (if a == b then some .remove else none)
  | _, _ => .ok none

/-- `a && b` becomes `a ? b : false`, and `a || b` becomes `a ? true : b`. -/
def logicalToConditional : Transform
  | _, .mk t (.logicalExpression "&&") [left, right] =>
    .ok (some (.replace (.mk (.fresh t.loc) .conditionalExpression
      [left, right, .one (some (.literal (.fresh none) (.bool false)))])))
  | _, .mk t (.logicalExpression "||") [left, right] =>
    .ok (some (.replace (.mk (.fresh t.loc) .conditionalExpression
      [left, .one (some (.literal (.fresh none) (.bool true))), right])))
  | _, _ => .ok none

def foldPlus : Transform
  | _, .binaryExpression t "+" (.literal _ a) (.literal _ b) => do
    return some (.replace (.literal (.fresh t.loc) (← a.add b)))
  | _, _ => .ok none

/-- A literal test leaves one branch. A block among statements dissolves unless it declares lexical
names; a missing branch is an empty statement. -/
def simplifyConditional : Transform
  | _, .mk _ .conditionalExpression
      [.one (some (.literal _ test)), .one consequent, .one alternate] => do
    return (if ← test.truthy then consequent else alternate).map .replace
  | site, .mk t .ifStatement [.one (some (.literal _ test)), .one consequent, .one alternate] => do
    let branch := if ← test.truthy then consequent else alternate
    match branch with
    | none => return some (.replace (.emptyStatement (.fresh t.loc)))
    | some (.blockStatement u body) =>
      let statements := body.filterMap id
      if site.settings.spliceBlocks && site.inSequence && !declaresLexical statements then
        return some (.splice statements)
      else return some (.replace (.blockStatement u body))
    | some branch => return some (.replace branch)
  | _, _ => .ok none

/-- A literal index into a recorded array is the element, or `undefined` outside the array. -/
def foldArrayMember : Transform
  | site, .memberExpression t true (.identifier _ name) (.literal _ index) =>
    if isWriteTarget site.seat? || !site.isConstantName name then .ok none
    else match site.facts.arrays.get? name with
      | none => .ok none
      | some values => do
        let some i ← index.arrayIndex? | return none
        let value := if 0 ≤ i then values.getD i.toNat .undefined else .undefined
        return some (.replace (.literal (.fresh t.loc) value))
  | _, _ => .ok none

end Unravel.Rule
