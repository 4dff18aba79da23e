import Unravel.Mutation

/-! Trip counts of loops that literals drive: a counter that starts at a number, is compared with a
number and is stepped by a number. -/

namespace Unravel

namespace Number

def comparison? (operator : String) : Option (Number → Number → Bool) :=
  match operator with
  | "<" => some fun a b => a.compare? b == some .lt
  | "<=" => some fun a b => a.compare? b == some .lt || a.compare? b == some .eq
  | ">" => some fun a b => a.compare? b == some .gt
  | ">=" => some fun a b => a.compare? b == some .gt || a.compare? b == some .eq
  | "!=" | "!==" => some fun a b => a.compare? b != some .eq
  | _ => none

end Number

namespace Loop

def counter? : Option Node → Except Fault (Option (String × Number))
  | some (.variableDeclaration _ _ [declarator]) =>
    match declarator with
    | some (.variableDeclarator _ id (some (.literal _ (.number start)))) =>
      match id.bind Node.name? with
      | some name => .ok (some (name, start))
      | none => .error .malformed
    | some (.mk _ .variableDeclarator _) => .ok none
    | _ => .error .malformed
  | some (.assignmentExpression _ "=" (.identifier _ name) (.literal _ (.number start))) =>
    .ok (some (name, start))
  | _ => .ok none

def test? (name : String) : Option Node → Option (Number → Bool)
  | some (.binaryExpression _ operator left right) =>
    match Number.comparison? operator with
    | none => none
    | some compares =>
      match left, right with
      | .identifier _ counter, .literal _ (.number bound) =>
        if counter == name then some fun v => compares v bound else none
      | .literal _ (.number bound), .identifier _ counter =>
        if counter == name then some fun v => compares bound v else none
      | _, _ => none
  | _ => none

def step? (name : String) : Option Node → Option Number
  | some (.updateExpression _ operator _ (.identifier _ counter)) =>
    if counter == name then some (.int (if operator == "++" then 1 else -1)) else none
  | some (.assignmentExpression _ operator (.identifier _ counter) (.literal _ (.number step))) =>
    if counter == name then
      match operator with
      | "+=" => some step
      | "-=" => some step.neg
      | _ => none
    else none
  | _ => none

def rounds (test : Number → Bool) (step : Number) : Nat → Number → Except Fault Nat
  | 0, _ => .ok 0
  | limit + 1, value =>
    if test value then do
      let value ← value.add step
      return 1 + (← rounds test step limit value)
    else .ok 0

/-- How often the body of a `for` runs, counted up to two; nothing when that is not known. -/
def tripCount? : Node → Except Fault (Option Nat)
  | .mk _ .forStatement [.one init, .one test, .one update, .one body] => do
    let some (name, start) ← counter? init | return none
    let some test := test? name test | return none
    let some step := step? name update | return none
    let some body := body | throw .malformed
    if (← body.mutatedNames).contains name then return none
    return some (← rounds test step 2 start)
  | _ => .ok none

def executesOnce : Node → Except Fault Bool
  | .mk _ .doWhileStatement [_, .one (some (.literal _ value))] => do return !(← value.truthy)
  | .mk t .forStatement slots => do return (← tripCount? (.mk t .forStatement slots)) == some 1
  | _ => .ok false

end Loop
end Unravel
