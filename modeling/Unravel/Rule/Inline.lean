import Unravel.Rule.Capture

/-! Rules that put the code of a function where it is called. -/

namespace Unravel

def Node.isPure (n : Node) : Bool := n.kind == .literal || n.kind == .identifier

namespace Rule

/-- Argument of each parameter; of a repeated parameter the last one counts. -/
abbrev Binding := List (String × Node)

def Binding.get? (b : Binding) (name : String) : Option Node :=
  (b.reverse.find? (·.1 == name)).map (·.2)

mutual

def substitute (b : Binding) (seat : Option Seat) : Node → Node
  | .mk t (.identifier name) ss =>
    if isReference seat then ((b.get? name).map Node.unmarked).getD (.mk t (.identifier name) ss)
    else .mk t (.identifier name) ss
  | .mk t h ss => .mk t h (substituteSlots b h h.kind.fields ss)

def substituteSlots (b : Binding) (h : Head) (fs : List Field) :
    List (Slot Node) → List (Slot Node)
  | [] => []
  | .one none :: ss => .one none :: substituteSlots b h fs.tail ss
  | .one (some c) :: ss =>
    .one (some (substitute b (fs.head?.map (⟨h, ·⟩)) c)) :: substituteSlots b h fs.tail ss
  | .many cs :: ss =>
    .many (substituteItems b (fs.head?.map (⟨h, ·⟩)) cs) :: substituteSlots b h fs.tail ss

def substituteItems (b : Binding) (seat : Option Seat) : List (Option Node) → List (Option Node)
  | [] => []
  | none :: cs => none :: substituteItems b seat cs
  | some c :: cs => some (substitute b seat c) :: substituteItems b seat cs

end

/-- Whether a node of a returned expression keeps the function from being inlined: a function,
`this`, `arguments`, the function's own name, or a write to a parameter. -/
def blocksInlining (self : Option String) (params : List String) (n : Node)
    (seat : Option Seat) : Bool :=
  match n.head with
  | .functionDeclaration | .functionExpression | .thisExpression => true
  | .identifier name =>
    name == "arguments" || self == some name
      || (params.contains name && isReference seat && isWriteTarget seat)
  | _ => false

def uses (expr : Node) (param : String) : Nat :=
  (expr.seated none).countP fun (n, seat) => n.name? == some param && isReference seat

def bind : List String → List Node → Binding
  | [], _ => []
  | p :: ps, [] => (p, .literal (.fresh none) .undefined) :: bind ps []
  | p :: ps, a :: as => (p, a) :: bind ps as

/-- The returned expression with arguments for parameters. There is none when the substitution
could change what is evaluated: an argument that is no literal or identifier must be read exactly
once, and surplus arguments must be literals or identifiers. -/
def instantiate? (self : Option String) (params : List String) (expr : Node)
    (arguments : List Node) : Option Node :=
  let binding := bind params arguments
  if (expr.seated none).any fun (n, seat) => blocksInlining self params n seat then none
  else if !(arguments.drop params.length).all Node.isPure then none
  else if binding.all fun (p, a) => uses expr p == 1 || a.isPure then
    some (substitute binding none expr.unmarked)
  else none

def selfName : Option Node → Except Fault (Option String)
  | none => .ok none
  | some (.mk _ (.identifier name) _) => .ok (some name)
  | some _ => .error .malformed

/-- The function that a call runs: one written there, or the recorded one of a constant name. -/
def called? (site : Site) (call callee : Node) : Option Node :=
  match callee.head with
  | .functionExpression => some callee
  | .identifier name => if site.isConstantName name then site.function? call name else none
  | _ => none

def expand (fn : Node) (arguments : List (Option Node)) : Except Fault (Option Node) := do
  let some result ← singleReturn? fn | return none
  let expr := result.getD (.literal (.fresh none) .undefined)
  match fn.slots with
  | [.one self, .many params, _] =>
    let self ← selfName self
    let params ← params.mapM nameOf
    return instantiate? self params expr (arguments.filterMap id)
  | _ => .error .malformed

def inlineReturn : Transform
  | site, .callExpression t callee arguments =>
    match called? site (.callExpression t callee arguments) callee with
    | none => .ok none
    | some fn => do return (← expand fn arguments).map .replace
  | _, _ => .ok none

/-- `setTimeout(function () { S }, 0);` becomes `S`, in its block where it has to stay one. -/
def inlineTimer : Transform
  | site, .expressionStatement _ (.callExpression _ (.identifier _ callee)
      [some (.functionExpression _ _ [] body), some (.literal _ (.number delay))]) => do
    if !site.settings.deferredCallees.contains callee || !delay.isZero then return none
    let some body := body | throw .malformed
    if body.containsReturn || body.usesFunctionContext then return none
    if site.inSequence then
      let statements ← Node.statements (some body)
      if !declaresLexical statements then
        return some (if statements.isEmpty then .remove else .splice statements)
    return some (.replace body)
  | _, _ => .ok none

end Rule
end Unravel
