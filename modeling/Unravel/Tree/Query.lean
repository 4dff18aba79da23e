import Unravel.Tree.Walk

/-! Questions about positions and jumps: what reads a variable, what is written to, what leaves a
function or a loop. -/

namespace Unravel

namespace Seat

/-- Whether an identifier here reads a variable, rather than declaring one or naming a property or
a label. -/
def isReference (s : Seat) : Bool :=
  match s.owner with
  | .variableDeclarator => s.field != .id
  | .functionDeclaration | .functionExpression => s.field != .id && s.field != .params
  | .memberExpression computed => s.field != .property || computed
  | .property computed => s.field != .key || computed
  | .catchClause => s.field != .param
  | .labeledStatement | .breakStatement | .continueStatement => s.field != .label
  | _ => true

def isWriteTarget (s : Seat) : Bool :=
  match s.owner with
  | .assignmentExpression _ => s.field == .left
  | .updateExpression _ _ => true
  | .forInStatement => s.field == .left
  | .unaryExpression operator => operator == "delete"
  | _ => false

def isFixedName (s : Seat) : Bool :=
  match s.owner with
  | .memberExpression computed => s.field == .property && !computed
  | .property computed => s.field == .key && !computed
  | .labeledStatement | .breakStatement | .continueStatement => true
  | _ => false

end Seat

def isReference (seat : Option Seat) : Bool := seat.all Seat.isReference

def isWriteTarget (seat : Option Seat) : Bool := seat.any Seat.isWriteTarget

namespace Node

def containsReturn (n : Node) : Bool := n.scope.any (·.kind == .returnStatement)

def usesFunctionContext (n : Node) : Bool :=
  n.scope.any fun c => c.kind == .thisExpression || c.name? == some "arguments"

def jumpsOut (inLoop inSwitch : Bool) : Node → Bool
  | .mk _ .breakStatement [.one label] => label.isSome || !(inLoop || inSwitch)
  | .mk _ .continueStatement [.one label] => label.isSome || !inLoop
  | _ => false

mutual

def exits (inLoop inSwitch : Bool) : Node → Bool
  | .mk t h ss =>
    !h.kind.isFunction &&
      (jumpsOut inLoop inSwitch (.mk t h ss)
        || exitsSlots (inLoop || h.kind.isLoop) (inSwitch || h.kind == .switchStatement) ss)

def exitsSlots (inLoop inSwitch : Bool) : List (Slot Node) → Bool
  | [] => false
  | .one none :: ss => exitsSlots inLoop inSwitch ss
  | .one (some c) :: ss => c.exits inLoop inSwitch || exitsSlots inLoop inSwitch ss
  | .many cs :: ss => exitsItems inLoop inSwitch cs || exitsSlots inLoop inSwitch ss

def exitsItems (inLoop inSwitch : Bool) : List (Option Node) → Bool
  | [] => false
  | none :: cs => exitsItems inLoop inSwitch cs
  | some c :: cs => c.exits inLoop inSwitch || exitsItems inLoop inSwitch cs

end

/-- Is there a jump below that would leave a loop around this node? Labeled jumps always count. -/
def hasLoopExit (n : Node) : Bool := exitsSlots false false n.slots

def rename (tree : Node) (old new : String) : Node × Nat :=
  relabel (fun seat t h count =>
    match h with
    | .identifier name =>
      if name == old && !seat.any Seat.isFixedName then ((t, .identifier new), count + 1)
      else ((t, h), count)
    | _ => ((t, h), count)) none tree 0

end Node
end Unravel
