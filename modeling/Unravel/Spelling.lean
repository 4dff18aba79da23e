import Unravel.Tree.Node

/-! Spelling a tree so that source text can hold it. Literals become what the language can write:
`undefined`, `NaN` and `Infinity` are names, a negative number is a minus in front of a positive one,
and a whole double is an integer. A consequent that would capture a following `else` gets braces. -/

namespace Unravel.Spelling

def magnitude (t : Tag) : Number → Except Fault Node
  | .int n => do
    let _ ← (Number.int n).toFloat
    return .literal t (.int n)
  | .float x =>
    if x.isInf then .ok (.identifier t "Infinity")
    else match Double.toInt? x with
      | some n =>
        if n.natAbs ≤ Number.integerLimit then .ok (.literal t (.int n))
        else .ok (.literal t (.float x))
      | none => .ok (.literal t (.float x))

def isNegative : Number → Bool
  | .int n => n < 0
  | .float x => Double.isNegative x

def literal (t : Tag) : Value → Except Fault Node
  | .undefined => .ok (.identifier t "undefined")
  | .number n =>
    match n with
    | .float x => if x.isNaN then .ok (.identifier t "NaN") else signed t (.float x)
    | .int k => signed t (.int k)
  | .foreign type => .error (.unsupported ("Literal[" ++ type ++ "]") t.loc)
  | v => .ok (.literal t v)
where
  signed (t : Tag) (n : Number) : Except Fault Node :=
    if isNegative n then do
      return .unaryExpression t "-" (← magnitude (.fresh none) n.neg)
    else magnitude t n

mutual

/-- Spells every literal. The first node in pre-order that has no spelling is reported. -/
def spell : Node → Except Fault Node
  | .mk t (.literal v) _ => literal t v
  | .mk t (.foreign name) _ => .error (.unsupported name t.loc)
  | .mk t h ss => do return .mk t h (← spellSlots ss)

def spellSlots : List (Slot Node) → Except Fault (List (Slot Node))
  | [] => .ok []
  | .one none :: ss => do return .one none :: (← spellSlots ss)
  | .one (some c) :: ss => do
    let c ← spell c
    return .one (some c) :: (← spellSlots ss)
  | .many cs :: ss => do
    let cs ← spellItems cs
    return .many cs :: (← spellSlots ss)

def spellItems : List (Option Node) → Except Fault (List (Option Node))
  | [] => .ok []
  | none :: cs => do return none :: (← spellItems cs)
  | some c :: cs => do
    let c ← spell c
    return some c :: (← spellItems cs)

end

/-- Whether a statement ends in an `if` without `else`, to which a following `else` would go. -/
def endsOpen : Node → Bool
  | .mk _ .ifStatement [_, _, .one none] => true
  | .mk _ .ifStatement [_, _, .one (some alternate)] => endsOpen alternate
  | .mk _ .whileStatement [_, .one (some body)] => endsOpen body
  | .mk _ .forStatement [_, _, _, .one (some body)] => endsOpen body
  | .mk _ .forInStatement [_, _, .one (some body)] => endsOpen body
  | .mk _ .labeledStatement [_, .one (some body)] => endsOpen body
  | _ => false

def guard (h : Head) (slots : List (Slot Node)) : List (Slot Node) :=
  match h, slots with
  | .ifStatement, [test, .one (some consequent), .one (some alternate)] =>
    if endsOpen consequent then
      [test, .one (some (.blockStatement (.fresh none) [some consequent])), .one (some alternate)]
    else [test, .one (some consequent), .one (some alternate)]
  | _, slots => slots

mutual

def brace : Node → Node
  | .mk t h ss => .mk t h (guard h (braceSlots ss))

def braceSlots : List (Slot Node) → List (Slot Node)
  | [] => []
  | .one none :: ss => .one none :: braceSlots ss
  | .one (some c) :: ss => .one (some (brace c)) :: braceSlots ss
  | .many cs :: ss => .many (braceItems cs) :: braceSlots ss

def braceItems : List (Option Node) → List (Option Node)
  | [] => []
  | none :: cs => none :: braceItems cs
  | some c :: cs => some (brace c) :: braceItems cs

end

end Unravel.Spelling
