import Unravel.Facts
import Unravel.Settings
import Unravel.Tree.Query
import Unravel.Tree.Trail

/-! Rules and what they may answer. A rule looks at one node, where it sits and what is known, and
answers with an edit of that position or with a fact. -/

namespace Unravel

structure Site where
  trail : Trail
  facts : Facts
  settings : Settings
  mutated : List String

namespace Site

def seat? (s : Site) : Option Seat := s.trail.seat?

def inSequence (s : Site) : Bool := s.trail.inSequence

def isConstantName (s : Site) (name : String) : Bool :=
  !(s.settings.trackMutations && s.mutated.contains name)

/-- The recorded function of a name. One that encloses the node `here` reads as it stands now. -/
def function? (s : Site) (here : Node) (name : String) : Option Node :=
  (s.facts.functions.get? name).map fun fn =>
    (fn.mark.bind fun mark =>
      if s.trail.passes mark then s.trail.enclosing? mark here else none).getD fn

end Site

inductive Outcome where
  | replace (n : Node)
  | splice (ns : List Node)
  | remove
  | learn (fact : Fact)

abbrev Transform := Site → Node → Except Fault (Option Outcome)

structure Rule where
  name : String
  kinds : List Kind
  transform : Transform
  enabled : Bool := true

def Rule.applies (r : Rule) (n : Node) : Bool := r.enabled && r.kinds.contains n.kind

def Node.statements : Option Node → Except Fault (List Node)
  | some (.mk _ .blockStatement [.many body]) | some (.mk _ .program [.many body]) =>
    .ok (body.filterMap id)
  | _ => .error .malformed

def declaresLexical (statements : List Node) : Bool :=
  statements.any fun s =>
    match s.head with
    | .variableDeclaration kind => kind == "let" || kind == "const"
    | _ => false

end Unravel
