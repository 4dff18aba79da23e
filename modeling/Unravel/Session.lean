import Unravel.Factory
import Unravel.Hoist
import Unravel.Fixpoint
import Unravel.Rule.Catalog
import Unravel.Warning

/-! A session: rules, settings and facts that live through a sequence of steps on named trees. -/

namespace Unravel

def visitBound : Nat := 1000000

structure Session where
  rules : List Rule
  settings : Settings
  facts : Facts := {}
  trees : Table Node := []
  next : Nat := 0
  log : List Event := []

namespace Session

def load (s : Session) (slot : String) (tree : Node) : Session :=
  let (tree, next) := tree.number s.next
  { s with trees := s.trees.set slot tree, next }

/-- A tree was edited outside a pass: new nodes get marks and recorded functions follow. -/
def settle (s : Session) (slot : String) (tree : Node) : Session :=
  let (tree, next) := tree.number s.next
  { s with trees := s.trees.set slot tree, next, facts := s.facts.refresh tree.find? }

def forget (s : Session) : Session := { s with facts := {} }

def toggle (s : Session) (rule : String) (enabled : Bool) : Session :=
  { s with rules := s.rules.map fun r => if r.name == rule then { r with enabled } else r }

def runPass (s : Session) (slot : String) (tree : Node) : Session × Except Fault Pass.Stats :=
  let (tree, st) := Pass.run visitBound s.rules s.settings tree s.facts s.next
  let s := { s with
    trees := s.trees.set slot tree, facts := st.facts, next := st.next, log := st.log ++ s.log }
  match st.fault with
  | some f => (s, .error f)
  | none => (s, .ok (Pass.stats st.log))

def simplify (s : Session) (slot : String) (tree : Node) :
    Session × Except Fault Fixpoint.Report :=
  let (p, result) := Fixpoint.run visitBound s.rules s.settings tree s.facts s.next
  let s := { s with
    trees := s.trees.set slot p.tree, facts := p.facts, next := p.next, log := p.log ++ s.log }
  (s, result)

def rename (s : Session) (slot : String) (tree : Node) (old new : String) : Session × Nat :=
  let (tree, count) := tree.rename old new
  (s.settle slot tree, count)

def collapse (s : Session) (slot : String) (tree : Node) :
    Session × Except Fault (List String) :=
  match Factory.collapse tree with
  | .error f => (s, .error f)
  | .ok (tree, names) => (s.settle slot tree, .ok names)

def hoist (s : Session) (slot : String) (tree : Node) : Session × Except Fault Hoist.Report :=
  let (tree, result) := Hoist.hoist s.settings.dedupDepth tree
  (s.settle slot tree, result)

def applications (s : Session) : List (String × Nat) :=
  (s.rules.map (·.name)).zip (Fixpoint.applications s.rules.length s.log)

end Session

def Fixpoint.Report.warning? (r : Fixpoint.Report) : Option Warning :=
  match r.status with
  | .converged => none
  | .passLimit => some (.noConvergence r.passes.length)

end Unravel
