import Unravel.Pass

/-! Simplifying to a fixed point: passes follow each other while the last one changed the tree or
learned a name, up to the pass limit. -/

namespace Unravel

namespace Fixpoint

inductive Status where
  | converged
  | passLimit
deriving DecidableEq, Repr

structure Report where
  status : Status
  passes : List Pass.Stats
  applications : List Nat
deriving DecidableEq, Repr

namespace Report

def changesHistory (r : Report) : List Nat := r.passes.map (·.changes)

def total (r : Report) (count : Pass.Stats → Nat) : Nat :=
  r.passes.foldl (fun n p => n + count p) 0

def totalChanges (r : Report) : Nat := r.total (·.changes)

def factsLearned (r : Report) : Nat := r.total (·.facts)

def skipped (r : Report) : Nat := r.total (·.skipped)

def lastChanges (r : Report) : Nat := r.changesHistory.getLast?.getD 0

end Report

def applications (count : Nat) (log : List Event) : List Nat :=
  (List.range count).map fun rule => log.countP (Event.isApplication rule)

structure Progress where
  tree : Node
  facts : Facts
  next : Nat
  log : List Event := []

def loop (fuel : Nat) (rules : List Rule) (settings : Settings) :
    Nat → List Pass.Stats → Progress → Progress × Except Fault (Status × List Pass.Stats)
  | 0, done, p => (p, .ok (.passLimit, done.reverse))
  | limit + 1, done, p =>
    let (tree, st) := Pass.run fuel rules settings p.tree p.facts p.next
    let p := { tree, facts := st.facts, next := st.next, log := st.log ++ p.log : Progress }
    match st.fault with
    | some f => (p, .error f)
    | none =>
      let stats := Pass.stats st.log
      if stats.changes = 0 && stats.facts = 0 then (p, .ok (.converged, (stats :: done).reverse))
      else loop fuel rules settings limit (stats :: done) p

/-- Runs passes to a fixed point. In strict mode the pass limit is an error. -/
def run (fuel : Nat) (rules : List Rule) (settings : Settings) (tree : Node) (facts : Facts)
    (next : Nat) : Progress × Except Fault Report :=
  let start : Progress := { tree, facts, next }
  match tree.supported with
  | .error f => (start, .error f)
  | .ok _ =>
    match loop fuel rules settings settings.passLimit [] start with
    | (p, .error f) => (p, .error f)
    | (p, .ok (status, passes)) =>
      let report := { status, passes, applications := applications rules.length p.log : Report }
      if status = .passLimit && settings.strict then
        (p, .error (.noConvergence passes.length report.lastChanges))
      else (p, .ok report)

end Fixpoint
end Unravel
