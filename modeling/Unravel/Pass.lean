import Unravel.Mutation
import Unravel.Rule.Basic

/-! One pass over a tree: every rule is tried at every node in pre-order. A replacement is the node
for the rules after it and its children are walked; statements put in place of a node are walked as
new nodes; a removed node is done with. The visits are bounded by a fuel argument, since inlining
can go on forever. -/

namespace Unravel

inductive Event where
  | entered
  | descended (mark : Option Nat)
  | changed (rule : Nat)
  | learned (rule : Nat)
  | skipped (rule : Nat)
deriving DecidableEq, Repr

namespace Event

def isEntry : Event → Bool
  | .entered => true
  | _ => false

def isChange : Event → Bool
  | .changed _ => true
  | _ => false

def isLesson : Event → Bool
  | .learned _ => true
  | _ => false

def isSkip : Event → Bool
  | .skipped _ => true
  | _ => false

def isApplication (rule : Nat) : Event → Bool
  | .changed r | .learned r => r == rule
  | _ => false

end Event

namespace Pass

structure Env where
  rules : List Rule
  settings : Settings
  mutated : List String

structure State where
  facts : Facts
  next : Nat
  log : List Event := []
  fault : Option Fault := none

namespace State

def failed (st : State) : Bool := st.fault.isSome

def fail (st : State) (f : Fault) : State := { st with fault := some f }

def note (st : State) (e : Event) : State := { st with log := e :: st.log }

def place (st : State) (n : Node) : Node × State :=
  let (n, next) := n.number st.next
  (n, { st with next })

def placeAll (st : State) : List Node → List Node × State
  | [] => ([], st)
  | n :: ns =>
    let (n, st) := st.place n
    let (ns, st) := st.placeAll ns
    (n :: ns, st)

/-- Records a fact; only a new name counts as an application of the rule. -/
def learn (st : State) (rule : Nat) (fact : Fact) : State :=
  let (facts, isNew) := st.facts.learn fact
  let st := { st with facts }
  if isNew then st.note (.learned rule) else st

def leave (st : State) (n : Node) : State :=
  if n.isFunction then { st with facts := st.facts.update n } else st

end State

/-- Where a node ends up: it, or what replaced it, keeps the place, or statements take it. -/
inductive Landing where
  | kept (n : Node)
  | left (ns : List Node)

/-- The effect of an edit at the end of a trail, or nothing where the position does not support it:
a root cannot be edited and only a list can lose a node. Several statements in the slot of one
become a block, and none an empty statement. -/
def land (trail : Trail) (outcome : Outcome) : Option Landing :=
  match trail, outcome with
  | [], _ => none
  | _ :: _, .learn _ => none
  | _ :: _, .replace n => some (.kept n)
  | f :: _, .remove => if f.inSequence then some (.left []) else none
  | f :: _, .splice ns =>
    if f.inSequence then some (.left ns)
    else match ns with
      | [n] => some (.kept n)
      | [] => some (.kept (.emptyStatement (.fresh none)))
      | ns => some (.kept (.blockStatement (.fresh none) (ns.map some)))

def settle (env : Env) (trail : Trail) : List Rule → Nat → Node → State → Landing × State
  | [], _, n, st => (.kept n, st)
  | r :: rs, i, n, st =>
    if !r.applies n then settle env trail rs (i + 1) n st
    else match r.transform ⟨trail, st.facts, env.settings, env.mutated⟩ n with
      | .error f => (.kept n, st.fail f)
      | .ok none => settle env trail rs (i + 1) n st
      | .ok (some (.learn fact)) => settle env trail rs (i + 1) n (st.learn i fact)
      | .ok (some outcome) =>
        match land trail outcome with
        | none => settle env trail rs (i + 1) n (st.note (.skipped i))
        | some (.left ns) =>
          let (ns, st) := (st.note (.changed i)).placeAll ns
          (.left ns, st)
        | some (.kept n) =>
          let (n, st) := (st.note (.changed i)).place n
          match n.supported with
          | .error f => (.kept n, st.fail f)
          | .ok _ => settle env trail rs (i + 1) n st

mutual

def visit (env : Env) : Nat → Trail → Node → State → Landing × State
  | 0, _, n, st => (.kept n, st.fail .outOfFuel)
  | fuel + 1, trail, n, st =>
    match n.supported with
    | .error f => (.kept n, st.fail f)
    | .ok _ =>
      match settle env trail env.rules 0 n (st.note .entered) with
      | (.left ns, st) => (.left ns, st)
      | (.kept (.mk t h ss), st) =>
        if st.failed then (.kept (.mk t h ss), st)
        else
          let (ss, st) := visitSlots env fuel trail t h [] ss (st.note (.descended t.mark))
          (.kept (.mk t h ss), st.leave (.mk t h ss))

def visitSlots (env : Env) : Nat → Trail → Tag → Head → List (Slot Node) → List (Slot Node) →
    State → List (Slot Node) × State
  | _, _, _, _, _, [], st => ([], st)
  | 0, _, _, _, _, ss, st => (ss, st.fail .outOfFuel)
  | fuel + 1, trail, t, h, before, s :: ss, st =>
    let (s, st) : Slot Node × State := match s with
      | .one none => (.one none, st)
      | .one (some c) =>
        match visit env fuel (⟨t, h, before, .single, ss⟩ :: trail) c st with
        | (.kept c, st) => (.one (some c), st)
        | (.left ns, st) => (.one ns.head?, st)
      | .many items =>
        let (items, st) := visitItems env fuel trail t h before ss [] items st
        (.many items, st)
    if st.failed then (s :: ss, st)
    else
      let (ss, st) := visitSlots env fuel trail t h (s :: before) ss st
      (s :: ss, st)

def visitItems (env : Env) : Nat → Trail → Tag → Head → List (Slot Node) → List (Slot Node) →
    List (Option Node) → List (Option Node) → State → List (Option Node) × State
  | _, _, _, _, _, _, _, [], st => ([], st)
  | 0, _, _, _, _, _, _, items, st => (items, st.fail .outOfFuel)
  | fuel + 1, trail, t, h, before, after, left, none :: items, st =>
    let (items, st) := visitItems env fuel trail t h before after (none :: left) items st
    (none :: items, st)
  | fuel + 1, trail, t, h, before, after, left, some c :: items, st =>
    match visit env fuel (⟨t, h, before, .item left items, after⟩ :: trail) c st with
    | (.left ns, st) =>
      if st.failed then (ns.map some ++ items, st)
      else visitItems env fuel trail t h before after left (ns.map some ++ items) st
    | (.kept c, st) =>
      if st.failed then (some c :: items, st)
      else
        let (items, st) := visitItems env fuel trail t h before after (some c :: left) items st
        (some c :: items, st)

end

structure Stats where
  changes : Nat
  facts : Nat
  skipped : Nat
  visited : Nat
deriving DecidableEq, Repr

def stats (log : List Event) : Stats where
  changes := log.countP Event.isChange
  facts := log.countP Event.isLesson
  skipped := log.countP Event.isSkip
  visited := log.countP Event.isEntry

/-- Runs one pass. The tree is returned also after a fault, as far as it was edited. -/
def run (fuel : Nat) (rules : List Rule) (settings : Settings) (tree : Node) (facts : Facts)
    (next : Nat) : Node × State :=
  match if settings.trackMutations then tree.mutatedNames else .ok [] with
  | .error f => (tree, { facts, next, fault := some f })
  | .ok mutated =>
    match visit ⟨rules, settings, mutated⟩ fuel [] tree { facts, next } with
    | (.kept tree, st) => (tree, st)
    | (.left _, st) => (tree, st)

end Pass
end Unravel
