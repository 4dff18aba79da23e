import Unravel.Tree.Walk

/-! Hoisting. The first declaration of each function moves to the front of the program; a later one
of the same name that is nested deep is dropped, and a shallow one stays. -/

namespace Unravel

namespace Hoist

inductive Fate where
  /-- First of its name, in a list: moves to the front. -/
  | hoisted
  /-- First of its name, in the slot of one statement: stays. -/
  | pinned
  /-- A later one in a list and nested deep: dropped with its body. -/
  | discarded
  /-- Any other later one: stays. -/
  | unresolved
deriving DecidableEq, Repr

structure Finding where
  fate : Fate
  name : String
  depth : Nat
deriving DecidableEq, Repr

abbrev Report := List Finding

namespace Report

def select (r : Report) (fate : Fate) : List (String × Nat) :=
  (r.filter (·.fate == fate)).map fun f => (f.name, f.depth)

def names (r : Report) (fate : Fate) : List String := (r.select fate).map (·.1)

end Report

def fate (limit : Nat) (inList : Bool) (depth : Nat) (found : Report) (name : String) : Fate :=
  if !found.any (·.name == name) then (if inList then .hoisted else .pinned)
  else if limit < depth && inList then .discarded
  else .unresolved

def finding? (limit : Nat) (inList : Bool) (depth : Nat) (found : Report) (h : Head)
    (slots : List (Slot Node)) : Except Fault (Option Finding) :=
  match h, slots with
  | .functionDeclaration, .one (some (.identifier _ name)) :: _ =>
    .ok (some ⟨fate limit inList depth found name, name, depth⟩)
  | .functionDeclaration, _ => .error .malformed
  | _, _ => .ok none

/-- What remains in place, the functions lifted out in pre-order, and all findings so far. -/
structure Lifted (α : Type) where
  rest : α
  lifted : List Node
  found : Report

mutual

def liftNode (limit : Nat) (inList : Bool) (depth : Nat) (found : Report) :
    Node → Except Fault (Lifted (Option Node))
  | .mk t h ss => do
    match ← finding? limit inList depth found h ss with
    | none =>
      let r ← liftSlots limit (depth + 1) found ss
      return ⟨some (.mk t h r.rest), r.lifted, r.found⟩
    | some f =>
      let found := found ++ [f]
      if f.fate = .discarded then return ⟨none, [], found⟩
      else
        let r ← liftSlots limit (depth + 1) found ss
        let n := Node.mk t h r.rest
        if f.fate = .hoisted then return ⟨none, n :: r.lifted, r.found⟩
        else return ⟨some n, r.lifted, r.found⟩

def liftSlots (limit depth : Nat) (found : Report) :
    List (Slot Node) → Except Fault (Lifted (List (Slot Node)))
  | [] => .ok ⟨[], [], found⟩
  | .one none :: ss => do
    let r ← liftSlots limit depth found ss
    return ⟨.one none :: r.rest, r.lifted, r.found⟩
  | .one (some c) :: ss => do
    let a ← liftNode limit false depth found c
    let r ← liftSlots limit depth a.found ss
    return ⟨.one a.rest :: r.rest, a.lifted ++ r.lifted, r.found⟩
  | .many cs :: ss => do
    let a ← liftItems limit depth found cs
    let r ← liftSlots limit depth a.found ss
    return ⟨.many a.rest :: r.rest, a.lifted ++ r.lifted, r.found⟩

def liftItems (limit depth : Nat) (found : Report) :
    List (Option Node) → Except Fault (Lifted (List (Option Node)))
  | [] => .ok ⟨[], [], found⟩
  | none :: cs => do
    let r ← liftItems limit depth found cs
    return ⟨none :: r.rest, r.lifted, r.found⟩
  | some c :: cs => do
    let a ← liftNode limit true depth found c
    let r ← liftItems limit depth a.found cs
    let rest := match a.rest with
      | some n => some n :: r.rest
      | none => r.rest
    return ⟨rest, a.lifted ++ r.lifted, r.found⟩

end

def prepend (ns : List Node) : Node → Except Fault Node
  | .mk t .program [.many body] => .ok (.mk t .program [.many (ns.map some ++ body)])
  | .mk t .blockStatement [.many body] => .ok (.mk t .blockStatement [.many (ns.map some ++ body)])
  | .mk _ h _ => .error (if h.kind.fields.contains .body then .notApplicable else .malformed)

def hoist (limit : Nat) (tree : Node) : Node × Except Fault Report :=
  match liftNode limit false 0 [] tree with
  | .error f => (tree, .error f)
  | .ok r =>
    let rest := r.rest.getD tree
    match prepend r.lifted rest with
    | .ok tree => (tree, .ok r.found)
    | .error f => (rest, .error f)

end Hoist
end Unravel
