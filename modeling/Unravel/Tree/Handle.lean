import Unravel.Tree.Trail

/-! Handles remember where a node sat and edit that place. Other edits may have moved the node
since; a handle whose slot no longer holds its node is stale and changes nothing. Parts cut out of
the tree are kept, since a handle may still lead into one. An edit works on a desk, step by step:
a failure undoes nothing of what was done before it. -/

namespace Unravel

namespace Node

def slot? (n : Node) (field : Field) : Option (Slot Node) := do
  let i ← n.kind.fields.findIdx? (· == field)
  n.slots[i]?

def withSlot (n : Node) (field : Field) (slot : Slot Node) : Node :=
  match n, n.kind.fields.findIdx? (· == field) with
  | .mk t h ss, some i => .mk t h (ss.set i slot)
  | n, none => n

mutual

def putAt (mark : Nat) (new : Node) : Node → Node
  | .mk t h ss => if t.mark == some mark then new else .mk t h (putAtSlots mark new ss)

def putAtSlots (mark : Nat) (new : Node) : List (Slot Node) → List (Slot Node)
  | [] => []
  | .one none :: ss => .one none :: putAtSlots mark new ss
  | .one (some c) :: ss => .one (some (putAt mark new c)) :: putAtSlots mark new ss
  | .many cs :: ss => .many (putAtItems mark new cs) :: putAtSlots mark new ss

def putAtItems (mark : Nat) (new : Node) : List (Option Node) → List (Option Node)
  | [] => []
  | none :: cs => none :: putAtItems mark new cs
  | some c :: cs => some (putAt mark new c) :: putAtItems mark new cs

end

end Node

structure Named where
  mark : Nat
  kind : String
deriving DecidableEq, Repr

structure Handle where
  node : Named
  parent : Option Named
  field : Option Field
  index : Option Nat
  ancestors : List String
  removed : Bool := false
deriving DecidableEq, Repr

namespace Handle

def inSequence (h : Handle) : Bool := h.index.isSome

def depth (h : Handle) : Nat := h.ancestors.length

def place (h : Handle) : Place :=
  ⟨h.node.kind, h.parent.map (·.kind), h.field.map Field.name, h.index⟩

end Handle

/-- A tree, the parts cut out of it, and the next free mark. -/
structure Workspace where
  tree : Node
  detached : List Node := []
  next : Nat

namespace Workspace

def ofTree (tree : Node) : Workspace :=
  let (tree, next) := tree.unmarked.number 0
  { tree, next }

def nameOf (n : Node) : Named := ⟨n.mark.getD 0, n.kind.name⟩

def handle? (w : Workspace) (route : List (Field × Option Nat)) : Option Handle := do
  let (trail, n) ← w.tree.follow? [] route
  let owners := trail.map fun f => (⟨f.tag.mark.getD 0, f.head.kind.name⟩ : Named)
  return {
    node := nameOf n
    parent := owners.head?
    field := route.getLast?.map (·.1)
    index := route.getLast?.bind (·.2)
    ancestors := owners.map (·.kind) }

def find? (w : Workspace) (mark : Nat) : Option Node :=
  (w.tree :: w.detached).findSome? (·.find? mark)

def adopt (w : Workspace) : List Node → List Node × Workspace
  | [] => ([], w)
  | n :: ns =>
    let (n, next) := n.number w.next
    let (ns, w) := adopt { w with next } ns
    (n :: ns, w)

def setSlot (w : Workspace) (owner : Node) (field : Field) (slot : Slot Node) (cut : List Node) :
    Workspace :=
  match owner.mark with
  | none => w
  | some mark =>
    let new := owner.withSlot field slot
    { w with
      tree := Node.putAt mark new w.tree
      detached := w.detached.map (Node.putAt mark new) ++ cut }

/-- What an edit finds at a handle: the node, the owner and the field of its slot, and the
neighbours on both sides if the slot is a list. -/
structure Found where
  owner : Node
  field : Field
  node : Node
  beside : Option (List (Option Node) × List (Option Node))

/-- The slot with other nodes in the place of the one that was found. A slot of one node takes the
first. -/
def Found.fill (found : Found) (ns : List Node) : Slot Node :=
  match found.beside with
  | none => .one ns.head?
  | some (left, right) => .many (left ++ ns.map some ++ right)

def locate (w : Workspace) (h : Handle) : Except Fault Found :=
  match h.parent, h.field with
  | some parent, some field =>
    match w.find? parent.mark with
    | none => .error .malformed
    | some owner =>
      match owner.slot? field, h.index with
      | some (.one (some n)), none =>
        if n.mark == some h.node.mark then .ok ⟨owner, field, n, none⟩ else .error (.stale h.place)
      | some (.many items), some i =>
        match items.drop i with
        | [] => .error .pastEnd
        | some n :: right =>
          if n.mark == some h.node.mark then .ok ⟨owner, field, n, some (items.take i, right)⟩
          else .error (.stale h.place)
        | none :: _ => .error (.stale h.place)
      | _, _ => .error (.stale h.place)
  | _, _ => .error .rootEdit

end Workspace

structure Desk where
  workspace : Workspace
  handles : List Handle := []

/-- Work on a desk. What was written before a failure stays written. -/
abbrev Work := ExceptT Fault (StateM Desk)

inductive Edit where
  | replace (new : Node)
  | splice (new : List Node)
  | remove

namespace Desk

def ofTree (tree : Node) : Desk := { workspace := .ofTree tree }

def hold (d : Desk) (h : Handle) : Desk := { d with handles := d.handles ++ [h] }

def locate (h : Handle) : Work Workspace.Found := do
  match (← get).workspace.locate h with
  | .ok found => return found
  | .error fault => throw fault

def adopt (ns : List Node) : Work (List Node) :=
  modifyGet fun d =>
    let (ns, w) := d.workspace.adopt ns
    (ns, { d with workspace := w })

def fill (found : Workspace.Found) (ns : List Node) : Work Unit :=
  modify fun d => { d with
    workspace := d.workspace.setSlot found.owner found.field (found.fill ns) [found.node] }

def update (k : Nat) (f : Handle → Handle) : Work Unit :=
  modify fun d => { d with handles := d.handles.modify k f }

def replace (k : Nat) (h : Handle) (new : Node) : Work Unit := do
  let found ← locate h
  let placed ← adopt [new]
  fill found placed
  update k fun h => { h with node := (placed.head?.map Workspace.nameOf).getD h.node }

/-- Puts nodes into the list in place of the node. In the slot of one node, none become an empty
statement and several a block. -/
def splice (k : Nat) (h : Handle) (new : List Node) : Work Unit :=
  match h.parent, h.index with
  | none, _ => throw .rootEdit
  | some _, some _ => do
    let found ← locate h
    let placed ← adopt new
    fill found placed
    update k fun h => { h with removed := true }
  | some _, none =>
    match new with
    | [n] => replace k h n
    | [] => replace k h (.emptyStatement (.fresh none))
    | ns => replace k h (.blockStatement (.fresh none) (ns.map some))

def remove (k : Nat) (h : Handle) : Work Unit :=
  match h.index with
  | none => throw (.notInList h.place)
  | some _ => do
    let found ← locate h
    fill found []
    update k fun h => { h with removed := true }

def perform (k : Nat) (h : Handle) : Edit → Work Unit
  | .replace new => replace k h new
  | .splice new => splice k h new
  | .remove => remove k h

def edit (d : Desk) (k : Nat) (e : Edit) : Except Fault Unit × Desk :=
  match d.handles[k]? with
  | some h => (perform k h e).run d
  | none => (.ok (), d)

end Desk
end Unravel
