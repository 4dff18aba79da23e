import Unravel.Tree.Node

/-! Traversals in pre-order. `walk` lists a node and all nodes below it, `seated` adds where each
one sits, `scope` stays outside nested functions, and `relabel` changes tags and heads while a state
is carried along. -/

namespace Unravel

structure Seat where
  owner : Head
  field : Field
deriving DecidableEq, Repr

def Slot.children {α : Type} : Slot α → List α
  | .one child => child.toList
  | .many items => items.filterMap id

namespace Node

def children (n : Node) : List Node := n.slots.flatMap Slot.children

mutual

def walk : Node → List Node
  | .mk t h ss => .mk t h ss :: walkSlots ss

def walkSlots : List (Slot Node) → List Node
  | [] => []
  | .one none :: ss => walkSlots ss
  | .one (some c) :: ss => c.walk ++ walkSlots ss
  | .many cs :: ss => walkItems cs ++ walkSlots ss

def walkItems : List (Option Node) → List Node
  | [] => []
  | none :: cs => walkItems cs
  | some c :: cs => c.walk ++ walkItems cs

end

mutual

def seated (seat : Option Seat) : Node → List (Node × Option Seat)
  | .mk t h ss => (.mk t h ss, seat) :: seatedSlots h h.kind.fields ss

def seatedSlots (h : Head) (fs : List Field) : List (Slot Node) → List (Node × Option Seat)
  | [] => []
  | .one none :: ss => seatedSlots h fs.tail ss
  | .one (some c) :: ss => c.seated (fs.head?.map (⟨h, ·⟩)) ++ seatedSlots h fs.tail ss
  | .many cs :: ss => seatedItems (fs.head?.map (⟨h, ·⟩)) cs ++ seatedSlots h fs.tail ss

def seatedItems (seat : Option Seat) : List (Option Node) → List (Node × Option Seat)
  | [] => []
  | none :: cs => seatedItems seat cs
  | some c :: cs => c.seated seat ++ seatedItems seat cs

end

mutual

/-- The node and, unless it is a function, everything below it up to nested functions. -/
def reach : Node → List Node
  | .mk t h ss => .mk t h ss :: (if h.kind.isFunction then [] else reachSlots ss)

def reachSlots : List (Slot Node) → List Node
  | [] => []
  | .one none :: ss => reachSlots ss
  | .one (some c) :: ss => c.reach ++ reachSlots ss
  | .many cs :: ss => reachItems cs ++ reachSlots ss

def reachItems : List (Option Node) → List Node
  | [] => []
  | none :: cs => reachItems cs
  | some c :: cs => c.reach ++ reachItems cs

end

def scope (n : Node) : List Node := reachSlots n.slots

abbrev Relabel (σ : Type) := Option Seat → Tag → Head → σ → (Tag × Head) × σ

mutual

def relabel {σ : Type} (f : Relabel σ) (seat : Option Seat) : Node → σ → Node × σ
  | .mk t h ss, s =>
    let ((t', h'), s) := f seat t h s
    let (ss, s) := relabelSlots f h h.kind.fields ss s
    (.mk t' h' ss, s)

def relabelSlots {σ : Type} (f : Relabel σ) (h : Head) (fs : List Field) :
    List (Slot Node) → σ → List (Slot Node) × σ
  | [], s => ([], s)
  | .one none :: ss, s =>
    let (ss, s) := relabelSlots f h fs.tail ss s
    (.one none :: ss, s)
  | .one (some c) :: ss, s =>
    let (c, s) := relabel f (fs.head?.map (⟨h, ·⟩)) c s
    let (ss, s) := relabelSlots f h fs.tail ss s
    (.one (some c) :: ss, s)
  | .many cs :: ss, s =>
    let (cs, s) := relabelItems f (fs.head?.map (⟨h, ·⟩)) cs s
    let (ss, s) := relabelSlots f h fs.tail ss s
    (.many cs :: ss, s)

def relabelItems {σ : Type} (f : Relabel σ) (seat : Option Seat) :
    List (Option Node) → σ → List (Option Node) × σ
  | [], s => ([], s)
  | none :: cs, s =>
    let (cs, s) := relabelItems f seat cs s
    (none :: cs, s)
  | some c :: cs, s =>
    let (c, s) := relabel f seat c s
    let (cs, s) := relabelItems f seat cs s
    (some c :: cs, s)

end

def number (n : Node) (next : Nat) : Node × Nat :=
  relabel (fun _ t h next =>
    match t.mark with
    | some _ => ((t, h), next)
    | none => (({ t with mark := some next }, h), next + 1)) none n next

def unmarked (n : Node) : Node :=
  (relabel (fun _ t h (s : Unit) => (({ t with mark := none }, h), s)) none n ()).1

def find? (n : Node) (mark : Nat) : Option Node := n.walk.find? (·.mark == some mark)

def places (n : Node) : List (Field × Option Nat × Node) :=
  (n.kind.fields.zip n.slots).flatMap fun (f, s) =>
    match s with
    | .one child => child.toList.map fun c => (f, none, c)
    | .many items => items.zipIdx.filterMap fun (c, i) => c.map fun c => (f, some i, c)

end Node
end Unravel
