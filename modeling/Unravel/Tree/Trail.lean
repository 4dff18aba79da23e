import Unravel.Tree.Walk

/-! A trail leads from a node up to the root: one frame for each node on the way, with a hole where
the way continues. -/

namespace Unravel

/-- Where the hole of a frame is: a whole slot, or an item of a list between its neighbours, those
to the left in reverse. -/
inductive Hole where
  | single
  | item (left right : List (Option Node))

structure Frame where
  tag : Tag
  head : Head
  before : List (Slot Node)
  hole : Hole
  after : List (Slot Node)

namespace Frame

def field? (f : Frame) : Option Field := f.head.kind.fields[f.before.length]?

def seat? (f : Frame) : Option Seat := f.field?.map (⟨f.head, ·⟩)

def inSequence (f : Frame) : Bool :=
  match f.hole with
  | .single => false
  | .item _ _ => true

def plug (f : Frame) (n : Node) : Node :=
  let slot := match f.hole with
    | .single => .one (some n)
    | .item left right => .many (left.reverse ++ some n :: right)
  .mk f.tag f.head (f.before.reverse ++ slot :: f.after)

end Frame

abbrev Trail := List Frame

namespace Trail

def seat? (trail : Trail) : Option Seat := trail.head?.bind Frame.seat?

def inSequence (trail : Trail) : Bool := trail.head?.any Frame.inSequence

def plug (trail : Trail) (n : Node) : Node := trail.foldl (fun n f => f.plug n) n

def passes (trail : Trail) (mark : Nat) : Bool := trail.any (·.tag.mark == some mark)

def enclosing? (mark : Nat) : Trail → Node → Option Node
  | [], _ => none
  | f :: fs, n =>
    let owner := f.plug n
    if f.tag.mark == some mark then some owner else enclosing? mark fs owner

end Trail

namespace Node

def step? (n : Node) (field : Field) (index : Option Nat) : Option (Frame × Node) := do
  let i ← n.kind.fields.findIdx? (· == field)
  let slot ← n.slots[i]?
  let frame := Frame.mk n.tag n.head (n.slots.take i).reverse .single (n.slots.drop (i + 1))
  match slot, index with
  | .one (some c), none => some (frame, c)
  | .many items, some k =>
    let c ← items[k]?.join
    some ({ frame with hole := .item (items.take k).reverse (items.drop (k + 1)) }, c)
  | _, _ => none

def follow? (n : Node) (trail : Trail) : List (Field × Option Nat) → Option (Trail × Node)
  | [] => some (trail, n)
  | (field, index) :: route => do
    let (frame, c) ← n.step? field index
    c.follow? (frame :: trail) route

end Node
end Unravel
