import Unravel.Tree.Node

/-! Folding a tree: the result at a node is computed from the node and the results at its
children. -/

namespace Unravel.Node

/-- What a fold sees of a node: each child with its result. -/
abbrev Layer (α : Type) := Tag → Head → List (Slot (Node × α)) → α

mutual

def fold {α : Type} (f : Layer α) : Node → α
  | .mk t h ss => f t h (foldSlots f ss)

def foldSlots {α : Type} (f : Layer α) : List (Slot Node) → List (Slot (Node × α))
  | [] => []
  | .one none :: ss => .one none :: foldSlots f ss
  | .one (some c) :: ss => .one (some (c, fold f c)) :: foldSlots f ss
  | .many cs :: ss => .many (foldItems f cs) :: foldSlots f ss

def foldItems {α : Type} (f : Layer α) : List (Option Node) → List (Option (Node × α))
  | [] => []
  | none :: cs => none :: foldItems f cs
  | some c :: cs => some (c, fold f c) :: foldItems f cs

end

end Unravel.Node
