import Unravel.Tree.Trail
import Unravel.Pass

/-! What stands around a landing: the hole of a trail filled with the node that is kept, or with the
statements that are left. -/

namespace Unravel

namespace Frame

def plugAll (f : Frame) (ns : List Node) : Node :=
  let slot := match f.hole with
    | .single => .one ns.head?
    | .item left right => .many (left.reverse ++ (ns.map some ++ right))
  .mk f.tag f.head (f.before.reverse ++ slot :: f.after)

@[simp] theorem plugAll_singleton (f : Frame) (n : Node) : f.plugAll [n] = f.plug n := by
  unfold plugAll plug
  cases f.hole <;> rfl

def Takes (f : Frame) (ns : List Node) : Prop := f.inSequence = true ∨ ∃ n, ns = [n]

end Frame

namespace Trail

@[simp] theorem plug_nil (n : Node) : Trail.plug [] n = n := rfl

@[simp] theorem plug_cons (f : Frame) (fs : Trail) (n : Node) :
    Trail.plug (f :: fs) n = Trail.plug fs (f.plug n) := rfl

/-- The tree that the trail leads through, with a landing in the hole. Nothing is ever left at a
root. -/
def fill : Trail → Pass.Landing → Node
  | trail, .kept n => trail.plug n
  | f :: fs, .left ns => Trail.plug fs (f.plugAll ns)
  | [], .left _ => default

end Trail
end Unravel
