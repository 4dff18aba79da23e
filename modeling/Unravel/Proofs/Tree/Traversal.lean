import Mathlib.Algebra.GroupWithZero.Nat
import Mathlib.Data.List.Flatten
import Mathlib.Data.Option.Basic
import Unravel.Tree.Query
import Unravel.Proofs.Tree.Position

/-! Traversals. The walk of a tree lists all its nodes in pre-order, and the scope of a node lists
those below it that no function separates from it; what is asked of a scope is thereby asked of
positions. Both are also what a loop with a stack comes upon. -/

namespace Unravel

/-- A loop that takes the topmost entry off a stack and puts there what the entry leads to, which is
smaller than the entry, all taken together. -/
structure Worklist (α : Type) where
  next : α → List α
  size : α → Nat
  shrinks : ∀ a, ((next a).map size).sum < size a

namespace Worklist

variable {α : Type}

def run (w : Worklist α) : List α → List α
  | [] => []
  | a :: stack => a :: w.run (w.next a ++ stack)
termination_by stack => (stack.map w.size).sum
decreasing_by
  have hless := w.shrinks a
  simp only [List.map_append, List.sum_append, List.map_cons, List.sum_cons]
  omega

/-- A loop with a stack visits what the recursion visits, in the same order. -/
theorem run_eq_flatMap (w : Worklist α) {visit : α → List α}
    (hvisit : ∀ a, visit a = a :: (w.next a).flatMap visit) (stack : List α) :
    w.run stack = stack.flatMap visit := by
  fun_induction w.run stack with
  | case1 => rfl
  | case2 a stack ih =>
    rw [ih, List.flatMap_append, List.flatMap_cons, hvisit a, List.cons_append]

theorem any_run (w : Worklist α) {test found : α → Bool}
    (hfound : ∀ a, found a = (test a || (w.next a).any found)) (stack : List α) :
    (w.run stack).any test = stack.any found := by
  fun_induction w.run stack with
  | case1 => rfl
  | case2 a stack ih =>
    rw [List.any_cons, ih, List.any_append, List.any_cons, hfound a, Bool.or_assoc]

end Worklist

namespace Node

theorem walk_eq (n : Node) : n.walk = n :: n.children.flatMap walk := by
  obtain ⟨t, h, ss⟩ := n
  exact walk_mk t h ss

theorem reach_eq (n : Node) :
    n.reach = n :: (if n.isFunction then [] else n.children).flatMap reach := by
  obtain ⟨t, h, ss⟩ := n
  rw [reach, reachSlots_eq]
  show _ :: (if h.kind.isFunction then [] else _) =
    _ :: (if h.kind.isFunction then [] else childrenOf ss).flatMap reach
  split <;> rfl

theorem scope_eq (n : Node) : n.scope = n.children.flatMap reach := reachSlots_eq n.slots

theorem sum_walk_children (n : Node) :
    (n.children.map fun c => c.walk.length).sum < n.walk.length := by
  rw [walk_eq n, List.length_cons, List.length_flatMap]
  exact Nat.lt_succ_self _

end Node

namespace Worklist

def whole : Worklist Node where
  next := Node.children
  size n := n.walk.length
  shrinks := Node.sum_walk_children

def outside : Worklist Node where
  next n := if n.isFunction then [] else n.children
  size n := n.walk.length
  shrinks n := by
    split
    · exact List.length_pos_of_mem n.self_mem_walk
    · exact n.sum_walk_children

end Worklist

namespace Node

/-- The position lies below the root, and no function stands strictly between the two. -/
def InScope (n : Node) (p : Position) : Prop :=
  p ≠ [] ∧ ∀ d, n.Between p d → d.isFunction = false

variable {n c : Node} {i : Nat} {p : Position}

theorem inScope_cons (hc : n.children[i]? = some c) :
    n.InScope (i :: p) ↔ ∀ d, c.Above p d → d.isFunction = false := by
  simp only [InScope, between_cons hc, ne_eq, List.cons_ne_nil, not_false_eq_true, true_and]

/-! The order of the walk. -/

theorem walk_inPreorder (n : Node) : n.InPreorder (fun _ => True) n.walk := by
  induction n with
  | h t h ss ih =>
    rw [walk_eq]
    exact (inPreorder_below (n := .mk t h ss) ih fun _ _ _ _ => Iff.rfl).cons trivial

theorem reach_inPreorder (n : Node) :
    n.InPreorder (fun p => ∀ d, n.Above p d → d.isFunction = false) n.reach := by
  induction n with
  | h t h ss ih =>
    have hroot : ∀ d, (Node.mk t h ss).Above [] d → d.isFunction = false :=
      fun d habove => absurd habove not_above_nil
    rw [reach_eq]
    split
    · -- the function stands on the way to everything below it
      rename_i hfunction
      refine (inPreorder_nil fun p hsome ⟨hne, hall⟩ => ?_).cons hroot
      obtain ⟨i, q, rfl⟩ := List.exists_cons_of_ne_nil hne
      obtain ⟨d, hd⟩ := Option.isSome_iff_exists.mp hsome
      obtain ⟨c, hc, -⟩ := at?_cons_eq_some.mp hd
      rw [hall _ ((above_cons hc).mpr (.inl rfl))] at hfunction
      cases hfunction
    · rename_i hfunction
      refine (inPreorder_below (n := .mk t h ss) ih fun i c p hc => ?_).cons hroot
      simp only [above_cons hc]
      constructor
      · exact fun hall d habove => hall d (.inr habove)
      · rintro hall d (rfl | habove)
        · exact (Bool.not_eq_true _).mp hfunction
        · exact hall d habove

theorem scope_inPreorder (n : Node) : n.InPreorder n.InScope n.scope := by
  rw [scope_eq]
  refine inPreorder_below (fun c _ => c.reach_inPreorder) fun i c p hc => ?_
  simp only [between_cons hc]

theorem reach_sublist (n : Node) : n.reach.Sublist n.walk := by
  induction n with
  | h t h ss ih =>
    rw [reach_eq, walk_eq]
    refine List.Sublist.cons_cons _ ?_
    split
    · exact List.nil_sublist _
    · exact List.Sublist.flatMap_right _ ih

theorem scope_sublist (n : Node) : n.scope.Sublist n.walk.tail := by
  rw [scope_eq, walk_eq, List.tail_cons]
  exact List.Sublist.flatMap_right _ fun c _ => c.reach_sublist

theorem occursOnce_iff : n.OccursOnce ↔ n.walk.Nodup := by
  refine ⟨n.walk_inPreorder.nodup, fun hnodup p q c hp hq => ?_⟩
  obtain ⟨ps, -, hmem, hmap⟩ := n.walk_inPreorder
  have hps : (ps.map n.at?).Nodup := by
    rw [hmap]
    exact hnodup.map (Option.some_injective _)
  have hlisted {p : Position} (hp : n.at? p = some c) : p ∈ ps := (hmem p).mpr ⟨hp ▸ rfl, trivial⟩
  exact List.inj_on_of_nodup_map hps (hlisted hp) (hlisted hq) (hp.trans hq.symm)

/-! What is asked of the scope. -/

theorem any_scope {f : Node → Bool} :
    n.scope.any f = true ↔ ∃ p c, n.InScope p ∧ n.at? p = some c ∧ f c = true := by
  rw [List.any_eq_true]
  constructor
  · rintro ⟨c, hc, hf⟩
    obtain ⟨p, hat, hp⟩ := n.scope_inPreorder.mem_iff.mp hc
    exact ⟨p, c, hp, hat, hf⟩
  · rintro ⟨p, c, hp, hat, hf⟩
    exact ⟨c, n.scope_inPreorder.mem_iff.mpr ⟨p, hat, hp⟩, hf⟩

/-- The walk and the scope are what the loops come upon. The walk has the node at each position once
and in order; the scope has, in the same order, those below the root that no function separates from
it, and what is asked of it is asked of them. -/
theorem traversals_spec (n : Node) :
    (Worklist.whole.run [n] = n.walk ∧ Worklist.outside.run n.children = n.scope) ∧
    n.InPreorder (fun _ => True) n.walk ∧ (n.OccursOnce ↔ n.walk.Nodup) ∧
    n.InPreorder n.InScope n.scope ∧ n.scope.Sublist n.walk.tail ∧
    (n.containsReturn = true ↔
      ∃ p c, n.InScope p ∧ n.at? p = some c ∧ c.kind = .returnStatement) ∧
    (n.usesFunctionContext = true ↔ ∃ p c, n.InScope p ∧ n.at? p = some c ∧
      (c.kind = .thisExpression ∨ c.name? = some "arguments")) := by
  refine ⟨⟨?_, ?_⟩, n.walk_inPreorder, occursOnce_iff, n.scope_inPreorder, n.scope_sublist, ?_, ?_⟩
  · rw [Worklist.run_eq_flatMap _ walk_eq, List.flatMap_singleton]
  · rw [Worklist.run_eq_flatMap _ reach_eq, scope_eq]
  · simp only [containsReturn, any_scope, beq_iff_eq]
  · simp only [usesFunctionContext, any_scope, Bool.or_eq_true, beq_iff_eq]

end Node
end Unravel
