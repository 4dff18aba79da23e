import Unravel.Proofs.Grammar.Structure
import Unravel.Proofs.Sharing.Marks

/-! Collapsing a factory drops nodes and makes new ones, and hoisting moves them: neither puts one at
a second position. -/

namespace Unravel

open Node

namespace Factory

theorem marks_returning (name : String) (c : Option Node) :
    (marksItems [returning name c]).Sublist (marksItems [c]) := by
  unfold returning
  split
  · simp [Tag.fresh]
  · exact .refl _

theorem marks_collapsedBody {name : String} {body body' : List (Option Node)}
    (h : collapsedBody? name body = .ok (some body')) :
    (marksItems body').Sublist (marksItems body) := by
  unfold collapsedBody? at h
  split at h
  · rename_i last hlast
    split at h
    · cases h
    · obtain ⟨array, -, hrest⟩ := bind_eq_ok.mp h
      cases array with
      | none => cases hrest
      | some array =>
        dsimp only at hrest
        split at hrest
        · cases hrest
          have hbody : body.dropLast ++ [last] = body := List.dropLast_append_getLast? last hlast
          rw [← hbody, marksItems_append, marksItems_append, List.dropLast_concat]
          exact (marksItems_sublist (List.eraseIdx_sublist _ _)).append (marks_returning array last)
        · cases hrest
  · cases h

theorem marks_collapseHere (n : Node) : (collapseHere n).marks.Sublist n.marks := by
  rcases collapseHere_cases n with heq | ⟨t, id, params, u, body, name, body', rfl, hbody, heq⟩
  · rw [heq]
  · have hless := marks_collapsedBody hbody
    rw [heq]
    simp only [marks_mk, marksSlots_cons, marks_one, marks_many]
    exact .append (.refl _) (.append (.refl _) (.append (.refl _)
      (.append (.append (.refl _) (.append hless (.refl _))) (.refl _))))

mutual

theorem marks_collapseAll : (n : Node) → (collapseAll n).marks.Sublist n.marks
  | .mk t h ss => by
    have hhere := marks_collapseHere (.mk t h (collapseSlots ss))
    rw [marks_mk] at hhere
    rw [collapseAll, marks_mk]
    exact hhere.trans (.append (.refl _) (marks_collapseSlots ss))

theorem marks_collapseSlots : (ss : List (Slot Node)) →
    (marksSlots (collapseSlots ss)).Sublist (marksSlots ss)
  | [] => .refl _
  | .one none :: ss => marks_collapseSlots ss
  | .one (some c) :: ss => by
    simp only [collapseSlots, marksSlots_cons, marks_one]
    exact (marks_collapseAll c).append (marks_collapseSlots ss)
  | .many cs :: ss => by
    simp only [collapseSlots, marksSlots_cons, marks_many]
    exact (marks_collapseItems cs).append (marks_collapseSlots ss)

theorem marks_collapseItems : (cs : List (Option Node)) →
    (marksItems (collapseItems cs)).Sublist (marksItems cs)
  | [] => .refl _
  | none :: cs => marks_collapseItems cs
  | some c :: cs => by
    simp only [collapseItems, marksItems_some]
    exact (marks_collapseAll c).append (marks_collapseItems cs)

end

theorem count_collapse_le {tree tree' : Node} {names : List String}
    (h : collapse tree = .ok (tree', names)) (m : Nat) : tree'.marks.count m ≤ tree.marks.count m := by
  obtain ⟨found, -, hrest⟩ := bind_eq_ok.mp h
  cases hrest
  exact (marks_collapseAll tree).count_le m

end Factory

namespace Hoist

variable {limit : Nat}

mutual

theorem count_liftNode_le (m : Nat) (inList : Bool) : (depth : Nat) → (found : Report) → (n : Node) →
    (r : Lifted (Option Node)) → liftNode limit inList depth found n = .ok r →
    (marksItems (r.rest.toList.map some)).count m + (marksItems (r.lifted.map some)).count m ≤
      n.marks.count m
  | depth, found, .mk t h ss, r, hr => by
    cases liftNode_iff.mp hr with
    | kept _ _ hq =>
      have hless := count_liftSlots_le m (depth + 1) _ ss _ hq
      simp only [Option.toList_some, List.map_cons, List.map_nil, marksItems_some, marks_mk,
        marksItems_nil, List.count_append, List.append_nil]
      omega
    | dropped => exact Nat.zero_le _
    | moved _ _ hq =>
      have hless := count_liftSlots_le m (depth + 1) _ ss _ hq
      simp only [Option.toList_none, List.map_cons, List.map_nil, marksItems_nil, marksItems_some,
        marks_mk, List.count_append, List.count_nil]
      omega

theorem count_liftSlots_le (m : Nat) : (depth : Nat) → (found : Report) → (ss : List (Slot Node)) →
    (r : Lifted (List (Slot Node))) → liftSlots limit depth found ss = .ok r →
    (marksSlots r.rest).count m + (marksItems (r.lifted.map some)).count m ≤ (marksSlots ss).count m
  | depth, found, [], r, hr => by
    cases hr
    exact Nat.zero_le _
  | depth, found, .one none :: ss, r, hr => by
    obtain ⟨q, hq, rfl⟩ := liftSlots_empty_iff.mp hr
    exact count_liftSlots_le m depth found ss q hq
  | depth, found, .one (some c) :: ss, r, hr => by
    obtain ⟨p, hp, q, hq, rfl⟩ := liftSlots_node_iff.mp hr
    have hfirst := count_liftNode_le m false depth found c p hp
    have hlater := count_liftSlots_le m depth p.found ss q hq
    have hone : (Slot.one p.rest).marks = marksItems (p.rest.toList.map some) := by
      cases p.rest <;> simp
    simp only [marksSlots_cons, marks_one, hone, List.map_append, marksItems_append,
      List.count_append]
    omega
  | depth, found, .many cs :: ss, r, hr => by
    obtain ⟨p, hp, q, hq, rfl⟩ := liftSlots_items_iff.mp hr
    have hfirst := count_liftItems_le m depth found cs p hp
    have hlater := count_liftSlots_le m depth p.found ss q hq
    simp only [marksSlots_cons, marks_many, List.map_append, marksItems_append, List.count_append]
    omega

theorem count_liftItems_le (m : Nat) : (depth : Nat) → (found : Report) →
    (cs : List (Option Node)) → (r : Lifted (List (Option Node))) →
    liftItems limit depth found cs = .ok r →
    (marksItems r.rest).count m + (marksItems (r.lifted.map some)).count m ≤ (marksItems cs).count m
  | depth, found, [], r, hr => by
    cases hr
    exact Nat.zero_le _
  | depth, found, none :: cs, r, hr => by
    obtain ⟨q, hq, rfl⟩ := liftItems_hole_iff.mp hr
    exact count_liftItems_le m depth found cs q hq
  | depth, found, some c :: cs, r, hr => by
    obtain ⟨p, hp, q, hq, rfl⟩ := liftItems_node_iff.mp hr
    have hfirst := count_liftNode_le m true depth found c p hp
    have hlater := count_liftItems_le m depth p.found cs q hq
    simp only [List.map_append, marksItems_append, marksItems_some, List.count_append]
    omega

end

theorem count_prepend {ns : List Node} {tree tree' : Node} (h : prepend ns tree = .ok tree')
    (m : Nat) : tree'.marks.count m = (marksItems (ns.map some)).count m + tree.marks.count m := by
  unfold prepend at h
  split at h
  · cases h
    simp only [marks_mk, marksSlots_cons, marks_many, marksItems_append, List.count_append]
    omega
  · cases h
    simp only [marks_mk, marksSlots_cons, marks_many, marksItems_append, List.count_append]
    omega
  · cases h

theorem count_hoist_le (limit : Nat) (tree : Node) (m : Nat) :
    (hoist limit tree).1.marks.count m ≤ tree.marks.count m := by
  unfold hoist
  split
  · exact Nat.le_refl _
  · rename_i r hr
    have hless := count_liftNode_le m false 0 [] tree r hr
    obtain ⟨root, hroot, -⟩ := exists_rest hr
    rw [hroot, Option.toList_some, List.map_singleton, marksItems_some, marksItems_nil,
      List.append_nil] at hless
    simp only [hroot, Option.getD_some]
    split
    · rename_i hprepend
      rw [count_prepend hprepend]
      omega
    · dsimp only
      omega

end Hoist
end Unravel
