import Unravel.Proofs.Hoisting.Account
import Unravel.Proofs.Rule.Move
import Unravel.Proofs.Tree.Children

/-! What the traversal does at a node, at a slot and at an item, each with the calls that it makes
for what is below and behind it. -/

namespace Unravel.Hoist

open Node

variable {limit depth : Nat} {inList : Bool} {found : Report} {t : Tag} {h : Head}
  {ss : List (Slot Node)} {c : Node} {cs : List (Option Node)}

/-! What is found. -/

theorem ne_of_finding? (hf : finding? limit inList depth found h ss = .ok none) :
    h ≠ .functionDeclaration := by
  unfold finding? at hf
  split at hf
  case h_1 => cases hf
  case h_2 => cases hf
  case h_3 hno _ => exact hno

theorem finding?_eq_some {f : Finding}
    (hf : finding? limit inList depth found h ss = .ok (some f)) :
    h = .functionDeclaration ∧ f.fate = fate limit inList depth found f.name := by
  unfold finding? at hf
  split at hf
  case h_1 =>
    cases hf
    exact ⟨rfl, rfl⟩
  case h_2 => cases hf
  case h_3 => cases hf

theorem inList_of_finding? {f : Finding}
    (hf : finding? limit inList depth found h ss = .ok (some f)) (hleaves : f.fate.leaves = true) :
    inList = true := by
  rw [(finding?_eq_some hf).2] at hleaves
  exact (deserves_fate limit depth found ⟨[], inList, f.name, default⟩).inList hleaves

/-! What remains, what is lifted out and what has been found so far. -/

/-- What becomes of a node: it stays with what remains of its slots, or it is found and is dropped or
lifted out in front of the functions below it. -/
inductive NodeLift (limit : Nat) (inList : Bool) (depth : Nat) (found : Report) (t : Tag) (h : Head)
    (ss : List (Slot Node)) : Lifted (Option Node) → Prop
  | kept {f : Option Finding} {r : Lifted (List (Slot Node))} :
    finding? limit inList depth found h ss = .ok f → (∀ g ∈ f, g.fate.leaves = false) →
    liftSlots limit (depth + 1) (found ++ f.toList) ss = .ok r →
    NodeLift limit inList depth found t h ss ⟨some (.mk t h r.rest), r.lifted, r.found⟩
  | dropped {f : Finding} :
    finding? limit inList depth found h ss = .ok (some f) → f.fate = .discarded →
    NodeLift limit inList depth found t h ss ⟨none, [], found ++ [f]⟩
  | moved {f : Finding} {r : Lifted (List (Slot Node))} :
    finding? limit inList depth found h ss = .ok (some f) → f.fate = .hoisted →
    liftSlots limit (depth + 1) (found ++ [f]) ss = .ok r →
    NodeLift limit inList depth found t h ss ⟨none, .mk t h r.rest :: r.lifted, r.found⟩

theorem liftNode_iff {q : Lifted (Option Node)} :
    liftNode limit inList depth found (.mk t h ss) = .ok q ↔
      NodeLift limit inList depth found t h ss q := by
  rw [liftNode]
  constructor
  · intro hq
    obtain ⟨f, hf, hq⟩ := bind_eq_ok.mp hq
    cases f with
    | none =>
      obtain ⟨r, hr, hq⟩ := bind_eq_ok.mp hq
      cases hq
      exact .kept hf (by simp) (by rwa [Option.toList_none, List.append_nil])
    | some f =>
      dsimp only at hq
      split at hq
      case isTrue hdiscarded =>
        cases hq
        exact .dropped hf hdiscarded
      case isFalse hkept =>
        obtain ⟨r, hr, hq⟩ := bind_eq_ok.mp hq
        split at hq
        case isTrue hhoisted =>
          cases hq
          exact .moved hf hhoisted hr
        case isFalse hstays =>
          cases hq
          refine .kept hf (fun g hg => ?_) hr
          cases hg
          cases hfate : f.fate with
          | hoisted => exact absurd hfate hstays
          | discarded => exact absurd hfate hkept
          | pinned | unresolved => rfl
  · intro hq
    cases hq with
    | @kept f r hf hstays hr =>
      refine bind_eq_ok.mpr ⟨f, hf, ?_⟩
      cases f with
      | none =>
        rw [Option.toList_none, List.append_nil] at hr
        exact bind_eq_ok.mpr ⟨r, hr, rfl⟩
      | some f =>
        have hfate := hstays f rfl
        have hkept : f.fate ≠ .discarded := fun h => by simp [h, Fate.leaves] at hfate
        have hhere : f.fate ≠ .hoisted := fun h => by simp [h, Fate.leaves] at hfate
        dsimp only
        rw [if_neg hkept]
        exact bind_eq_ok.mpr ⟨r, hr, by rw [if_neg hhere]; rfl⟩
    | dropped hf hdiscarded => exact bind_eq_ok.mpr ⟨_, hf, by dsimp only; rw [if_pos hdiscarded]; rfl⟩
    | moved hf hhoisted hr =>
      refine bind_eq_ok.mpr ⟨_, hf, ?_⟩
      dsimp only
      rw [if_neg (by simp [hhoisted])]
      exact bind_eq_ok.mpr ⟨_, hr, by rw [if_pos hhoisted]; rfl⟩

theorem liftSlots_empty_iff {q : Lifted (List (Slot Node))} :
    liftSlots limit depth found (.one none :: ss) = .ok q ↔
      ∃ r, liftSlots limit depth found ss = .ok r ∧ q = ⟨.one none :: r.rest, r.lifted, r.found⟩ := by
  simp only [liftSlots, bind_eq_ok, pure_eq_ok]

theorem liftSlots_node_iff {q : Lifted (List (Slot Node))} :
    liftSlots limit depth found (.one (some c) :: ss) = .ok q ↔
      ∃ a, liftNode limit false depth found c = .ok a ∧
        ∃ r, liftSlots limit depth a.found ss = .ok r ∧
          q = ⟨.one a.rest :: r.rest, a.lifted ++ r.lifted, r.found⟩ := by
  simp only [liftSlots, bind_eq_ok, pure_eq_ok]

theorem liftSlots_items_iff {q : Lifted (List (Slot Node))} :
    liftSlots limit depth found (.many cs :: ss) = .ok q ↔
      ∃ a, liftItems limit depth found cs = .ok a ∧
        ∃ r, liftSlots limit depth a.found ss = .ok r ∧
          q = ⟨.many a.rest :: r.rest, a.lifted ++ r.lifted, r.found⟩ := by
  simp only [liftSlots, bind_eq_ok, pure_eq_ok]

theorem liftItems_hole_iff {q : Lifted (List (Option Node))} :
    liftItems limit depth found (none :: cs) = .ok q ↔
      ∃ r, liftItems limit depth found cs = .ok r ∧ q = ⟨none :: r.rest, r.lifted, r.found⟩ := by
  simp only [liftItems, bind_eq_ok, pure_eq_ok]

theorem liftItems_node_iff {q : Lifted (List (Option Node))} :
    liftItems limit depth found (some c :: cs) = .ok q ↔
      ∃ a, liftNode limit true depth found c = .ok a ∧
        ∃ r, liftItems limit depth a.found cs = .ok r ∧
          q = ⟨a.rest.toList.map some ++ r.rest, a.lifted ++ r.lifted, r.found⟩ := by
  rw [liftItems, bind_eq_ok]
  refine exists_congr fun a => and_congr_right fun _ => ?_
  rw [bind_eq_ok]
  refine exists_congr fun r => and_congr_right fun _ => ?_
  obtain ⟨rest, ns, found'⟩ := a
  cases rest <;> exact pure_eq_ok

/-! What stands in the slot of one node. -/

theorem exists_rest {n : Node} {q : Lifted (Option Node)}
    (hq : liftNode limit false depth found n = .ok q) : ∃ m, q.rest = some m ∧ m.head = n.head := by
  obtain ⟨t, h, ss⟩ := n
  cases liftNode_iff.mp hq with
  | kept => exact ⟨_, rfl, rfl⟩
  | dropped hf hdiscarded => cases inList_of_finding? hf (hdiscarded ▸ rfl)
  | moved hf hhoisted => cases inList_of_finding? hf (hhoisted ▸ rfl)

theorem single_liftSlots {q : Lifted (List (Slot Node))}
    (hq : liftSlots limit depth found ss = .ok q) :
    q.rest.map Slot.single = ss.map Slot.single := by
  induction ss generalizing found q with
  | nil =>
    cases hq
    rfl
  | cons s ss ih =>
    match s with
    | .one none =>
      obtain ⟨r, hr, rfl⟩ := liftSlots_empty_iff.mp hq
      exact congrArg (Slot.single (.one none) :: ·) (ih hr)
    | .one (some c) =>
      obtain ⟨a, ha, r, hr, rfl⟩ := liftSlots_node_iff.mp hq
      obtain ⟨m, hm, hhead⟩ := exists_rest ha
      rw [List.map_cons, List.map_cons, ih hr, hm, Slot.single, Slot.single, Option.map_some,
        Option.map_some, hhead]
    | .many cs =>
      obtain ⟨a, ha, r, hr, rfl⟩ := liftSlots_items_iff.mp hq
      exact congrArg (none :: ·) (ih hr)

end Unravel.Hoist
