import Unravel.Proofs.Tree.Weight

/-! The names of the identifiers in a tree, one for each identifier. -/

namespace Unravel

def Head.names : Head → List String
  | .identifier name => [name]
  | _ => []

namespace Node

def names (n : Node) : List String := n.walk.filterMap name?

def namesSlots (ss : List (Slot Node)) : List String := (walkSlots ss).filterMap name?

def namesItems (cs : List (Option Node)) : List String := (walkItems cs).filterMap name?

theorem length_names_le (n : Node) : n.names.length ≤ n.walk.length :=
  List.length_filterMap_le _ _

@[simp] theorem names_mk (t : Tag) (h : Head) (ss : List (Slot Node)) :
    (Node.mk t h ss).names = h.names ++ namesSlots ss := by
  simp only [names, walk, List.filterMap_cons, namesSlots]
  cases h <;> rfl

@[simp] theorem namesSlots_nil : namesSlots [] = [] := rfl

@[simp] theorem namesSlots_none (ss : List (Slot Node)) :
    namesSlots (.one none :: ss) = namesSlots ss := rfl

@[simp] theorem namesSlots_one (c : Node) (ss : List (Slot Node)) :
    namesSlots (.one (some c) :: ss) = c.names ++ namesSlots ss := by
  simp only [names, namesSlots, walkSlots, List.filterMap_append]

@[simp] theorem namesSlots_many (cs : List (Option Node)) (ss : List (Slot Node)) :
    namesSlots (.many cs :: ss) = namesItems cs ++ namesSlots ss := by
  simp only [namesItems, namesSlots, walkSlots, List.filterMap_append]

@[simp] theorem namesItems_nil : namesItems [] = [] := rfl

@[simp] theorem namesItems_none (cs : List (Option Node)) :
    namesItems (none :: cs) = namesItems cs := rfl

@[simp] theorem namesItems_some (c : Node) (cs : List (Option Node)) :
    namesItems (some c :: cs) = c.names ++ namesItems cs := by
  simp only [names, namesItems, walkItems, List.filterMap_append]

@[simp] theorem namesSlots_append (ss ss' : List (Slot Node)) :
    namesSlots (ss ++ ss') = namesSlots ss ++ namesSlots ss' := by
  induction ss with
  | nil => rfl
  | cons s ss ih =>
    match s with
    | .one none => exact ih
    | .one (some c) => simp [ih]
    | .many cs => simp [ih]

theorem namesSlots_cons (s : Slot Node) (ss : List (Slot Node)) :
    namesSlots (s :: ss) = namesSlots [s] ++ namesSlots ss := namesSlots_append [s] ss

@[simp] theorem namesItems_append (cs cs' : List (Option Node)) :
    namesItems (cs ++ cs') = namesItems cs ++ namesItems cs' := by
  induction cs with
  | nil => rfl
  | cons c cs ih =>
    match c with
    | none => exact ih
    | some c => simp [ih]

theorem namesItems_filterMap (cs : List (Option Node)) :
    namesItems ((cs.filterMap id).map some) = namesItems cs := by
  induction cs with
  | nil => rfl
  | cons c cs ih =>
    match c with
    | none => exact ih
    | some c => exact (namesItems_some c _).trans ((congrArg (c.names ++ ·) ih).trans
        (namesItems_some c cs).symm)

theorem namesItems_subset_of_sublist {ns ns' : List Node} (h : ns.Sublist ns') :
    namesItems (ns.map some) ⊆ namesItems (ns'.map some) := by
  induction h with
  | slnil => exact List.Subset.refl _
  | cons n _ ih =>
    rw [List.map_cons, namesItems_some]
    exact List.subset_append_of_subset_right _ ih
  | cons_cons n _ ih =>
    rw [List.map_cons, List.map_cons, namesItems_some, namesItems_some]
    exact List.append_subset.mpr ⟨List.subset_append_left _ _,
      List.subset_append_of_subset_right _ ih⟩

/-! Tags do not matter. -/

section
variable {τ : Type} {f : Relabel τ}

mutual

theorem names_relabel (hf : f.KeepsHeads) (seat : Option Seat) (s : τ) :
    (n : Node) → (relabel f seat n s).1.names = n.names
  | .mk t h ss => by
    simp only [relabel, names_mk, hf seat t h s, namesSlots_relabel hf]

theorem namesSlots_relabel (hf : f.KeepsHeads) (h : Head) (fs : List Field) (s : τ) :
    (ss : List (Slot Node)) → namesSlots (relabelSlots f h fs ss s).1 = namesSlots ss
  | [] => rfl
  | .one none :: ss => by
    simp only [relabelSlots, namesSlots_none, namesSlots_relabel hf]
  | .one (some c) :: ss => by
    simp only [relabelSlots, namesSlots_one, names_relabel hf, namesSlots_relabel hf]
  | .many cs :: ss => by
    simp only [relabelSlots, namesSlots_many, namesItems_relabel hf, namesSlots_relabel hf]

theorem namesItems_relabel (hf : f.KeepsHeads) (seat : Option Seat) (s : τ) :
    (cs : List (Option Node)) → namesItems (relabelItems f seat cs s).1 = namesItems cs
  | [] => rfl
  | none :: cs => by
    simp only [relabelItems, namesItems_none, namesItems_relabel hf]
  | some c :: cs => by
    simp only [relabelItems, namesItems_some, names_relabel hf, namesItems_relabel hf]

end

end

@[simp] theorem names_number (n : Node) (next : Nat) : (n.number next).1.names = n.names :=
  names_relabel numbering_keepsHeads none next n

end Node

/-! A trail keeps what the hole has. -/

namespace Frame

open Node

theorem names_plug_subset {f : Frame} {n m : Node} (h : m.names ⊆ n.names) :
    (f.plug m).names ⊆ (f.plug n).names := by
  unfold plug
  cases f.hole with
  | single =>
    intro x
    simp only [names_mk, namesSlots_append, namesSlots_one, List.mem_append]
    grind
  | item left right =>
    intro x
    simp only [names_mk, namesSlots_append, namesSlots_many, namesItems_append, namesItems_some,
      List.mem_append]
    grind

theorem names_plugAll_subset {f : Frame} {n : Node} {ns : List Node} (hf : f.inSequence = true)
    (h : namesItems (ns.map some) ⊆ n.names) : (f.plugAll ns).names ⊆ (f.plug n).names := by
  unfold inSequence at hf
  unfold plug plugAll
  cases hhole : f.hole with
  | single => simp [hhole] at hf
  | item left right =>
    intro x
    simp only [names_mk, namesSlots_append, namesSlots_many, namesItems_append, namesItems_some,
      List.mem_append]
    grind

theorem names_subset_plug (f : Frame) (n : Node) : n.names ⊆ (f.plug n).names := by
  intro x hx
  unfold plug
  cases f.hole with
  | single => simp [hx]
  | item left right => simp [hx]

end Frame

namespace Trail

theorem names_plug_subset {trail : Trail} {n m : Node} (h : m.names ⊆ n.names) :
    (trail.plug m).names ⊆ (trail.plug n).names := by
  induction trail generalizing n m with
  | nil => exact h
  | cons f fs ih => exact ih (Frame.names_plug_subset h)

theorem names_subset_plug (trail : Trail) (n : Node) : n.names ⊆ (trail.plug n).names := by
  induction trail generalizing n with
  | nil => exact List.Subset.refl _
  | cons f fs ih => exact List.Subset.trans (f.names_subset_plug n) (ih (f.plug n))

end Trail
end Unravel
