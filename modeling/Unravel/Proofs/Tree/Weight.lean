import Unravel.Proofs.Tree.Fill

/-! A weight for trees. Every node counts, and the kinds that rules turn into more than they were
count extra; a charge `σ` is added for each slot and each item of a list. Without a charge the weight
is at most three for each node; with a charge of one it bounds how deep a walk can nest. -/

namespace Unravel

def Head.weight (σ : Nat) : Head → Nat
  | .identifier _ => 2
  | .logicalExpression _ => 3 + σ
  | .forStatement => 3
  | _ => 1

namespace Node

variable {σ : Nat}

mutual

def weigh (σ : Nat) : Node → Nat
  | .mk _ h ss => h.weight σ + weighSlots σ ss

def weighSlots (σ : Nat) : List (Slot Node) → Nat
  | [] => 0
  | .one none :: ss => σ + weighSlots σ ss
  | .one (some c) :: ss => σ + c.weigh σ + weighSlots σ ss
  | .many cs :: ss => σ + weighItems σ cs + weighSlots σ ss

def weighItems (σ : Nat) : List (Option Node) → Nat
  | [] => 0
  | none :: cs => σ + weighItems σ cs
  | some c :: cs => σ + c.weigh σ + weighItems σ cs

end

attribute [simp] weigh weighSlots weighItems

theorem weight_pos (h : Head) : 0 < h.weight σ := by
  unfold Head.weight
  split <;> omega

theorem weight_le_three (h : Head) : h.weight 0 ≤ 3 := by
  unfold Head.weight
  split <;> omega

theorem weigh_pos (n : Node) : 0 < n.weigh σ := by
  obtain ⟨t, h, ss⟩ := n
  exact Nat.add_pos_left (weight_pos h) _

theorem weighSlots_append (ss ss' : List (Slot Node)) :
    weighSlots σ (ss ++ ss') = weighSlots σ ss + weighSlots σ ss' := by
  induction ss with
  | nil => simp
  | cons s ss ih =>
    match s with
    | .one none | .one (some c) | .many cs =>
      simp only [List.cons_append, weighSlots, ih]
      omega

theorem weighSlots_cons (s : Slot Node) (ss : List (Slot Node)) :
    weighSlots σ (s :: ss) = weighSlots σ [s] + weighSlots σ ss := weighSlots_append [s] ss

theorem charge_le_weighSlots (s : Slot Node) : σ ≤ weighSlots σ [s] := by
  match s with
  | .one none | .one (some c) | .many cs =>
    simp only [weighSlots]
    omega

theorem weighItems_append (cs cs' : List (Option Node)) :
    weighItems σ (cs ++ cs') = weighItems σ cs + weighItems σ cs' := by
  induction cs with
  | nil => simp
  | cons c cs ih =>
    match c with
    | none | some c =>
      simp only [List.cons_append, weighItems, ih]
      omega

theorem weighItems_filterMap_le (cs : List (Option Node)) :
    weighItems σ ((cs.filterMap id).map some) ≤ weighItems σ cs := by
  induction cs with
  | nil => simp
  | cons c cs ih =>
    match c with
    | none =>
      rw [List.filterMap_cons_none rfl, weighItems]
      omega
    | some c =>
      have hkeep : (some c :: cs).filterMap id = c :: cs.filterMap id := rfl
      rw [hkeep, List.map_cons, weighItems, weighItems]
      omega

theorem weighItems_le_of_sublist {ns ns' : List Node} (h : ns.Sublist ns') :
    weighItems σ (ns.map some) ≤ weighItems σ (ns'.map some) := by
  induction h with
  | slnil => exact Nat.le_refl _
  | cons n _ ih =>
    simp only [List.map_cons, weighItems]
    omega
  | cons_cons n _ ih =>
    simp only [List.map_cons, weighItems]
    omega

/-! Marks do not weigh. -/

def Relabel.KeepsHeads {τ : Type} (f : Relabel τ) : Prop := ∀ seat t h s, (f seat t h s).1.2 = h

section
variable {τ : Type} {f : Relabel τ}

mutual

theorem weigh_relabel (hf : f.KeepsHeads) (seat : Option Seat) (s : τ) :
    (n : Node) → (relabel f seat n s).1.weigh σ = n.weigh σ
  | .mk t h ss => by
    simp only [relabel, weigh, hf seat t h s, weighSlots_relabel hf]

theorem weighSlots_relabel (hf : f.KeepsHeads) (h : Head) (fs : List Field) (s : τ) :
    (ss : List (Slot Node)) → weighSlots σ (relabelSlots f h fs ss s).1 = weighSlots σ ss
  | [] => rfl
  | .one none :: ss => by
    simp only [relabelSlots, weighSlots, weighSlots_relabel hf]
  | .one (some c) :: ss => by
    simp only [relabelSlots, weighSlots, weigh_relabel hf, weighSlots_relabel hf]
  | .many cs :: ss => by
    simp only [relabelSlots, weighSlots, weighItems_relabel hf, weighSlots_relabel hf]

theorem weighItems_relabel (hf : f.KeepsHeads) (seat : Option Seat) (s : τ) :
    (cs : List (Option Node)) → weighItems σ (relabelItems f seat cs s).1 = weighItems σ cs
  | [] => rfl
  | none :: cs => by
    simp only [relabelItems, weighItems, weighItems_relabel hf]
  | some c :: cs => by
    simp only [relabelItems, weighItems, weigh_relabel hf, weighItems_relabel hf]

end

end

abbrev numbering : Relabel Nat := fun _ t h next =>
  match t.mark with
  | some _ => ((t, h), next)
  | none => (({ t with mark := some next }, h), next + 1)

theorem numbering_keepsHeads : numbering.KeepsHeads := by
  rintro seat ⟨mark, loc⟩ h s
  cases mark <;> rfl

@[simp] theorem weigh_number (n : Node) (next : Nat) : (n.number next).1.weigh σ = n.weigh σ :=
  weigh_relabel numbering_keepsHeads none next n

mutual

theorem weigh_le_walk : (n : Node) → n.weigh 0 ≤ 3 * n.walk.length
  | .mk t h ss => by
    have hh := weight_le_three h
    have hs := weighSlots_le_walk ss
    simp only [weigh, walk, List.length_cons]
    omega

theorem weighSlots_le_walk : (ss : List (Slot Node)) →
    weighSlots 0 ss ≤ 3 * (walkSlots ss).length
  | [] => Nat.zero_le _
  | .one none :: ss => by
    have hs := weighSlots_le_walk ss
    simp only [weighSlots, walkSlots]
    omega
  | .one (some c) :: ss => by
    have hc := weigh_le_walk c
    have hs := weighSlots_le_walk ss
    simp only [weighSlots, walkSlots, List.length_append]
    omega
  | .many cs :: ss => by
    have hc := weighItems_le_walk cs
    have hs := weighSlots_le_walk ss
    simp only [weighSlots, walkSlots, List.length_append]
    omega

theorem weighItems_le_walk : (cs : List (Option Node)) →
    weighItems 0 cs ≤ 3 * (walkItems cs).length
  | [] => Nat.zero_le _
  | none :: cs => by
    have hs := weighItems_le_walk cs
    simp only [weighItems, walkItems]
    omega
  | some c :: cs => by
    have hc := weigh_le_walk c
    have hs := weighItems_le_walk cs
    simp only [weighItems, walkItems, List.length_append]
    omega

end

end Node

/-! A tree is lighter by what is lighter in the hole of a trail. -/

namespace Frame

open Node

variable {σ : Nat}

theorem weigh_plug_add_le {f : Frame} {n m : Node} {k : Nat} (h : m.weigh σ + k ≤ n.weigh σ) :
    (f.plug m).weigh σ + k ≤ (f.plug n).weigh σ := by
  unfold plug
  cases f.hole with
  | single =>
    simp only [weigh, weighSlots_append, weighSlots]
    omega
  | item left right =>
    simp only [weigh, weighSlots_append, weighSlots, weighItems_append, weighItems]
    omega

theorem weigh_plugAll_add_le {f : Frame} {n : Node} {ns : List Node} {k : Nat}
    (hf : f.inSequence = true) (h : weighItems σ (ns.map some) + k ≤ n.weigh σ) :
    (f.plugAll ns).weigh σ + k ≤ (f.plug n).weigh σ := by
  unfold inSequence at hf
  unfold plug plugAll
  cases hhole : f.hole with
  | single => simp [hhole] at hf
  | item left right =>
    simp only [weigh, weighSlots_append, weighSlots, weighItems_append, weighItems]
    omega

end Frame

theorem Trail.weigh_plug_add_le {σ : Nat} {trail : Trail} {n m : Node} {k : Nat}
    (h : m.weigh σ + k ≤ n.weigh σ) : (trail.plug m).weigh σ + k ≤ (trail.plug n).weigh σ := by
  induction trail generalizing n m with
  | nil => exact h
  | cons f fs ih => exact ih (Frame.weigh_plug_add_le h)

end Unravel
