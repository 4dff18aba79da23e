import Unravel.Proofs.Jump.Carry

/-! Jumps and contexts: new marks and edits of one child leave the scope of the other children as it
is, since only the label of a node matters to it. -/

namespace Unravel

open Node

variable {s : Scope} {h : Head} {ss ss' : List (Slot Node)}

namespace Scope

theorem targets_congr (hsame : ss.map Slot.single = ss'.map Slot.single) :
    s.targets h ss = s.targets h ss' := by
  match ss, ss' with
  | [], [] => rfl
  | [], _ :: _ => cases hsame
  | _ :: _, [] => cases hsame
  | slot :: rest, slot' :: rest' =>
    obtain ⟨hslot, hrest⟩ := List.cons.inj hsame
    match rest, rest' with
    | [], _ :: _ => cases hrest
    | _ :: _, [] => cases hrest
    | _ :: _, _ :: _ => cases h <;> simp [targets]
    | [], [] =>
      match slot, slot' with
      | .one none, .one none => rfl
      | .one (some c), .one (some c') =>
        have hname : c.name? = c'.name? := name?_congr (Option.some.inj (Option.some.inj hslot))
        cases h <;> simp only [targets, hname]
      | .many _, .many _ => cases h <;> rfl
      | .one none, .one (some _) | .one (some _), .one none | .one _, .many _ | .many _, .one _ =>
        cases hslot

theorem enter_of_single (hsame : ss.map Slot.single = ss'.map Slot.single) :
    s.enter h ss = s.enter h ss' := enter_congr fun _ => leadingName?_congr hsame

end Scope

namespace Node

theorem tied_iff {n : Node} : n.tied s = true ↔
    s.targets n.head n.slots = true ∧
      ∀ c ∈ childrenOf n.slots, c.tied (s.enter n.head n.slots) = true := by
  obtain ⟨t, h, ss⟩ := n
  exact tied_mk

theorem tied_of_children {t t' : Tag} (hsame : ss.map Slot.single = ss'.map Slot.single)
    (h' : (Node.mk t h ss).tied s = true)
    (hchildren : (∀ c ∈ childrenOf ss, c.tied (s.enter h ss) = true) →
      ∀ c ∈ childrenOf ss', c.tied (s.enter h ss) = true) :
    (Node.mk t' h ss').tied s = true := by
  obtain ⟨htargets, hold⟩ := tied_mk.mp h'
  rw [tied_mk, ← Scope.targets_congr hsame, ← Scope.enter_of_single hsame]
  exact ⟨htargets, hchildren hold⟩

/-! New tags do not matter to jumps. -/

section
variable {τ : Type} {f : Relabel τ}

theorem relates_tied (hf : f.KeepsHeads) : f.Relates (fun _ => True)
    fun n n' => n'.head = n.head ∧ ∀ s : Scope, n.tied s = true → n'.tied s = true where
  next _ _ _ _ _ := trivial
  node seat t h st ss ss' _ hss := by
    have hhead : (f seat t h st).1.2 = h := hf seat t h st
    have hheads := Slot.Rel.map_view_eq (g := head) hss fun c _ c' hc => hc.1
    refine ⟨hhead, fun s hn => ?_⟩
    rw [hhead]
    refine tied_of_children (map_single_of_heads hheads.symm) hn fun hold c' hc' => ?_
    obtain ⟨c, hc, -, htied⟩ := Slot.Rel.exists_of_mem hss hc'
    exact htied _ (hold c hc)

theorem tied_relabel (hf : f.KeepsHeads) {n : Node} {s : Scope} (seat : Option Seat) (st : τ)
    (hn : n.tied s = true) : (relabel f seat n st).1.tied s = true :=
  (relate_relabel (relates_tied hf) seat st trivial n).1.2 s hn

end

theorem tied_number {n : Node} (h : n.tied s = true) (next : Nat) :
    (n.number next).1.tied s = true := tied_relabel numbering_keepsHeads none next h

theorem tied_unmarked {n : Node} (h : n.tied s = true) : n.unmarked.tied s = true :=
  tied_relabel unmarking_keepsHeads none () h

end Node

/-! Trees with a hole. -/

namespace Frame

variable {f : Frame} {n : Node} {ns : List Node}

theorem Open.enter_eq (hf : f.Open) :
    s.enter f.head (f.plug n).slots = s.enter f.head (f.plugAll ns).slots := by
  refine Scope.enter_congr fun hkind => hf.leadingName?_eq ?_
  generalize f.head = h at hkind
  cases h <;> first | rfl | cases hkind

theorem Open.targets_eq (hf : f.Open) :
    s.targets f.head (f.plug n).slots = s.targets f.head (f.plugAll ns).slots := by
  obtain ⟨t, h, before, hole, after⟩ := f
  obtain ⟨d, hd, hrole⟩ := hf
  have hname {h : Head} (hdemands : h.demands = [.maybe .name]) (hh : h.demands[before.length]? = some d) :
      False := by
    rw [hdemands] at hh
    cases before with
    | nil =>
      cases hh
      exact hrole rfl
    | cons => cases hh
  cases h with
  | breakStatement => exact (hname rfl hd).elim
  | continueStatement => exact (hname rfl hd).elim
  | _ => rfl

theorem Open.tied_plugAll (hf : f.Open) (htakes : f.Takes ns)
    (hns : ∀ s, n.tied s = true → ∀ m ∈ ns, m.tied s = true) (h : (f.plug n).tied s = true) :
    (f.plugAll ns).tied s = true := by
  obtain ⟨htargets, hchildren⟩ := tied_iff.mp h
  have hhead : (f.plugAll ns).head = f.head := rfl
  rw [tied_iff, hhead, ← hf.targets_eq, ← hf.enter_eq]
  refine ⟨htargets, fun c hc => ?_⟩
  rw [children_plug] at hchildren
  rw [children_plugAll htakes, List.append_assoc, List.mem_append, List.mem_append] at hc
  rcases hc with hc | hc | hc
  · exact hchildren c (List.mem_append_left _ hc)
  · exact hns _ (hchildren n (by simp)) c hc
  · exact hchildren c (List.mem_append_right _ (List.mem_cons_of_mem _ hc))

end Frame

namespace Trail

theorem tied_plug (trail : Trail) {c c' : Node} (hhead : c.head = c'.head)
    (h : ∀ s, c.tied s = true → c'.tied s = true) (hplug : (trail.plug c).tied s = true) :
    (trail.plug c').tied s = true := by
  induction trail generalizing c c' with
  | nil => exact h s hplug
  | cons f fs ih =>
    refine ih (c := f.plug c) rfl (fun s hs => ?_) hplug
    have hsame := map_single_of_heads (Frame.view_plug f hhead)
    refine tied_of_children hsame hs fun hold d hd => ?_
    change d ∈ childrenOf (f.plug c').slots at hd
    rw [Frame.children_plug] at hold
    rw [Frame.children_plug, List.mem_append, List.mem_cons] at hd
    rcases hd with hd | rfl | hd
    · exact hold d (List.mem_append_left _ hd)
    · exact h _ (hold c (by simp))
    · exact hold d (List.mem_append_right _ (List.mem_cons_of_mem _ hd))

end Trail
end Unravel
