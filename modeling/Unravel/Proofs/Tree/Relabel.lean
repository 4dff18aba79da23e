import Mathlib.Data.List.Forall2
import Unravel.Proofs.Tree.Children

/-! A tree and its relabelled copy, node by node. A relation that goes up from the children of two
nodes to the nodes holds between a tree and its copy, whatever state is carried along. Numbering
changes marks only, and only those of nodes that have none. -/

namespace Unravel

open Node

theorem exists_of_forall₂_mem {α β : Type} {S : α → β → Prop} {as : List α} {bs : List β} {b : β}
    (h : List.Forall₂ S as bs) (hb : b ∈ bs) : ∃ a ∈ as, S a b := by
  induction h with
  | nil => cases hb
  | cons hab _ ih =>
    rcases List.mem_cons.mp hb with rfl | hrest
    · exact ⟨_, List.mem_cons_self, hab⟩
    · obtain ⟨a, ha, hS⟩ := ih hrest
      exact ⟨a, List.mem_cons_of_mem _ ha, hS⟩

inductive Slot.Rel (R : Node → Node → Prop) : Slot Node → Slot Node → Prop where
  | one {c c' : Option Node} : Option.Rel R c c' → Rel R (.one c) (.one c')
  | many {cs cs' : List (Option Node)} : List.Forall₂ (Option.Rel R) cs cs' →
      Rel R (.many cs) (.many cs')

namespace Slot.Rel

variable {R : Node → Node → Prop}

theorem of_view {f : Node → Node} {s : Slot Node} (h : ∀ c ∈ s.children, R c (f c)) :
    Rel R s (s.view f) := by
  have hitem (c : Option Node) (hc : ∀ d, c = some d → R d (f d)) : Option.Rel R c (c.map f) := by
    cases c with
    | none => exact .none
    | some d => exact .some (hc d rfl)
  cases s with
  | one c => exact .one (hitem c fun d hd => h d (Slot.mem_children_one.mpr hd))
  | many cs =>
    refine .many (List.forall₂_map_right_iff.mpr (List.forall₂_same.mpr fun c hc => ?_))
    exact hitem c fun d hd => h d (Slot.mem_children_many.mpr (hd ▸ hc))

/-- Slots go with what a map over them makes of each node by its field. -/
theorem of_slots {g : List Field → List (Slot Node) → List (Slot Node)}
    {f : Option Field → Node → Node} (hnil : ∀ fs, g fs [] = [])
    (hcons : ∀ fs s ss, g fs (s :: ss) = s.view (f fs.head?) :: g fs.tail ss) (fs : List Field)
    {ss : List (Slot Node)} (h : ∀ c ∈ childrenOf ss, ∀ field, R c (f field c)) :
    List.Forall₂ (Rel R) ss (g fs ss) := by
  induction ss generalizing fs with
  | nil =>
    rw [hnil]
    exact .nil
  | cons s ss ih =>
    rw [childrenOf_cons, List.forall_mem_append] at h
    rw [hcons]
    exact .cons (of_view fun c hc => h.1 c hc _) (ih fs.tail h.2)

theorem view_eq {α : Type} {g : Node → α} {s s' : Slot Node} (h : Rel R s s')
    (hg : ∀ c ∈ s.children, ∀ c', R c c' → g c' = g c) : s'.view g = s.view g := by
  cases h with
  | one hrel =>
    cases hrel with
    | none => rfl
    | some hR => exact congrArg (fun a => Slot.one (some a)) (hg _ (List.mem_singleton_self _) _ hR)
  | many hrel =>
    simp only [Slot.mem_children_many] at hg
    apply congrArg Slot.many
    induction hrel with
    | nil => rfl
    | cons hitem _ ih =>
      have hrest := ih fun c hc => hg c (List.mem_cons_of_mem _ hc)
      cases hitem with
      | none => exact congrArg (none :: ·) hrest
      | some hR =>
        have hfirst := hg _ List.mem_cons_self _ hR
        rw [List.map_cons, List.map_cons, hrest, Option.map_some, Option.map_some, hfirst]

theorem map_view_eq {α : Type} {g : Node → α} {ss ss' : List (Slot Node)}
    (h : List.Forall₂ (Rel R) ss ss') (hg : ∀ c ∈ childrenOf ss, ∀ c', R c c' → g c' = g c) :
    ss'.map (Slot.view g) = ss.map (Slot.view g) := by
  induction h with
  | nil => rfl
  | cons hslot _ ih =>
    rw [childrenOf_cons] at hg
    have hfirst := hslot.view_eq fun c hc => hg c (List.mem_append_left _ hc)
    have hrest := ih fun c hc => hg c (List.mem_append_right _ hc)
    rw [List.map_cons, List.map_cons, hfirst, hrest]

theorem forall₂_childrenOf {ss ss' : List (Slot Node)} (h : List.Forall₂ (Rel R) ss ss') :
    List.Forall₂ R (childrenOf ss) (childrenOf ss') := by
  induction h with
  | nil => exact .nil
  | cons hslot _ ih =>
    rw [childrenOf_cons, childrenOf_cons]
    refine List.rel_append ?_ ih
    cases hslot with
    | one hrel =>
      cases hrel with
      | none => exact .nil
      | some hR => exact .cons hR .nil
    | many hrel => exact List.rel_filterMap (fun _ _ hitem => hitem) hrel

theorem exists_of_mem {ss ss' : List (Slot Node)} (h : List.Forall₂ (Rel R) ss ss') {c' : Node}
    (hc : c' ∈ childrenOf ss') : ∃ c ∈ childrenOf ss, R c c' :=
  exists_of_forall₂_mem (forall₂_childrenOf h) hc

theorem forall₂_walkSlots {S : Node → Node → Prop} {ss ss' : List (Slot Node)}
    (h : List.Forall₂ (Rel fun c c' => List.Forall₂ S c.walk c'.walk) ss ss') :
    List.Forall₂ S (walkSlots ss) (walkSlots ss') := by
  rw [walkSlots_eq, walkSlots_eq]
  exact List.rel_flatMap (forall₂_childrenOf h) fun _ _ hwalk => hwalk

end Slot.Rel

namespace Node

section
variable {τ : Type} {f : Relabel τ} {I : τ → Prop} {R : Node → Node → Prop}

/-- The relation goes up from the children to a node and its copy, from every state that the
invariant allows. -/
structure Relabel.Relates (f : Relabel τ) (I : τ → Prop) (R : Node → Node → Prop) : Prop where
  next : ∀ seat t h s, I s → I (f seat t h s).2
  node : ∀ seat t h s ss ss', I s → List.Forall₂ (Slot.Rel R) ss ss' →
    R (.mk t h ss) (.mk (f seat t h s).1.1 (f seat t h s).1.2 ss')

mutual

theorem relate_relabel (hf : f.Relates I R) (seat : Option Seat) (s : τ) (hs : I s) : (n : Node) →
    R n (relabel f seat n s).1 ∧ I (relabel f seat n s).2
  | .mk t h ss => by
    have hslots := relate_relabelSlots hf h h.kind.fields _ (hf.next seat t h s hs) ss
    simp only [relabel]
    exact ⟨hf.node seat t h s ss _ hs hslots.1, hslots.2⟩

theorem relate_relabelSlots (hf : f.Relates I R) (h : Head) (fs : List Field) (s : τ) (hs : I s) :
    (ss : List (Slot Node)) → List.Forall₂ (Slot.Rel R) ss (relabelSlots f h fs ss s).1 ∧
      I (relabelSlots f h fs ss s).2
  | [] => ⟨.nil, hs⟩
  | .one none :: ss => by
    have hrest := relate_relabelSlots hf h fs.tail s hs ss
    simp only [relabelSlots]
    exact ⟨.cons (.one .none) hrest.1, hrest.2⟩
  | .one (some c) :: ss => by
    have hfirst := relate_relabel hf (fs.head?.map (⟨h, ·⟩)) s hs c
    have hrest := relate_relabelSlots hf h fs.tail _ hfirst.2 ss
    simp only [relabelSlots]
    exact ⟨.cons (.one (.some hfirst.1)) hrest.1, hrest.2⟩
  | .many cs :: ss => by
    have hfirst := relate_relabelItems hf (fs.head?.map (⟨h, ·⟩)) s hs cs
    have hrest := relate_relabelSlots hf h fs.tail _ hfirst.2 ss
    simp only [relabelSlots]
    exact ⟨.cons (.many hfirst.1) hrest.1, hrest.2⟩

theorem relate_relabelItems (hf : f.Relates I R) (seat : Option Seat) (s : τ) (hs : I s) :
    (cs : List (Option Node)) → List.Forall₂ (Option.Rel R) cs (relabelItems f seat cs s).1 ∧
      I (relabelItems f seat cs s).2
  | [] => ⟨.nil, hs⟩
  | none :: cs => by
    have hrest := relate_relabelItems hf seat s hs cs
    simp only [relabelItems]
    exact ⟨.cons .none hrest.1, hrest.2⟩
  | some c :: cs => by
    have hfirst := relate_relabel hf seat s hs c
    have hrest := relate_relabelItems hf seat _ hfirst.2 cs
    simp only [relabelItems]
    exact ⟨.cons (.some hfirst.1) hrest.1, hrest.2⟩

end

end

/-! Copies without marks. -/

theorem relabel_unmarking (seat : Option Seat) (n : Node) :
    relabel unmarking seat n () = (n.unmarked, ()) := by
  obtain ⟨t, h, ss⟩ := n
  rfl

theorem relabelItems_unmarking (seat : Option Seat) (cs : List (Option Node)) :
    relabelItems unmarking seat cs () = (cs.map (·.map unmarked), ()) := by
  induction cs with
  | nil => rfl
  | cons c cs ih =>
    cases c with
    | none => simp only [relabelItems, ih, List.map_cons, Option.map_none]
    | some c =>
      simp only [relabelItems, relabel_unmarking, ih, List.map_cons, Option.map_some]

theorem relabelSlots_unmarking (h : Head) (fs : List Field) (ss : List (Slot Node)) :
    relabelSlots unmarking h fs ss () = (ss.map (Slot.view unmarked), ()) := by
  induction ss generalizing fs with
  | nil => rfl
  | cons s ss ih =>
    match s with
    | .one none => simp only [relabelSlots, ih, List.map_cons, Slot.view, Option.map_none]
    | .one (some c) =>
      simp only [relabelSlots, relabel_unmarking, ih, List.map_cons, Slot.view, Option.map_some]
    | .many cs => simp only [relabelSlots, relabelItems_unmarking, ih, List.map_cons, Slot.view]

theorem unmarked_mk (t : Tag) (h : Head) (ss : List (Slot Node)) :
    (Node.mk t h ss).unmarked = .mk { t with mark := none } h (ss.map (Slot.view unmarked)) := by
  show Node.mk _ h (relabelSlots unmarking h h.kind.fields ss ()).1 = _
  rw [relabelSlots_unmarking]

/-! Numbering. -/

structure Numbered (lo : Nat) (c c' : Node) : Prop where
  bare : c'.unmarked = c.unmarked
  keeps : ∀ m, c.mark = some m → c'.mark = some m
  gives : c.mark = none → ∃ m, c'.mark = some m ∧ lo ≤ m
  same : (c.Every fun d => d.mark.isSome = true) → c' = c

theorem rel_of_forall₂_walk {S : Node → Node → Prop} {n n' : Node}
    (h : List.Forall₂ S n.walk n'.walk) : S n n' := by
  obtain ⟨t, hd, ss⟩ := n
  obtain ⟨t', hd', ss'⟩ := n'
  exact (List.forall₂_cons.mp h).1

theorem numbering_relates (lo : Nat) : numbering.Relates (lo ≤ ·) fun n n' =>
    List.Forall₂ (Numbered lo) n.walk n'.walk := by
  constructor
  · rintro seat ⟨mark, loc⟩ h s hs
    cases mark with
    | none => exact Nat.le_succ_of_le hs
    | some m => exact hs
  · rintro seat ⟨mark, loc⟩ h s ss ss' hs hss
    have hbare : ss'.map (Slot.view unmarked) = ss.map (Slot.view unmarked) :=
      Slot.Rel.map_view_eq hss fun _ _ _ hwalk => (rel_of_forall₂_walk hwalk).bare
    have hsame (hn : EverySlots (fun c => c.mark.isSome = true) ss) : ss' = ss := by
      have hview := Slot.Rel.map_view_eq (g := id) hss fun c hc c' hwalk =>
        (rel_of_forall₂_walk hwalk).same (everySlots_iff.mp hn c hc)
      rwa [map_view_self (f := id) fun _ _ => rfl, map_view_self (f := id) fun _ _ => rfl] at hview
    refine List.Forall₂.cons ?_ (Slot.Rel.forall₂_walkSlots hss)
    cases mark with
    | none =>
      refine ⟨?_, nofun, fun _ => ⟨s, rfl, hs⟩, fun hn => nomatch hn.self⟩
      rw [unmarked_mk, unmarked_mk, hbare]
    | some m =>
      refine ⟨?_, fun _ hm => hm, nofun, fun hn => ?_⟩
      · rw [unmarked_mk, unmarked_mk, hbare]
      · show Node.mk _ h ss' = _
        rw [hsame (every_mk.mp hn).2]

theorem forall₂_number (n : Node) (next : Nat) :
    List.Forall₂ (Numbered next) n.walk (n.number next).1.walk :=
  (relate_relabel (numbering_relates next) none next (Nat.le_refl next) n).1

end Node
end Unravel
