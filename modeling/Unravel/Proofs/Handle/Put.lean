import Unravel.Proofs.Sharing.Marks
import Unravel.Proofs.Tree.Children
import Unravel.Tree.Handle

/-! A node in the place of another one, wherever that one stands in a tree. What is not below it
keeps its tag, its head and the marks of its children, since the new node bears the mark of the
old one. -/

namespace Unravel

open Node

namespace Node

/-! Nodes below a node. -/

theorem mem_walk_iff {n d : Node} : d ∈ n.walk ↔ d = n ∨ d ∈ walkSlots n.slots := by
  obtain ⟨t, h, ss⟩ := n
  exact List.mem_cons

theorem mem_walkSlots_iff {ss : List (Slot Node)} {d : Node} :
    d ∈ walkSlots ss ↔ ∃ c ∈ childrenOf ss, d ∈ c.walk := by
  rw [walkSlots_eq, List.mem_flatMap]

theorem length_walk_le {d : Node} (n : Node) (hd : d ∈ n.walk) : d.walk.length ≤ n.walk.length := by
  induction n with
  | h t h ss ih =>
    rw [walk_mk] at hd ⊢
    rcases List.mem_cons.mp hd with rfl | hbelow
    · exact Nat.le_of_eq (congrArg List.length (walk_mk t h ss))
    · obtain ⟨c, hc, hdc⟩ := List.mem_flatMap.mp hbelow
      have hle : d.walk.length ≤ c.walk.length := ih c hc hdc
      have hsub : c.walk.Sublist ((childrenOf ss).flatMap walk) :=
        List.sublist_flatten_of_mem (List.mem_map_of_mem hc)
      have hlength := hsub.length_le
      rw [List.length_cons]
      omega

theorem not_mem_walkSlots_slots (n : Node) : n ∉ walkSlots n.slots := by
  obtain ⟨t, h, ss⟩ := n
  intro hmem
  obtain ⟨c, hc, hbelow⟩ := mem_walkSlots_iff.mp hmem
  have hle := length_walk_le c hbelow
  have hsub : c.walk.Sublist ((childrenOf ss).flatMap walk) :=
    List.sublist_flatten_of_mem (List.mem_map_of_mem hc)
  have hlength := hsub.length_le
  rw [walk_mk, List.length_cons] at hle
  omega

/-! Putting a node in. -/

section
variable {mark : Nat} {new : Node}

theorem putAtItems_eq (cs : List (Option Node)) :
    putAtItems mark new cs = cs.map (Option.map (putAt mark new)) :=
  items_eq_map (putAt mark new) (putAtItems mark new) rfl (fun _ => rfl) (fun _ _ => rfl) cs

theorem putAtSlots_eq (ss : List (Slot Node)) :
    putAtSlots mark new ss = ss.map (Slot.view (putAt mark new)) :=
  slots_eq_map (putAt mark new) (putAtSlots mark new) rfl (fun _ => rfl) (fun _ _ => rfl)
    (fun cs ss => by rw [putAtSlots, putAtItems_eq]) ss

theorem putAt_of_mark {n : Node} (hn : n.mark = some mark) : putAt mark new n = new := by
  obtain ⟨t, h, ss⟩ := n
  have htag : (t.mark == some mark) = true := beq_iff_eq.mpr hn
  rw [putAt, if_pos htag]

theorem putAt_of_ne {n : Node} (hn : n.mark ≠ some mark) :
    putAt mark new n = .mk n.tag n.head (n.slots.map (Slot.view (putAt mark new))) := by
  obtain ⟨t, h, ss⟩ := n
  have htag : ¬ (t.mark == some mark) = true := fun heq => hn (beq_iff_eq.mp heq)
  rw [putAt, if_neg htag, putAtSlots_eq]
  rfl

theorem putAt_of_absent (n : Node) (hn : n.Every (·.mark ≠ some mark)) : putAt mark new n = n := by
  induction n with
  | h t h ss ih =>
    have hslots : ss.map (Slot.view (putAt mark new)) = ss :=
      map_view_self fun c hc => ih c hc (hn.child hc)
    rw [putAt_of_ne hn.self, tag, head, slots, hslots]

theorem mark_putAt (hnew : new.mark = some mark) (n : Node) : (putAt mark new n).mark = n.mark := by
  by_cases hn : n.mark = some mark
  · rw [putAt_of_mark hn, hnew, hn]
  · rw [putAt_of_ne hn]
    rfl

theorem mem_walk_putAt {c : Node} (n : Node) (hc : c ∈ (putAt mark new n).walk) :
    c ∈ new.walk ∨ ∃ d ∈ n.walk, d.mark ≠ some mark ∧ putAt mark new d = c := by
  induction n with
  | h t h ss ih =>
    by_cases hn : (Node.mk t h ss).mark = some mark
    · rw [putAt_of_mark hn] at hc
      exact .inl hc
    · have hself : putAt mark new (.mk t h ss) = _ := putAt_of_ne hn
      rw [hself, walk_mk] at hc
      rcases List.mem_cons.mp hc with rfl | hbelow
      · exact .inr ⟨_, self_mem_walk _, hn, hself⟩
      · rw [slots, childrenOf_map_view, List.flatMap_map] at hbelow
        obtain ⟨e, he, hce⟩ := List.mem_flatMap.mp hbelow
        rcases ih e he hce with hin | ⟨d, hd, hrest⟩
        · exact .inl hin
        · have hwalk : d ∈ (Node.mk t h ss).walk := by
            rw [walk_mk]
            exact List.mem_cons_of_mem _ (List.mem_flatMap.mpr ⟨e, he, hd⟩)
          exact .inr ⟨d, hwalk, hrest⟩

theorem putAt_mem_walk (mark : Nat) (new : Node) {d : Node} (n : Node) (hd : d ∈ n.walk) :
    putAt mark new d ∈ (putAt mark new n).walk ∨
      ∃ o ∈ n.walk, o.mark = some mark ∧ d ∈ walkSlots o.slots := by
  induction n with
  | h t h ss ih =>
    rw [walk_mk] at hd
    rcases List.mem_cons.mp hd with rfl | hbelow
    · exact .inl (self_mem_walk _)
    · by_cases hn : (Node.mk t h ss).mark = some mark
      · refine .inr ⟨_, self_mem_walk _, hn, ?_⟩
        rw [slots, walkSlots_eq]
        exact hbelow
      · obtain ⟨e, he, hde⟩ := List.mem_flatMap.mp hbelow
        rcases ih e he hde with hin | ⟨o, ho, hrest⟩
        · rw [putAt_of_ne hn, walk_mk, slots, childrenOf_map_view, List.flatMap_map]
          exact .inl (List.mem_cons_of_mem _ (List.mem_flatMap.mpr ⟨e, he, hin⟩))
        · have hwalk : o ∈ (Node.mk t h ss).walk := by
            rw [walk_mk]
            exact List.mem_cons_of_mem _ (List.mem_flatMap.mpr ⟨e, he, ho⟩)
          exact .inr ⟨o, hwalk, hrest⟩

end

/-! The slot of a field. -/

section
variable {n : Node} {field other : Field} {s s' : Slot Node}

theorem slot?_eq_some_iff : n.slot? field = some s ↔
    ∃ i, n.kind.fields.findIdx? (· == field) = some i ∧ n.slots[i]? = some s :=
  Option.bind_eq_some_iff

theorem withSlot_eq {i : Nat} (hi : n.kind.fields.findIdx? (· == field) = some i) :
    n.withSlot field s = .mk n.tag n.head (n.slots.set i s) := by
  obtain ⟨t, h, ss⟩ := n
  unfold withSlot
  rw [hi]
  rfl

section
variable (hs : n.slot? field = some s)
include hs

theorem tag_withSlot : (n.withSlot field s').tag = n.tag := by
  obtain ⟨i, hi, -⟩ := slot?_eq_some_iff.mp hs
  rw [withSlot_eq hi]
  rfl

theorem head_withSlot : (n.withSlot field s').head = n.head := by
  obtain ⟨i, hi, -⟩ := slot?_eq_some_iff.mp hs
  rw [withSlot_eq hi]
  rfl

theorem slot?_withSlot_self : (n.withSlot field s').slot? field = some s' := by
  obtain ⟨i, hi, hslot⟩ := slot?_eq_some_iff.mp hs
  have hlt : i < n.slots.length := (List.getElem?_eq_some_iff.mp hslot).1
  have hkind : (n.withSlot field s').kind = n.kind := congrArg Head.kind (head_withSlot hs)
  refine slot?_eq_some_iff.mpr ⟨i, ?_, ?_⟩
  · rw [hkind, hi]
  · rw [withSlot_eq hi]
    exact List.getElem?_set_self hlt

theorem slot?_withSlot_of_ne (hne : other ≠ field) :
    (n.withSlot field s').slot? other = n.slot? other := by
  obtain ⟨i, hi, -⟩ := slot?_eq_some_iff.mp hs
  have hkind : (n.withSlot field s').kind = n.kind := congrArg Head.kind (head_withSlot hs)
  unfold slot?
  rw [hkind]
  cases hj : n.kind.fields.findIdx? (· == other) with
  | none => rfl
  | some j =>
    have hij : i ≠ j := by
      rintro rfl
      obtain ⟨hlt, hfirst, -⟩ := List.findIdx?_eq_some_iff_getElem.mp hi
      obtain ⟨_, hsecond, -⟩ := List.findIdx?_eq_some_iff_getElem.mp hj
      exact hne ((beq_iff_eq.mp hsecond).symm.trans (beq_iff_eq.mp hfirst))
    rw [withSlot_eq hi]
    exact List.getElem?_set_ne hij

theorem mem_children_withSlot {c : Node} (hc : c ∈ childrenOf (n.withSlot field s').slots) :
    c ∈ childrenOf n.slots ∨ c ∈ s'.children := by
  obtain ⟨i, hi, -⟩ := slot?_eq_some_iff.mp hs
  rw [withSlot_eq hi] at hc
  obtain ⟨u, hu, hcu⟩ := List.mem_flatMap.mp hc
  rcases List.mem_or_eq_of_mem_set hu with hold | rfl
  · exact .inl (List.mem_flatMap.mpr ⟨u, hold, hcu⟩)
  · exact .inr hcu

theorem mem_children_of_slot? {c : Node} (hc : c ∈ s.children) : c ∈ childrenOf n.slots := by
  obtain ⟨i, -, hslot⟩ := slot?_eq_some_iff.mp hs
  exact List.mem_flatMap.mpr ⟨s, List.mem_of_getElem? hslot, hc⟩

theorem children_withSlot_of_mem {c : Node} (hc : c ∈ s'.children) :
    c ∈ childrenOf (n.withSlot field s').slots :=
  mem_children_of_slot? (slot?_withSlot_self hs) hc

theorem children_withSlot_or (s' : Slot Node) {c : Node} (hc : c ∈ childrenOf n.slots) :
    c ∈ childrenOf (n.withSlot field s').slots ∨ c ∈ s.children := by
  obtain ⟨i, hi, hslot⟩ := slot?_eq_some_iff.mp hs
  obtain ⟨u, hu, hcu⟩ := List.mem_flatMap.mp hc
  obtain ⟨j, hj⟩ := List.mem_iff_getElem?.mp hu
  by_cases hij : i = j
  · subst hij
    rw [hslot] at hj
    cases hj
    exact .inr hcu
  · rw [withSlot_eq hi]
    have hkept : (n.slots.set i s')[j]? = some u := by rw [List.getElem?_set_ne hij, hj]
    exact .inl (List.mem_flatMap.mpr ⟨u, List.mem_of_getElem? hkept, hcu⟩)

end

theorem slot?_putAt {mark : Nat} {new : Node} (hn : n.mark ≠ some mark) :
    (putAt mark new n).slot? field = (n.slot? field).map (Slot.view (putAt mark new)) := by
  rw [putAt_of_ne hn]
  unfold slot?
  rw [show (Node.mk n.tag n.head (n.slots.map (Slot.view (putAt mark new)))).kind = n.kind from rfl]
  cases n.kind.fields.findIdx? (· == field) with
  | none => rfl
  | some i => exact List.getElem?_map

end

end Node
end Unravel
