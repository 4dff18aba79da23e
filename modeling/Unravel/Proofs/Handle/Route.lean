import Unravel.Proofs.Handle.Local

/-! Handles are made from routes: a route goes from the root into a slot, from there into a slot of
what it holds, and so on. A handle at its end leads to the last of these slots. -/

namespace Unravel

open Node

theorem Slot.mem_children_of_at? {s : Slot Node} {i : Option Nat} {c : Node}
    (h : s.at? i = some c) :
    c ∈ s.children := by
  match s, i, h with
  | .one _, none, h => exact Slot.mem_children_one.mpr h
  | .many cs, some i, h =>
    exact Slot.mem_children_many.mpr (List.mem_of_getElem? (Option.join_eq_some_iff.mp h))

theorem Slot.at?_view {α : Type} (g : Node → α) (s : Slot Node) (i : Option Nat) :
    (s.view g).at? i = (s.at? i).map g := by
  match s, i with
  | .one _, none => rfl
  | .one _, some _ => rfl
  | .many _, none => rfl
  | .many cs, some i =>
    show (cs.map (Option.map g))[i]?.join = (cs[i]?.join).map g
    rw [List.getElem?_map]
    cases cs[i]? <;> rfl

namespace Node

variable {n c : Node} {field : Field} {index : Option Nat} {frame : Frame} {trail trail' : Trail}

theorem slot_of_step? (h : n.step? field index = some (frame, c)) :
    frame.tag = n.tag ∧ frame.head = n.head ∧
      ∃ s, n.slot? field = some s ∧ s.at? index = some c := by
  unfold step? at h
  simp only [Option.bind_eq_bind, Option.bind_eq_some_iff] at h
  obtain ⟨i, hi, s, hs, h⟩ := h
  have hslot : n.slot? field = some s := slot?_eq_some_iff.mpr ⟨i, hi, hs⟩
  match s, index, h with
  | .one (some _), none, h =>
    cases h
    exact ⟨rfl, rfl, _, hslot, rfl⟩
  | .many items, some k, h =>
    obtain ⟨c', hc', heq⟩ := Option.bind_eq_some_iff.mp h
    cases heq
    exact ⟨rfl, rfl, _, hslot, hc'⟩

theorem mem_walk_of_slot? {s : Slot Node} (hs : n.slot? field = some s)
    (hc : s.at? index = some c) : c ∈ n.walk := by
  have hchild := mem_children_of_slot? hs (Slot.mem_children_of_at? hc)
  exact mem_walk_iff.mpr (.inr (mem_walkSlots_iff.mpr ⟨c, hchild, self_mem_walk c⟩))

theorem slot_of_follow? {route : List (Field × Option Nat)}
    (h : n.follow? trail (route ++ [(field, index)]) = some (trail', c)) :
    ∃ f fs, trail' = f :: fs ∧ ∃ o ∈ n.walk, o.tag = f.tag ∧
      ∃ s, o.slot? field = some s ∧ s.at? index = some c := by
  induction route generalizing n trail with
  | nil =>
    obtain ⟨⟨frame, c'⟩, hstep, hrest⟩ := Option.bind_eq_some_iff.mp h
    cases hrest
    obtain ⟨htag, -, hslot⟩ := slot_of_step? hstep
    exact ⟨frame, trail, rfl, n, self_mem_walk n, htag.symm, hslot⟩
  | cons first route ih =>
    obtain ⟨⟨frame, c'⟩, hstep, hrest⟩ := Option.bind_eq_some_iff.mp h
    obtain ⟨-, -, s, hs, hc'⟩ := slot_of_step? hstep
    obtain ⟨f, fs, htrail, o, ho, hslot⟩ := ih hrest
    exact ⟨f, fs, htrail, o, walk_subset_walk n (mem_walk_of_slot? hs hc') ho, hslot⟩

end Node

namespace Workspace

/-- A handle that was just made from a route leads to the root or to a slot that holds its node. -/
theorem seats_handle? {w : Workspace} (hw : w.Sound) {route : List (Field × Option Nat)}
    {h : Handle} (hroute : w.handle? route = some h) : w.Seats h ∧ (route ≠ [] → w.Holds h) := by
  unfold handle? at hroute
  obtain ⟨⟨trail, n⟩, hfollow, hsome⟩ := Option.bind_eq_some_iff.mp hroute
  cases hsome
  rcases List.eq_nil_or_concat route with rfl | ⟨init, ⟨field, index⟩, rfl⟩
  · cases hfollow
    exact ⟨.root rfl rfl rfl, fun hne => (hne rfl).elim⟩
  · rw [List.concat_eq_append] at hfollow ⊢
    obtain ⟨f, fs, rfl, o, ho, htag, s, hs, hat⟩ := slot_of_follow? hfollow
    have hknown : o ∈ w.nodes := mem_nodes_of_walk w.tree_mem_nodes ho
    obtain ⟨m, hm, -⟩ := hw.placed o hknown
    obtain ⟨k, hk, -⟩ := hw.placed n (mem_nodes_of_walk hknown (mem_walk_of_slot? hs hat))
    have hfind : w.find? m = some o := hw.find?_eq_some_iff.mpr ⟨hknown, hm⟩
    have hslot : w.slot? m field = some (s.view mark) :=
      slot?_eq_some_iff.mpr ⟨o, s, hfind, hs, rfl⟩
    have hparent : f.tag.mark.getD 0 = m := by
      rw [← htag, show o.tag.mark = some m from hm]
      rfl
    have hnode : n.mark.getD 0 = k := by
      rw [Option.mem_def.mp hk]
      rfl
    have hlast : (init ++ [(field, index)]).getLast? = some (field, index) := List.getLast?_concat
    rw [← hparent] at hslot
    refine ⟨.slot rfl (by rw [hlast]; rfl) hslot fun hsome => ?_, fun _ => ?_⟩
    · rw [hlast] at hsome
      rw [isList_view]
      match s, index, hat, hsome with
      | .many _, some _, _, _ => rfl
    · refine ⟨_, field, _, rfl, by rw [hlast]; rfl, hslot, ?_⟩
      show (s.view mark).at? ((init ++ [(field, index)]).getLast?.bind (·.2)) =
        some (some (n.mark.getD 0))
      rw [hlast, Slot.at?_view, hnode]
      show (s.at? index).map mark = _
      rw [hat, Option.map_some, Option.mem_def.mp hk]

end Workspace
end Unravel
