import Unravel.Proofs.Handle.Workspace

/-! A slot is filled anew. Each node of the workspace is still there afterwards, under its mark and
with the same tag and head; what its slots hold goes by the marks, and only the filled slot holds
other ones. -/

namespace Unravel

open Node

namespace Workspace

def slot? (w : Workspace) (m : Nat) (f : Field) : Option (Slot (Option Nat)) :=
  ((w.find? m).bind (·.slot? f)).map (Slot.view mark)

/-- The slot `s` of a node gets the contents `s'`: what is not in it any more is cut out, and what
was not in it is among `ps`, whose nodes are new or do not lie around the slot. -/
structure Filling (w : Workspace) (owner : Node) (field : Field) (s s' : Slot Node)
    (cut ps : List Node) (next : Nat) : Prop where
  sound : w.Sound
  le : w.next ≤ next
  owner_mem : owner ∈ w.nodes
  slot : owner.slot? field = some s
  leaves : ∀ c ∈ s.children, c ∈ cut ∨ c ∈ s'.children
  left : ∀ c ∈ cut, c ∈ s.children
  enters : ∀ c ∈ s'.children, c ∈ ps ∨ c ∈ s.children
  origin : ∀ p ∈ ps, p.Every fun c => c ∈ w.nodes ∧ c.mark ≠ owner.mark ∨ w.New next c
  unique : ∀ p ∈ ps, ∀ q ∈ ps, ∀ c ∈ p.walk, ∀ d ∈ q.walk, w.New next c → c.mark = d.mark → c = d

namespace Filling

variable {w : Workspace} {owner : Node} {field : Field} {s s' : Slot Node} {cut ps : List Node}
  {next m : Nat}

theorem eq_owner (h : w.Filling owner field s s' cut ps next) (hm : owner.mark = some m) {o : Node}
    (ho : o ∈ w.nodes) (hom : o.mark = some m) : o = owner :=
  h.sound.same o ho owner h.owner_mem (hom.trans hm.symm)

theorem mem_nodes_of_below (h : w.Filling owner field s s' cut ps next) {d : Node}
    (hd : d ∈ walkSlots owner.slots) : d ∈ w.nodes :=
  mem_nodes_of_walk h.owner_mem (mem_walk_iff.mpr (.inr hd))

theorem putAt_of_not_around (h : w.Filling owner field s s' cut ps next) (hm : owner.mark = some m)
    {new d : Node} (hd : d ∈ w.nodes) (hnot : owner ∉ d.walk) : putAt m new d = d := by
  refine putAt_of_absent d fun c hc hcm => hnot ?_
  have hself : c = owner := h.eq_owner hm (mem_nodes_of_walk hd hc) hcm
  rwa [← hself]

theorem putAt_of_below (h : w.Filling owner field s s' cut ps next) (hm : owner.mark = some m)
    {new d : Node} (hd : d ∈ walkSlots owner.slots) : putAt m new d = d := by
  refine h.putAt_of_not_around hm (h.mem_nodes_of_below hd) fun hmem => ?_
  have hbelow : owner ∈ walkSlots owner.slots := walk_subset_walkSlots _ hd hmem
  exact not_mem_walkSlots_slots owner hbelow

abbrev result (w : Workspace) (owner : Node) (field : Field) (s' : Slot Node) (cut : List Node)
    (next : Nat) : Workspace :=
  { w with next := next }.setSlot owner field s' cut

theorem result_eq (hm : owner.mark = some m) : result w owner field s' cut next =
    { tree := putAt m (owner.withSlot field s') w.tree
      detached := w.detached.map (putAt m (owner.withSlot field s')) ++ cut
      next := next } := by
  unfold result setSlot
  rw [hm]

theorem next_result (hm : owner.mark = some m) :
    (result w owner field s' cut next).next = next := by
  rw [result_eq hm]

theorem mem_nodes_result (hm : owner.mark = some m) {c : Node} :
    c ∈ (result w owner field s' cut next).nodes ↔
      (∃ r ∈ w.tree :: w.detached, c ∈ (putAt m (owner.withSlot field s') r).walk) ∨
        ∃ q ∈ cut, c ∈ q.walk := by
  rw [result_eq hm, mem_nodes]
  constructor
  · rintro ⟨r, hr, hc⟩
    rw [← List.cons_append, ← List.map_cons (f := putAt m (owner.withSlot field s'))] at hr
    rcases List.mem_append.mp hr with hold | hcut
    · obtain ⟨r', hr', rfl⟩ := List.mem_map.mp hold
      exact .inl ⟨r', hr', hc⟩
    · exact .inr ⟨r, hcut, hc⟩
  · rintro (⟨r, hr, hc⟩ | ⟨q, hq, hc⟩)
    · refine ⟨_, ?_, hc⟩
      rw [← List.cons_append, ← List.map_cons (f := putAt m (owner.withSlot field s'))]
      exact List.mem_append_left _ (List.mem_map_of_mem hr)
    · exact ⟨q, List.mem_cons_of_mem _ (List.mem_append_right _ hq), hc⟩

section
variable (h : w.Filling owner field s s' cut ps next) (hm : owner.mark = some m)
include h hm

theorem owner_mem_result : owner.withSlot field s' ∈ (result w owner field s' cut next).nodes := by
  obtain ⟨r, hr, howner⟩ := mem_nodes.mp h.owner_mem
  refine (mem_nodes_result hm).mpr (.inl ⟨r, hr, ?_⟩)
  rcases putAt_mem_walk m (owner.withSlot field s') r howner with
    hin | ⟨o, ho, hom, hbelow⟩
  · rwa [putAt_of_mark hm] at hin
  · rw [h.eq_owner hm (mem_nodes.mpr ⟨r, hr, ho⟩) hom] at hbelow
    exact absurd hbelow (not_mem_walkSlots_slots owner)

theorem mem_result_of_child {c d : Node} (hc : c ∈ childrenOf (owner.withSlot field s').slots)
    (hd : d ∈ c.walk) : d ∈ (result w owner field s' cut next).nodes :=
  mem_nodes_of_walk (h.owner_mem_result hm)
    (mem_walk_iff.mpr (.inr (mem_walkSlots_iff.mpr ⟨c, hc, hd⟩)))

theorem mem_result {d : Node} (hd : d ∈ w.nodes) :
    putAt m (owner.withSlot field s') d ∈ (result w owner field s' cut next).nodes := by
  obtain ⟨r, hr, hdr⟩ := mem_nodes.mp hd
  rcases putAt_mem_walk m (owner.withSlot field s') r hdr with
    hin | ⟨o, ho, hom, hbelow⟩
  · exact (mem_nodes_result hm).mpr (.inl ⟨r, hr, hin⟩)
  · rw [h.eq_owner hm (mem_nodes.mpr ⟨r, hr, ho⟩) hom] at hbelow
    rw [h.putAt_of_below hm hbelow]
    -- the child that it is in stays with the owner or is cut out
    obtain ⟨c, hc, hdc⟩ := mem_walkSlots_iff.mp hbelow
    rcases children_withSlot_or h.slot s' hc with hstays | hslot
    · exact h.mem_result_of_child hm hstays hdc
    · rcases h.leaves c hslot with hcut | hback
      · exact (mem_nodes_result hm).mpr (.inr ⟨c, hcut, hdc⟩)
      · exact h.mem_result_of_child hm (children_withSlot_of_mem h.slot hback) hdc

theorem origin_entered {p c : Node} (hp : p ∈ ps) (hc : c ∈ p.walk) :
    (∃ d ∈ w.nodes, putAt m (owner.withSlot field s') d = c) ∨
      w.New next c ∧ ∃ p ∈ ps, c ∈ p.walk := by
  rcases h.origin p hp c hc with ⟨hold, -⟩ | hnew
  · refine .inl ⟨c, hold, h.putAt_of_not_around hm hold fun howner => ?_⟩
    rcases h.origin p hp owner (walk_subset_walk p hc howner) with ⟨-, hne⟩ | ⟨k, hk, hle, -⟩
    · exact hne rfl
    · have hlt : k < w.next := (h.sound.placed owner h.owner_mem).aged k hk
      omega
  · exact .inr ⟨hnew, p, hp, hc⟩

theorem origin_result {c : Node} (hc : c ∈ (result w owner field s' cut next).nodes) :
    (∃ d ∈ w.nodes, putAt m (owner.withSlot field s') d = c) ∨
      w.New next c ∧ ∃ p ∈ ps, c ∈ p.walk := by
  have hbelow {e : Node} (he : e ∈ childrenOf owner.slots) (hce : c ∈ e.walk) :
      ∃ d ∈ w.nodes, putAt m (owner.withSlot field s') d = c := by
    have hc' := mem_walkSlots_iff.mpr ⟨e, he, hce⟩
    exact ⟨c, h.mem_nodes_of_below hc', h.putAt_of_below hm hc'⟩
  rcases (mem_nodes_result hm).mp hc with ⟨r, hr, hcr⟩ | ⟨q, hq, hcq⟩
  · rcases mem_walk_putAt r hcr with hnew | ⟨d, hd, -, heq⟩
    · rcases mem_walk_iff.mp hnew with rfl | hin
      · exact .inl ⟨owner, h.owner_mem, putAt_of_mark hm⟩
      · obtain ⟨e, he, hce⟩ := mem_walkSlots_iff.mp hin
        rcases mem_children_withSlot h.slot he with hold | hslot
        · exact .inl (hbelow hold hce)
        · rcases h.enters e hslot with hp | hback
          · exact h.origin_entered hm hp hce
          · exact .inl (hbelow (mem_children_of_slot? h.slot hback) hce)
    · exact .inl ⟨d, mem_nodes.mpr ⟨r, hr, hd⟩, heq⟩
  · exact .inl (hbelow (mem_children_of_slot? h.slot (h.left q hq)) hcq)

theorem mark_becomes (d : Node) : (putAt m (owner.withSlot field s') d).mark = d.mark := by
  have hnew : (owner.withSlot field s').mark = some m :=
    (congrArg Tag.mark (tag_withSlot h.slot)).trans hm
  exact mark_putAt hnew d

theorem sound_result : (result w owner field s' cut next).Sound := by
  constructor
  · intro c hc
    rw [next_result hm]
    rcases h.origin_result hm hc with ⟨d, hd, rfl⟩ | ⟨⟨k, hk, -, hlt⟩, -⟩
    · have hplaced := (h.sound.placed d hd).mono h.le
      unfold Placed
      rwa [h.mark_becomes hm]
    · exact ⟨k, hk, hlt⟩
  · have hapart {d e : Node} (hd : d ∈ w.nodes) (he : w.New next e) (hde : d.mark = e.mark) :
        False := by
      obtain ⟨k, hk, hle, -⟩ := he
      have hlt : k < w.next := (h.sound.placed d hd).aged k (hde.trans hk)
      omega
    intro c hc d hd hcd
    rcases h.origin_result hm hc with ⟨a, ha, rfl⟩ | ⟨hnew, p, hp, hcp⟩ <;>
      rcases h.origin_result hm hd with ⟨b, hb, rfl⟩ | ⟨hnew', q, hq, hdq⟩
    · rw [h.mark_becomes hm, h.mark_becomes hm] at hcd
      rw [h.sound.same a ha b hb hcd]
    · rw [h.mark_becomes hm] at hcd
      exact (hapart ha hnew' hcd).elim
    · rw [h.mark_becomes hm] at hcd
      exact (hapart hb hnew hcd.symm).elim
    · exact h.unique p hp q hq c hcp d hdq hnew hcd

theorem mark_tree_result : (result w owner field s' cut next).tree.mark = w.tree.mark := by
  rw [result_eq hm]
  exact h.mark_becomes hm w.tree

theorem find?_result {k : Nat} {d : Node} (hd : w.find? k = some d) :
    (result w owner field s' cut next).find? k = some (putAt m (owner.withSlot field s') d) := by
  obtain ⟨hmem, hk⟩ := mem_of_find? hd
  exact (h.sound_result hm).find?_eq_some_iff.mpr
    ⟨h.mem_result hm hmem, (h.mark_becomes hm d).trans hk⟩

theorem find?_owner : w.find? m = some owner := h.sound.find?_eq_some_iff.mpr ⟨h.owner_mem, hm⟩

theorem tag_becomes {d : Node} (hd : d ∈ w.nodes) :
    (putAt m (owner.withSlot field s') d).tag = d.tag ∧
      (putAt m (owner.withSlot field s') d).head = d.head := by
  by_cases hdm : d.mark = some m
  · rw [putAt_of_mark hdm, h.eq_owner hm hd hdm]
    exact ⟨tag_withSlot h.slot, head_withSlot h.slot⟩
  · rw [putAt_of_ne hdm]
    exact ⟨rfl, rfl⟩

theorem slot?_result_self :
    (result w owner field s' cut next).slot? m field = some (s'.view mark) := by
  unfold Workspace.slot?
  rw [h.find?_result hm (h.find?_owner hm), putAt_of_mark hm, Option.bind_some,
    slot?_withSlot_self h.slot, Option.map_some]

theorem slot?_result_of_ne {k : Nat} {f : Field} {d : Node} (hd : w.find? k = some d)
    (hne : k = m → f ≠ field) : (result w owner field s' cut next).slot? k f = w.slot? k f := by
  obtain ⟨hmem, hk⟩ := mem_of_find? hd
  unfold Workspace.slot?
  rw [h.find?_result hm hd, hd, Option.bind_some, Option.bind_some]
  by_cases hkm : k = m
  · subst hkm
    rw [putAt_of_mark hk, slot?_withSlot_of_ne h.slot (hne rfl), h.eq_owner hm hmem hk]
  · have hdm : d.mark ≠ some m := fun heq => hkm (Option.some.inj (hk.symm.trans heq))
    rw [slot?_putAt hdm, Option.map_map]
    have hsame : Slot.view mark ∘ Slot.view (putAt m (owner.withSlot field s')) =
        Slot.view mark := by
      funext u
      have hview := map_view_view mark (putAt m (owner.withSlot field s')) [u]
      rw [funext (h.mark_becomes hm)] at hview
      exact List.singleton_inj.mp hview
    rw [hsame]

end

end Filling
end Workspace
end Unravel
