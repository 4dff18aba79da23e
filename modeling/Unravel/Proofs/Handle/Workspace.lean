import Unravel.Proofs.Handle.Put
import Unravel.Proofs.Tree.Relabel

/-! Workspaces as stores of nodes. A mark stands for one node, wherever that node is found: in the
tree, in a part cut out of it, or in both. A slot that is filled anew leaves every other node with
its tag, its head and the marks of its children. -/

namespace Unravel

open Node

theorem eq_of_count_le_one {cs : List Node} {c d : Node} {m : Nat}
    (hcount : (cs.filterMap mark).count m ≤ 1) (hc : c ∈ cs) (hd : d ∈ cs) (hcm : c.mark = some m)
    (hdm : d.mark = some m) : c = d := by
  induction cs with
  | nil => cases hc
  | cons e es ih =>
    have hpos {b : Node} (hb : b ∈ es) (hbm : b.mark = some m) : 0 < (es.filterMap mark).count m :=
      List.count_pos_iff.mpr (List.mem_filterMap.mpr ⟨b, hb, hbm⟩)
    have hhead (he : e.mark = some m) : (es.filterMap mark).count m = 0 := by
      rw [List.filterMap_cons_some he, List.count_cons_self] at hcount
      omega
    have htail : (es.filterMap mark).count m ≤ 1 := by
      have hsub : (es.filterMap mark).Sublist ((e :: es).filterMap mark) :=
        (List.sublist_cons_self e es).filterMap mark
      exact Nat.le_trans (hsub.count_le m) hcount
    rcases List.mem_cons.mp hc with rfl | hc' <;> rcases List.mem_cons.mp hd with rfl | hd'
    · rfl
    · exact absurd (hhead hcm) (Nat.ne_of_gt (hpos hd' hdm))
    · exact absurd (hhead hdm) (Nat.ne_of_gt (hpos hc' hcm))
    · exact ih htail hc' hd'

namespace Workspace

def nodes (w : Workspace) : List Node := (w.tree :: w.detached).flatMap walk

/-- Every node has a mark that was given out, and no two nodes have the same. -/
structure Sound (w : Workspace) : Prop where
  placed : ∀ c ∈ w.nodes, c.Placed w.next
  same : ∀ c ∈ w.nodes, ∀ d ∈ w.nodes, c.mark = d.mark → c = d

variable {w : Workspace}

theorem mem_nodes {c : Node} : c ∈ w.nodes ↔ ∃ r ∈ w.tree :: w.detached, c ∈ r.walk :=
  List.mem_flatMap

theorem mem_nodes_of_walk {c d : Node} (hc : c ∈ w.nodes) (hd : d ∈ c.walk) : d ∈ w.nodes := by
  obtain ⟨r, hr, hcr⟩ := mem_nodes.mp hc
  exact mem_nodes.mpr ⟨r, hr, walk_subset_walk r hcr hd⟩

theorem tree_mem_nodes (w : Workspace) : w.tree ∈ w.nodes :=
  mem_nodes.mpr ⟨w.tree, List.mem_cons_self, self_mem_walk _⟩

theorem exists_find?_of_mem {c : Node} {m : Nat} (hc : c ∈ w.nodes) (hm : c.mark = some m) :
    ∃ d, w.find? m = some d := by
  obtain ⟨r, hr, hcr⟩ := mem_nodes.mp hc
  have hfound : (r.find? m).isSome = true :=
    List.find?_isSome.mpr ⟨c, hcr, beq_iff_eq.mpr hm⟩
  have hsome : (w.find? m).isSome = true := List.findSome?_isSome_iff.mpr ⟨r, hr, hfound⟩
  exact Option.isSome_iff_exists.mp hsome

theorem mem_of_find? {d : Node} {m : Nat} (h : w.find? m = some d) :
    d ∈ w.nodes ∧ d.mark = some m := by
  obtain ⟨r, hr, hfound⟩ := List.exists_of_findSome?_eq_some h
  have hmark : (d.mark == some m) = true := by
    unfold Node.find? at hfound
    exact List.find?_some (p := fun c : Node => c.mark == some m) hfound
  exact ⟨mem_nodes.mpr ⟨r, hr, List.mem_of_find?_eq_some hfound⟩, beq_iff_eq.mp hmark⟩

theorem Sound.find?_eq_some_iff (hw : w.Sound) {n : Node} {m : Nat} :
    w.find? m = some n ↔ n ∈ w.nodes ∧ n.mark = some m := by
  refine ⟨mem_of_find?, fun ⟨hn, hm⟩ => ?_⟩
  obtain ⟨d, hd⟩ := exists_find?_of_mem hn hm
  obtain ⟨hdn, hdm⟩ := mem_of_find? hd
  rw [hd, hw.same d hdn n hn (hdm.trans hm.symm)]

theorem Sound.marked (hw : w.Sound) {c : Node} (hc : c ∈ w.nodes) :
    c.Every fun d => d.mark.isSome = true := by
  intro d hd
  obtain ⟨m, hm, -⟩ := hw.placed d (mem_nodes_of_walk hc hd)
  rw [Option.mem_def.mp hm]
  rfl

theorem sound_ofTree (tree : Node) : (ofTree tree).Sound := by
  have hnone : tree.unmarked.marks = [] :=
    marks_of_unmarked fun c hc => (exists_of_mem_walk_unmarked hc).1
  have hnumbers := numbers_number tree.unmarked 0
  rw [hnone] at hnumbers
  have hcount (m : Nat) : (tree.unmarked.number 0).1.marks.count m ≤ 1 := by
    rw [hnumbers.count m, List.count_nil]
    split_ifs <;> omega
  have hlt : ∀ m ∈ (tree.unmarked.number 0).1.marks, m < (tree.unmarked.number 0).2 := by
    intro m hm
    have hpos := List.count_pos_iff.mpr hm
    rw [hnumbers.count m, List.count_nil] at hpos
    split_ifs at hpos with hin
    · exact hin.2
    · omega
  have hof : ofTree tree = ⟨(tree.unmarked.number 0).1, [], (tree.unmarked.number 0).2⟩ := rfl
  have hnodes : (ofTree tree).nodes = (tree.unmarked.number 0).1.walk := by
    rw [nodes, hof, List.flatMap_singleton]
  have hplaced := every_placed_iff.mpr ⟨isSome_mark_number tree.unmarked 0, hlt⟩
  refine ⟨fun c hc => hplaced c (hnodes ▸ hc), fun c hc d hd hmark => ?_⟩
  rw [hnodes] at hc hd
  obtain ⟨m, hm, -⟩ := hplaced c hc
  exact eq_of_count_le_one (hcount m) hc hd hm (hmark ▸ hm)

/-! Nodes that come in. -/

def New (w : Workspace) (next : Nat) (c : Node) : Prop :=
  ∃ m, c.mark = some m ∧ w.next ≤ m ∧ m < next

structure Takes (w : Workspace) (ns ps : List Node) (next : Nat) : Prop where
  copies : List.Forall₂ (fun n p => List.Forall₂ (Numbered w.next) n.walk p.walk) ns ps
  numbers : Numbers w.next (marksItems (ns.map some)) next (marksItems (ps.map some))

theorem adopt_eq (w : Workspace) (ns : List Node) :
    (w.adopt ns).2 = { w with next := (w.adopt ns).2.next } := by
  induction ns generalizing w with
  | nil => rfl
  | cons n ns ih => exact ih { w with next := (n.number w.next).2 }

theorem takes_adopt (w : Workspace) (ns : List Node) :
    w.Takes ns (w.adopt ns).1 (w.adopt ns).2.next := by
  induction ns generalizing w with
  | nil => exact ⟨.nil, .refl _ _⟩
  | cons n ns ih =>
    have hfirst := numbers_number n w.next
    have hrest := ih { w with next := (n.number w.next).2 }
    refine ⟨.cons (forall₂_number n w.next) ?_, ?_⟩
    · refine hrest.copies.imp fun n p hwalk => hwalk.imp fun c c' hc =>
        ⟨hc.bare, hc.keeps, ?_, hc.same⟩
      intro hnone
      obtain ⟨m, hm, hle⟩ := hc.gives hnone
      exact ⟨m, hm, Nat.le_trans hfirst.le hle⟩
    · show Numbers w.next (marksItems (some n :: ns.map some)) _
        (marksItems (some (n.number w.next).1 :: _))
      rw [marksItems_some, marksItems_some]
      exact hfirst.append hrest.numbers

theorem mem_marksItems {ns : List Node} {m : Nat} :
    m ∈ marksItems (ns.map some) ↔ ∃ n ∈ ns, ∃ c ∈ n.walk, c.mark = some m := by
  rw [marksItems, walkItems_eq, List.filterMap_map, List.mem_filterMap]
  simp only [List.mem_flatMap, Function.comp_def, List.filterMap_some, id]
  constructor
  · rintro ⟨c, ⟨n, hn, hc⟩, hm⟩
    exact ⟨n, hn, c, hc, hm⟩
  · rintro ⟨n, hn, c, hc, hm⟩
    exact ⟨c, ⟨n, hn, hc⟩, hm⟩

section
variable {ns ps : List Node} {next : Nat} {P : Node → Prop} (hw : w.Sound)
  (hns : ∀ n ∈ ns, n.Every fun c => c.mark = none ∨ c ∈ w.nodes ∧ P c)
include hw hns

theorem Sound.count_of_le {m : Nat} (hm : w.next ≤ m) : (marksItems (ns.map some)).count m = 0 := by
  refine List.count_eq_zero.mpr fun hmem => ?_
  obtain ⟨n, hn, c, hc, hmark⟩ := mem_marksItems.mp hmem
  rcases hns n hn c hc with hnone | ⟨hknown, -⟩
  · rw [hnone] at hmark
    cases hmark
  · have hlt : m < w.next := (hw.placed c hknown).aged m hmark
    omega

variable (h : w.Takes ns ps next)
include h

theorem Takes.origin : ∀ p ∈ ps, p.Every fun c => c ∈ w.nodes ∧ P c ∨ w.New next c := by
  intro p hp c hc
  obtain ⟨n, hn, hwalk⟩ := exists_of_forall₂_mem h.copies hp
  obtain ⟨d, hd, hcopy⟩ := exists_of_forall₂_mem hwalk hc
  rcases hns n hn d hd with hnone | ⟨hknown, hPd⟩
  · obtain ⟨m, hm, hle⟩ := hcopy.gives hnone
    have hmem : m ∈ marksItems (ps.map some) := mem_marksItems.mpr ⟨p, hp, c, hc, hm⟩
    have hpos := List.count_pos_iff.mpr hmem
    rw [h.numbers.count m, hw.count_of_le hns hle] at hpos
    split_ifs at hpos with hin
    · exact .inr ⟨m, hm, hin⟩
    · omega
  · have hsame : c = d := hcopy.same (hw.marked hknown)
    rw [hsame]
    exact .inl ⟨hknown, hPd⟩

theorem Takes.unique {p q c d : Node} (hp : p ∈ ps) (hc : c ∈ p.walk) (hq : q ∈ ps)
    (hd : d ∈ q.walk) (hnew : w.New next c) (hmark : c.mark = d.mark) : c = d := by
  obtain ⟨m, hm, hle, -⟩ := hnew
  have hcount : (marksItems (ps.map some)).count m ≤ 1 := by
    rw [h.numbers.count m, hw.count_of_le hns hle]
    split_ifs <;> omega
  have hmem {r e : Node} (hr : r ∈ ps) (he : e ∈ r.walk) : e ∈ walkItems (ps.map some) := by
    rw [walkItems_eq, List.filterMap_map]
    exact List.mem_flatMap.mpr ⟨r, by simpa using hr, he⟩
  exact eq_of_count_le_one hcount (hmem hp hc) (hmem hq hd) hm (hmark ▸ hm)

end

end Workspace
end Unravel
