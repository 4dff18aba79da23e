import Unravel.Proofs.Handle.Edit

/-! Sequences of edits through any number of handles. Every edit of such a sequence is refused and
changes nothing, or it changes the slot of its handle alone. -/

namespace Unravel

open Node

namespace Workspace

def Admits (w : Workspace) (h : Handle) (ns : List Node) : Prop :=
  ∀ n ∈ ns, n.Every fun c => c.mark = none ∨ c ∈ w.nodes ∧ c.mark ≠ h.parent.map (·.mark)

structure Arrives (w w' : Workspace) (n p : Node) : Prop where
  copy : List.Forall₂ (Numbered w.next) n.walk p.walk
  found : ∃ m, p.mark = some m ∧ w'.find? m = some p

/-- The slot of the handle has other nodes in the place of the handle's node. All else is as it
was. -/
structure Differs (w : Workspace) (h : Handle) (ps : List Node) (w' : Workspace) : Prop where
  root : w'.tree.mark = w.tree.mark
  node : ∀ m c, w.find? m = some c → ∃ c', w'.find? m = some c' ∧ c'.tag = c.tag ∧ c'.head = c.head
  slot : ∀ p f s, h.parent = some p → h.field = some f → w.slot? p.mark f = some s →
    w'.slot? p.mark f = some (s.splice h.index (ps.map mark))
  others : ∀ m c f, w.find? m = some c → ¬ (h.parent.map (·.mark) = some m ∧ h.field = some f) →
    w'.slot? m f = w.slot? m f

section
variable {found : Found} {ps : List Node}

theorem splice_append {α : Type} (left right : List (Option α)) (c : Option α) (as : List α) :
    (Slot.many (left ++ c :: right)).splice (some left.length) as =
      .many (left ++ as.map some ++ right) := by
  have htake : (left ++ c :: right).take left.length = left := List.take_left
  have hdrop : (left ++ c :: right).drop (left.length + 1) = right := by
    rw [List.append_cons]
    exact List.drop_left' (by rw [List.length_append, List.length_singleton])
  rw [Slot.splice, htake, hdrop]

theorem view_fill (found : Found) (ps : List Node) : (found.fill ps).view mark =
    (found.slot.view mark).splice (found.beside.map (·.1.length)) (ps.map mark) := by
  unfold Found.fill Found.slot
  match found.beside with
  | none =>
    show Slot.one (ps.head?.map mark) = .one (ps.map mark).head?
    rw [List.head?_map]
  | some (left, right) =>
    have hsplice := splice_append (left.map (Option.map mark)) (right.map (Option.map mark))
      (some found.node.mark) (ps.map mark)
    rw [List.length_map] at hsplice
    simp only [Slot.view, List.map_append, List.map_cons, Option.map_some]
    rw [hsplice, List.map_map, List.map_map]
    rfl

theorem mem_children_fill {c : Node} (hc : c ∈ (found.fill ps).children) :
    c ∈ ps ∨ c ∈ found.slot.children := by
  unfold Found.fill at hc
  unfold Found.slot
  match hbeside : found.beside with
  | none =>
    rw [hbeside, Slot.mem_children_one] at hc
    exact .inl (List.mem_of_mem_head? hc)
  | some (left, right) =>
    simp only [hbeside, Slot.mem_children_many, List.mem_append, List.mem_cons] at hc ⊢
    rcases hc with (hleft | hp) | hright
    · exact .inr (.inl hleft)
    · obtain ⟨p, hp, heq⟩ := List.mem_map.mp hp
      cases heq
      exact .inl hp
    · exact .inr (.inr (.inr hright))

theorem mem_children_slot (ps : List Node) {c : Node} (hc : c ∈ found.slot.children) :
    c = found.node ∨ c ∈ (found.fill ps).children := by
  unfold Found.slot at hc
  unfold Found.fill
  match hbeside : found.beside with
  | none =>
    rw [hbeside, Slot.mem_children_one] at hc
    exact .inl (Option.some.inj hc).symm
  | some (left, right) =>
    simp only [hbeside, Slot.mem_children_many, List.mem_append, List.mem_cons] at hc ⊢
    rcases hc with hleft | hself | hright
    · exact .inr (.inl (.inl hleft))
    · exact .inl (Option.some.inj hself)
    · exact .inr (.inr hright)

theorem isList_view {α : Type} {g : Node → α} {s : Slot Node} : (s.view g).isList = s.isList := by
  cases s <;> rfl

theorem isList_fill (found : Found) (ps : List Node) :
    (found.fill ps).isList = found.slot.isList := by
  unfold Found.fill Found.slot
  cases found.beside <;> rfl

theorem node_mem_children (found : Found) : found.node ∈ found.slot.children := by
  unfold Found.slot
  match found.beside with
  | none => exact Slot.mem_children_one.mpr rfl
  | some (left, right) => exact Slot.mem_children_many.mpr (by simp)

end

variable {w : Workspace} {h : Handle} {ns : List Node} {found : Found}

abbrev filled (w : Workspace) (found : Found) (ns : List Node) : Workspace :=
  (w.adopt ns).2.setSlot found.owner found.field (found.fill (w.adopt ns).1) [found.node]

theorem filled_eq_result : w.filled found ns = Filling.result w found.owner found.field
    (found.fill (w.adopt ns).1) [found.node] (w.adopt ns).2.next := by
  unfold filled
  rw [adopt_eq]

section
variable (hw : w.Sound) (hf : w.Finds h found) (hns : w.Admits h ns)
include hw hf hns

theorem Sound.filling : w.Filling found.owner found.field found.slot (found.fill (w.adopt ns).1)
    [found.node] (w.adopt ns).1 (w.adopt ns).2.next := by
  obtain ⟨p, hp, howner⟩ := hf.parent
  obtain ⟨hmem, hmark⟩ := mem_of_find? howner
  have hadm : ∀ n ∈ ns, n.Every fun c =>
      c.mark = none ∨ c ∈ w.nodes ∧ c.mark ≠ found.owner.mark := by
    unfold Admits at hns
    rwa [hp, Option.map_some, ← hmark] at hns
  have htakes := takes_adopt w ns
  refine ⟨hw, htakes.numbers.le, hmem, hf.slot, fun c hc => ?_, fun c hc => ?_,
    fun c hc => mem_children_fill hc, htakes.origin hw hadm, fun p hp q hq c hc d hd hnew hcd =>
    htakes.unique hw hadm hp hc hq hd hnew hcd⟩
  · rcases mem_children_slot (w.adopt ns).1 hc with rfl | hin
    · exact .inl (List.mem_singleton_self _)
    · exact .inr hin
  · rw [List.mem_singleton.mp hc]
    exact node_mem_children found

theorem Sound.filled : (w.filled found ns).Sound := by
  obtain ⟨p, hp, howner⟩ := hf.parent
  rw [filled_eq_result]
  exact (hw.filling hf hns).sound_result (mem_of_find? howner).2

theorem Sound.differs : w.Differs h (w.adopt ns).1 (w.filled found ns) := by
  obtain ⟨p, hp, howner⟩ := hf.parent
  have hm := (mem_of_find? howner).2
  have hfilling := hw.filling hf hns
  rw [filled_eq_result]
  constructor
  · exact hfilling.mark_tree_result hm
  · intro m c hc
    exact ⟨_, hfilling.find?_result hm hc, hfilling.tag_becomes hm (mem_of_find? hc).1⟩
  · intro p' f s hp' hfield hslot
    cases hp.symm.trans hp'
    cases hf.field.symm.trans hfield
    obtain ⟨o, u, ho, hu, rfl⟩ := slot?_eq_some_iff.mp hslot
    cases howner.symm.trans ho
    cases hf.slot.symm.trans hu
    rw [hfilling.slot?_result_self hm, view_fill, hf.index]
  · intro m c f hc hother
    refine hfilling.slot?_result_of_ne hm hc ?_
    rintro rfl rfl
    exact hother ⟨by rw [hp]; rfl, hf.field⟩

theorem Sound.arrives (hone : h.index = none → ns.length = 1) :
    List.Forall₂ (w.Arrives (w.filled found ns)) ns (w.adopt ns).1 := by
  obtain ⟨p, hp, howner⟩ := hf.parent
  have hm := (mem_of_find? howner).2
  have hcopies := (takes_adopt w ns).copies
  have hchild : ∀ q ∈ (w.adopt ns).1, q ∈ (found.fill (w.adopt ns).1).children := by
    intro q hq
    unfold Found.fill
    cases hbeside : found.beside with
    | none =>
      have hindex := hf.index
      rw [hbeside] at hindex
      have hlength : (w.adopt ns).1.length = 1 := hcopies.length_eq.symm.trans (hone hindex)
      obtain ⟨a, ha⟩ := List.length_eq_one_iff.mp hlength
      rw [ha] at hq ⊢
      rw [List.mem_singleton.mp hq]
      exact List.mem_singleton_self a
    | some sides =>
      exact Slot.mem_children_many.mpr
        (List.mem_append_left _ (List.mem_append_right _ (List.mem_map_of_mem hq)))
  have hfound : ∀ q ∈ (w.adopt ns).1, ∃ m, q.mark = some m ∧
      (w.filled found ns).find? m = some q := by
    intro q hq
    have hmem : q ∈ (w.filled found ns).nodes := by
      rw [filled_eq_result]
      exact (hw.filling hf hns).mem_result_of_child hm
        (children_withSlot_of_mem hf.slot (hchild q hq)) (self_mem_walk q)
    have hsound := hw.filled hf hns
    obtain ⟨m, hqm, -⟩ := hsound.placed q hmem
    exact ⟨m, hqm, hsound.find?_eq_some_iff.mpr ⟨hmem, hqm⟩⟩
  have hboth := (List.forall₂_and_left _ _).mpr ⟨hfound, hcopies.flip⟩
  exact hboth.flip.imp fun _ _ hq => ⟨hq.2, hq.1⟩

theorem Sound.seats {h' : Handle} (hseat : w.Seats h') : (w.filled found ns).Seats h' := by
  cases hseat with
  | root hparent hfield hindex => exact .root hparent hfield hindex
  | @slot p f s hparent hfield hslot hlist =>
    have hdiffers := hw.differs hf hns
    by_cases hsame : h.parent.map (·.mark) = some p.mark ∧ h.field = some f
    · obtain ⟨q, hq, hqp⟩ := Option.map_eq_some_iff.mp hsame.1
      obtain ⟨q', hq', howner⟩ := hf.parent
      cases hq.symm.trans hq'
      rw [← hqp] at hslot
      obtain ⟨o, u, ho, hu, rfl⟩ := slot?_eq_some_iff.mp hslot
      cases howner.symm.trans ho
      cases hf.field.symm.trans hsame.2
      cases hf.slot.symm.trans hu
      have hfilled := hdiffers.slot q found.field _ hq hf.field hslot
      rw [hf.index, ← view_fill, hqp] at hfilled
      refine .slot hparent hfield hfilled fun hsome => ?_
      rw [isList_view, isList_fill, ← isList_view (g := mark)]
      exact hlist hsome
    · obtain ⟨o, u, ho, -, -⟩ := slot?_eq_some_iff.mp hslot
      have hkept := hdiffers.others p.mark o f ho hsame
      exact .slot hparent hfield (hkept.trans hslot) hlist

end

end Workspace

namespace Edit

def given : Edit → List Node
  | .replace new => [new]
  | .splice new => new
  | .remove => []

theorem admits_nodes {w : Workspace} {h : Handle} {e : Edit} (he : w.Admits h e.given) :
    w.Admits h (e.nodes h) := by
  cases e with
  | replace new => exact he
  | remove => exact he
  | splice new =>
    unfold nodes
    cases h.index with
    | some i => exact he
    | none =>
      match new, he with
      | [], _ =>
        refine List.forall_mem_singleton.mpr ?_
        exact every_mk.mpr ⟨.inl rfl, everySlots_nil⟩
      | [n], he => exact he
      | n :: n' :: ns, he =>
        refine List.forall_mem_singleton.mpr ?_
        exact every_mk.mpr ⟨.inl rfl, everySlots_many.mpr ⟨everyItems_map.mpr he, everySlots_nil⟩⟩

theorem length_nodes {h : Handle} {e : Edit} (he : e.Applies h) (hi : h.index = none) :
    (e.nodes h).length = 1 := by
  cases e with
  | replace new => rfl
  | remove =>
    unfold Applies Handle.inSequence at he
    rw [hi] at he
    cases he
  | splice new =>
    unfold nodes
    rw [hi]
    match new with
    | [] => rfl
    | [n] => rfl
    | _ :: _ :: _ => rfl

theorem seats_remembered {w : Workspace} {h : Handle} (hseat : w.Seats h) (e : Edit)
    (ps : List Node) : w.Seats (e.remembered h ps) := by
  have hplace : (e.remembered h ps).parent = h.parent ∧ (e.remembered h ps).field = h.field ∧
      (e.remembered h ps).index = h.index := by
    obtain ⟨node, parent, field, index, ancestors, removed⟩ := h
    cases e with
    | replace new => exact ⟨rfl, rfl, rfl⟩
    | remove => exact ⟨rfl, rfl, rfl⟩
    | splice new => cases index <;> exact ⟨rfl, rfl, rfl⟩
  obtain ⟨hparent, hfield, hindex⟩ := hplace
  cases hseat with
  | root hp hf hi => exact .root (hparent.trans hp) (hfield.trans hf) (hindex.trans hi)
  | slot hp hf hs hlist => exact .slot (hparent.trans hp) (hfield.trans hf) hs (hindex ▸ hlist)

end Edit

namespace Desk

structure Ready (d : Desk) : Prop where
  sound : d.workspace.Sound
  seats : ∀ h ∈ d.handles, d.workspace.Seats h

/-- The desks that come about from a tree: handles are made and edits are done through them, in any
order. -/
inductive Reached (tree : Node) : Desk → Prop where
  | start : Reached tree (.ofTree tree)
  | hold {d : Desk} {h : Handle} : Reached tree d → d.workspace.Seats h → Reached tree (d.hold h)
  | edit {d : Desk} {k : Nat} {h : Handle} {e : Edit} : Reached tree d → d.handles[k]? = some h →
      d.workspace.Admits h e.given → Reached tree (d.edit k e).2

variable {d : Desk} {k : Nat} {h : Handle} {e : Edit}

theorem edit_eq (hk : d.handles[k]? = some h) : d.edit k e = (perform k h e).run d := by
  unfold edit
  rw [hk]

theorem edit_cases (hk : d.handles[k]? = some h) (hseat : d.workspace.Seats h) :
    (¬ (d.workspace.Holds h ∧ e.Applies h) ∧ ∃ fault, d.edit k e = (.error fault, d)) ∨
      (d.workspace.Holds h ∧ e.Applies h ∧ ∃ found, d.workspace.Finds h found ∧
        d.edit k e = (.ok (), d.filled k found (e.nodes h) fun ps => e.remembered h ps)) := by
  rw [edit_eq hk]
  by_cases he : e.Applies h
  · have hstuck {fault : Fault} (hnot : ¬ d.workspace.Holds h)
        (hl : d.workspace.locate h = .error fault) :
        ¬ (d.workspace.Holds h ∧ e.Applies h) ∧
          ∃ fault, (perform k h e).run d = (.error fault, d) :=
      ⟨fun hopen => hnot hopen.1, fault, run_perform_error hl he⟩
    rcases Workspace.locate_cases hseat with ⟨hroot, hl⟩ | ⟨-, hnot, hl⟩ | ⟨-, hnot, hl⟩ |
      ⟨hholds, found, hl, hfinds⟩
    · refine .inl (hstuck ?_ hl)
      rintro ⟨p, _, _, hp, -⟩
      rw [hroot] at hp
      cases hp
    · exact .inl (hstuck hnot hl)
    · exact .inl (hstuck hnot hl)
    · obtain ⟨p, hp, -⟩ := hfinds.parent
      exact .inr ⟨hholds, he, found, hfinds,
        run_perform_ok hk hl (Option.isSome_iff_exists.mpr ⟨p, hp⟩) he⟩
  · exact .inl ⟨fun hopen => he hopen.2, _, run_perform_refused he⟩

theorem Ready.edit (hd : d.Ready) (hk : d.handles[k]? = some h)
    (hadm : d.workspace.Admits h e.given) : (d.edit k e).2.Ready := by
  have hmem : h ∈ d.handles := List.mem_of_getElem? hk
  rcases edit_cases (e := e) hk (hd.seats h hmem) with ⟨-, fault, heq⟩ |
    ⟨-, -, found, hfinds, heq⟩
  · rw [heq]
    exact hd
  · have hns := Edit.admits_nodes hadm
    rw [heq]
    refine ⟨hd.sound.filled hfinds hns, fun h' hh' => ?_⟩
    rcases List.mem_or_eq_of_mem_set hh' with hold | rfl
    · exact hd.sound.seats hfinds hns (hd.seats h' hold)
    · exact e.seats_remembered (hd.sound.seats hfinds hns (hd.seats h hmem)) _

theorem Reached.ready {tree : Node} (hd : Reached tree d) : d.Ready := by
  induction hd with
  | start => exact ⟨Workspace.sound_ofTree tree, nofun⟩
  | @hold d h _ hseat ih =>
    refine ⟨ih.sound, fun h' hh' => ?_⟩
    rcases List.mem_append.mp hh' with hold | hnew
    · exact ih.seats h' hold
    · rw [List.mem_singleton.mp hnew]
      exact hseat
  | edit _ hk hadm ih => exact ih.edit hk hadm

/-- After any edits through any handles, an edit is refused and changes neither the trees nor the
handles, or it puts its nodes into the slot of its handle and leaves all other slots of all nodes as
they were. It is refused exactly if the slot no longer holds the node, or if a node is to be removed
that is not in a list. -/
theorem edit_refused_or_local {tree : Node} (hd : Reached tree d) (hk : d.handles[k]? = some h) :
    (¬ (d.workspace.Holds h ∧ e.Applies h) → ∃ fault, d.edit k e = (.error fault, d)) ∧
      (d.workspace.Holds h ∧ e.Applies h → d.workspace.Admits h e.given →
        ∃ ps d', d.edit k e = (.ok (), d') ∧
          List.Forall₂ (d.workspace.Arrives d'.workspace) (e.nodes h) ps ∧
          d.workspace.Differs h ps d'.workspace ∧
          d'.handles = d.handles.set k (e.remembered h ps)) := by
  have hready := hd.ready
  have hseat := hready.seats h (List.mem_of_getElem? hk)
  rcases edit_cases (e := e) hk hseat with ⟨hnot, hfault⟩ | ⟨hholds, he, found, hfinds, heq⟩
  · exact ⟨fun _ => hfault, fun hopen => (hnot hopen).elim⟩
  · refine ⟨fun hnot => (hnot ⟨hholds, he⟩).elim, fun _ hadm => ⟨_, _, heq, ?_, ?_, rfl⟩⟩
    · exact hready.sound.arrives hfinds (Edit.admits_nodes hadm) (Edit.length_nodes he)
    · exact hready.sound.differs hfinds (Edit.admits_nodes hadm)

/-! Two statements, and handles on both. -/

def statements : Node :=
  .program (.fresh none) [some (.expressionStatement (.fresh none) (.identifier (.fresh none) "a")),
    some (.expressionStatement (.fresh none) (.identifier (.fresh none) "b"))]

def onStatement (mark index : Nat) : Handle where
  node := ⟨mark, "ExpressionStatement"⟩
  parent := some ⟨0, "Program"⟩
  field := some .body
  index := some index
  ancestors := ["Program"]

/-- The desk with a handle on each of the two statements. -/
def twoHandles : Desk := ((ofTree statements).hold (onStatement 1 0)).hold (onStatement 3 1)

theorem body_statements : twoHandles.workspace.slot? 0 .body =
    some (.many [some (some 1), some (some 3)]) := rfl

theorem reached_twoHandles : Reached statements twoHandles :=
  .hold (.hold .start (.slot rfl rfl body_statements fun _ => rfl))
    (.slot rfl rfl body_statements fun _ => rfl)

def splicing : Edit := .splice [.emptyStatement (.fresh none), .emptyStatement (.fresh none)]

theorem splicing_statements : ∃ (ps : List Node) (d' : Desk),
    twoHandles.edit 0 splicing = (.ok (), d') ∧ ps.length = 2 ∧
      d'.workspace.slot? 0 .body =
        some (.many ((ps.map mark).map some ++ [some (some 3)])) := by
  have hholds : twoHandles.workspace.Holds (onStatement 1 0) :=
    ⟨_, _, _, rfl, rfl, body_statements, rfl⟩
  have happlies : splicing.Applies (onStatement 1 0) := trivial
  have hadm : twoHandles.workspace.Admits (onStatement 1 0) splicing.given := by
    intro n hn
    rcases List.mem_pair.mp hn with rfl | rfl <;> exact every_mk.mpr ⟨.inl rfl, everySlots_nil⟩
  have hk : twoHandles.handles[0]? = some (onStatement 1 0) := rfl
  obtain ⟨ps, d', heq, harrives, hdiffers, -⟩ :=
    (edit_refused_or_local reached_twoHandles hk).2 ⟨hholds, happlies⟩ hadm
  exact ⟨ps, d', heq, harrives.length_eq.symm, hdiffers.slot _ _ _ rfl rfl body_statements⟩

end Desk
end Unravel
