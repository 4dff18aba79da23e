import Unravel.Factory
import Unravel.Proofs.Grammar.Safe
import Unravel.Proofs.Hoisting.Lift

/-! Collapsing factories and hoisting functions keep to the grammar, and they give a result on every
well-kinded program. -/

namespace Unravel

open Node

def Node.Fine (q : Head → Prop) (c : Node) : Prop := c.Conforms ∧ q c.head

namespace Factory

variable {q : Head → Prop} {name : String} {body body' : List (Option Node)}

theorem head_collapseHere (n : Node) : (collapseHere n).head = n.head := by
  unfold collapseHere
  split
  · split <;> rfl
  · rfl

theorem head_collapseAll (n : Node) : (collapseAll n).head = n.head := by
  obtain ⟨t, h, ss⟩ := n
  rw [collapseAll, head_collapseHere]
  rfl

theorem collapseItems_eq (cs : List (Option Node)) : collapseItems cs = cs.map (·.map collapseAll) :=
  items_eq_map collapseAll collapseItems rfl (fun _ => rfl) (fun _ _ => rfl) cs

theorem collapseSlots_eq (ss : List (Slot Node)) : collapseSlots ss = ss.map (Slot.view collapseAll) :=
  slots_eq_map collapseAll collapseSlots rfl (fun _ => rfl) (fun _ _ => rfl)
    (fun cs ss => by rw [collapseSlots, collapseItems_eq]) ss

theorem childrenOf_collapseSlots (ss : List (Slot Node)) :
    childrenOf (collapseSlots ss) = (childrenOf ss).map collapseAll := by
  rw [collapseSlots_eq, childrenOf_map_view]

theorem heads_collapseSlots (ss : List (Slot Node)) :
    (collapseSlots ss).map Slot.heads = ss.map Slot.heads := by
  rw [collapseSlots_eq, List.map_map]
  refine List.map_congr_left fun s _ => ?_
  exact Slot.Rel.view_eq (Slot.Rel.of_view fun _ _ => rfl) fun c _ c' hc => hc ▸ head_collapseAll c

/-- The statements of a collapsed body stood in the body, or they return another name than before. -/
theorem mem_collapsedBody? (h : collapsedBody? name body = .ok (some body')) {c : Option Node}
    (hc : c ∈ body') : c ∈ body ∨ ∃ t argument array, some (.returnStatement t (some argument)) ∈ body ∧
      c = some (.returnStatement t (some (.identifier (.fresh (Node.loc argument)) array))) := by
  unfold collapsedBody? at h
  split at h
  · rename_i last hlast
    split at h
    · cases h
    · obtain ⟨array, -, hrest⟩ := bind_eq_ok.mp h
      cases array with
      | none => cases hrest
      | some array =>
        dsimp only at hrest
        split at hrest
        · cases hrest
          rcases List.mem_append.mp hc with hc | hc
          · exact .inl (List.dropLast_subset _ (List.mem_of_mem_eraseIdx hc))
          · cases List.mem_singleton.mp hc
            have hmem := List.mem_of_getLast? hlast
            unfold returning
            split
            · exact .inr ⟨_, _, _, hmem, rfl⟩
            · exact .inl hmem
        · cases hrest
  · cases h

theorem collapseHere_cases (n : Node) : collapseHere n = n ∨
    ∃ t id params u body name body', n = .functionDeclaration t id params (some (.blockStatement u body)) ∧
      collapsedBody? name body = .ok (some body') ∧
      collapseHere n = .functionDeclaration t id params (some (.blockStatement u body')) := by
  unfold collapseHere
  split
  · rename_i t id params u body
    split
    · rename_i name body' hcollapsed
      refine .inr ⟨t, id, params, u, body, name, body', rfl, ?_, rfl⟩
      unfold collapsed? at hcollapsed
      split at hcollapsed
      · rename_i heq
        cases heq
        obtain ⟨r, hr, hrest⟩ := bind_eq_ok.mp hcollapsed
        cases r with
        | none => cases hrest
        | some r =>
          cases hrest
          exact hr
      · cases hcollapsed
      · cases hcollapsed
    · exact .inl rfl
  · exact .inl rfl

theorem every_collapseHere (hq : ∀ name, q (.identifier name)) {n : Node}
    (h : n.Every (Fine q)) : (collapseHere n).Every (Fine q) := by
  rcases collapseHere_cases n with heq | ⟨t, id, params, u, body, name, body', rfl, hbody, heq⟩
  · rw [heq]
    exact h
  rw [heq]
  let f : Frame := ⟨t, .functionDeclaration, [.many params, .one id], .single, []⟩
  have hplug : (f.plug (.blockStatement u body)).Every (Fine q) := h
  obtain ⟨hself, hbeside, hblock⟩ := Frame.every_plug.mp hplug
  obtain ⟨⟨hconforms, hq'⟩, hitems⟩ := every_mk.mp hblock
  have hold := everyItems_iff.mp (everySlots_many.mp hitems).1
  obtain _ | ⟨hmany, -⟩ := hconforms
  have hnew : ∀ c ∈ body', ∃ m, c = some m ∧ m.kind.isStatement = true ∧ m.Every (Fine q) := by
    intro c hc
    have hadmits := List.all_eq_true.mp hmany
    rcases mem_collapsedBody? hbody hc with hc | ⟨v, argument, array, hmem, rfl⟩
    · have hkind := hadmits c hc
      cases c with
      | none => cases hkind
      | some m => exact ⟨m, rfl, hkind, hold m hc⟩
    · obtain ⟨⟨-, hreturn⟩, -⟩ := every_mk.mp (hold _ hmem)
      refine ⟨_, rfl, rfl, ?_⟩
      simp only [every_mk, everySlots_one, everySlots_nil, and_true]
      exact ⟨⟨.cons rfl .nil, hreturn⟩, .nil, hq array⟩
  have hbody' : (Node.blockStatement u body').Every (Fine q) := by
    refine every_mk.mpr ⟨⟨.cons ?_ .nil, hq'⟩, everySlots_many.mpr ⟨?_, everySlots_nil⟩⟩
    · refine List.all_eq_true.mpr fun c hc => ?_
      obtain ⟨m, rfl, hkind, -⟩ := hnew c hc
      exact hkind
    · refine everyItems_iff.mpr fun m hm => ?_
      obtain ⟨m', heq, -, hm'⟩ := hnew _ hm
      cases heq
      exact hm'
  have hhead : (Node.blockStatement u body).head = (Node.blockStatement u body').head := rfl
  have hnow : (f.plug (.blockStatement u body')).Every (Fine q) :=
    Frame.every_plug.mpr ⟨⟨conforms_of_kinds hhead hself.1, hself.2⟩, hbeside, hbody'⟩
  exact hnow

mutual

theorem every_collapseAll (hq : ∀ name, q (.identifier name)) : (n : Node) → n.Every (Fine q) →
    (collapseAll n).Every (Fine q)
  | .mk t h ss, hn => by
    obtain ⟨⟨hconforms, hhead⟩, hss⟩ := every_mk.mp hn
    rw [collapseAll]
    refine every_collapseHere hq (every_mk.mpr ⟨⟨?_, hhead⟩, everySlots_collapse hq ss hss⟩)
    exact conforms_congr (heads_collapseSlots ss).symm hconforms

theorem everySlots_collapse (hq : ∀ name, q (.identifier name)) : (ss : List (Slot Node)) →
    EverySlots (Fine q) ss → EverySlots (Fine q) (collapseSlots ss)
  | [], _ => everySlots_nil
  | .one none :: ss, hss => everySlots_collapse hq ss hss
  | .one (some c) :: ss, hss => by
    rw [everySlots_one] at hss
    rw [collapseSlots, everySlots_one]
    exact ⟨every_collapseAll hq c hss.1, everySlots_collapse hq ss hss.2⟩
  | .many cs :: ss, hss => by
    rw [everySlots_many] at hss
    rw [collapseSlots, everySlots_many]
    exact ⟨everyItems_collapse hq cs hss.1, everySlots_collapse hq ss hss.2⟩

theorem everyItems_collapse (hq : ∀ name, q (.identifier name)) : (cs : List (Option Node)) →
    EveryItems (Fine q) cs → EveryItems (Fine q) (collapseItems cs)
  | [], _ => everyItems_nil
  | none :: cs, hcs => everyItems_collapse hq cs hcs
  | some c :: cs, hcs => by
    rw [everyItems_some] at hcs
    rw [collapseItems, everyItems_some]
    exact ⟨every_collapseAll hq c hcs.1, everyItems_collapse hq cs hcs.2⟩

end

theorem localArray?_defined {c : Option Node} (h : ∀ m, c = some m → m.WellKinded) :
    Defined (localArray? c) := by
  unfold localArray?
  split
  · rename_i t kind u id v ss declarations
    obtain ⟨name, hname⟩ := declaredName_defined (h _ rfl) (List.mem_cons_self ..)
    unfold declaredName at hname
    split at hname
    · rename_i heq
      cases heq
      exact .ok _
    · cases hname
  · exact .ok _

theorem collapsed?_defined {n : Node} (h : n.WellKinded) : Defined (collapsed? n) := by
  by_cases hkind : n.kind = .functionDeclaration
  · have hfunction : n.isFunction = true := by rw [isFunction, hkind]; rfl
    obtain ⟨t, hd, self, params, body, rfl, hself, -, hbody⟩ := exists_function hfunction h.self
    have hd' : hd = .functionDeclaration := by
      cases hd <;> first | rfl | cases hkind
    subst hd'
    obtain ⟨u, items, rfl⟩ := exists_block hbody (h body (mem_walk_of_slot (by simp)))
    cases self with
    | none =>
      obtain _ | ⟨hid, -⟩ := h.self
      cases hid
    | some id =>
      obtain ⟨v, name, rfl⟩ := exists_identifier (hself id rfl)
        (h id (mem_walk_of_slot (List.mem_cons_self ..)))
      refine Defined.bind ?_ fun _ _ => .ok _
      unfold collapsedBody?
      split
      · refine .ite (.ok _) ((localArray?_defined fun m hm => ?_).bind fun array _ => ?_)
        · have hmem : some m ∈ items := by
            cases items with
            | nil => cases hm
            | cons c cs => exact hm ▸ List.mem_cons_self ..
          have hblock : (Node.blockStatement u items).WellKinded :=
            h.below (mem_walk_of_slot (by simp))
          exact hblock.below (mem_walk_of_item (List.mem_singleton_self _) hmem)
        · split
          · dsimp only
            split <;> exact .ok _
          · exact .ok _
      · exact .ok _
  · unfold collapsed?
    split
    · exact absurd rfl hkind
    · exact absurd rfl hkind
    · exact .ok _

theorem collapse_wellKinded (hq : ∀ name, q (.identifier name)) {tree : Node}
    (h : tree.Every (Fine q)) : ∃ names, collapse tree = .ok (collapseAll tree, names) ∧
      (collapseAll tree).head = tree.head ∧ (collapseAll tree).Every (Fine q) := by
  have hwell : tree.WellKinded := h.mono fun c hc => hc.1
  obtain ⟨found, hfound⟩ : Defined (tree.walk.mapM collapsed?) :=
    .mapM fun c hc => collapsed?_defined (hwell.below hc)
  have hcollapse : collapse tree = .ok (collapseAll tree, found.filterMap (·.map (·.1))) := by
    rw [collapse, hfound]
    rfl
  exact ⟨_, hcollapse, head_collapseAll tree, every_collapseAll hq tree h⟩

end Factory

namespace Hoist

variable {q : Head → Prop} {limit depth : Nat} {found : Report}

def Liftable (q : Head → Prop) (ns : List Node) : Prop :=
  ∀ n ∈ ns, n.kind = .functionDeclaration ∧ n.Every (Fine q)

theorem Liftable.append {ns ns' : List Node} (h : Liftable q ns) (h' : Liftable q ns') :
    Liftable q (ns ++ ns') := List.forall_mem_append.mpr ⟨h, h'⟩

theorem finding?_defined (limit depth : Nat) (inList : Bool) (found : Report) {t : Tag} {h : Head}
    {ss : List (Slot Node)} (hn : (Node.mk t h ss).WellKinded) :
    Defined (finding? limit inList depth found h ss) := by
  cases h with
  | functionDeclaration =>
    obtain _ | ⟨hid, -⟩ := hn.self
    rename_i s ss
    match s with
    | .one (some id) =>
      obtain ⟨u, name, rfl⟩ := exists_identifier (beq_iff_eq.mp hid)
        (hn id (mem_walk_of_slot (List.mem_cons_self ..)))
      exact .ok _
  | _ => exact .ok _

mutual

theorem liftNode_fine (limit : Nat) (inList : Bool) : (depth : Nat) → (found : Report) → (n : Node) →
    n.Every (Fine q) → ∃ r, liftNode limit inList depth found n = .ok r ∧
      (∀ m, r.rest = some m → m.head = n.head ∧ m.Every (Fine q)) ∧ Liftable q r.lifted
  | depth, found, .mk t h ss, hn => by
    obtain ⟨⟨hconforms, hq⟩, hss⟩ := every_mk.mp hn
    have hwell : (Node.mk t h ss).WellKinded := hn.mono fun c hc => hc.1
    obtain ⟨f, hf⟩ := finding?_defined limit depth inList found hwell
    obtain ⟨r, hr, hslots, hevery, hlifted⟩ :=
      liftSlots_fine limit (depth + 1) (found ++ f.toList) ss h.demands hconforms hss
    have hnew : (Node.mk t h r.rest).Every (Fine q) := every_mk.mpr ⟨⟨hslots, hq⟩, hevery⟩
    have hkept : ∀ m, some (Node.mk t h r.rest) = some m → m.head = h ∧ m.Every (Fine q) := by
      rintro m hm
      cases hm
      exact ⟨rfl, hnew⟩
    cases f with
    | none => exact ⟨_, liftNode_iff.mpr (.kept hf nofun hr), hkept, hlifted⟩
    | some f =>
      cases hfate : f.fate with
      | discarded => exact ⟨_, liftNode_iff.mpr (.dropped hf hfate), nofun, nofun⟩
      | hoisted =>
        refine ⟨_, liftNode_iff.mpr (.moved hf hfate hr), nofun, ?_⟩
        exact List.forall_mem_cons.mpr ⟨⟨congrArg Head.kind (finding?_eq_some hf).1, hnew⟩, hlifted⟩
      | pinned | unresolved =>
        refine ⟨_, liftNode_iff.mpr (.kept hf (fun g hg => ?_) hr), hkept, hlifted⟩
        cases hg
        rw [hfate]
        rfl

theorem liftSlots_fine (limit : Nat) : (depth : Nat) → (found : Report) → (ss : List (Slot Node)) →
    (ds : List Demand) → List.Forall₂ (fun d s => d.admits s = true) ds ss →
    EverySlots (Fine q) ss → ∃ r, liftSlots limit depth found ss = .ok r ∧
      List.Forall₂ (fun d s => d.admits s = true) ds r.rest ∧ EverySlots (Fine q) r.rest ∧
      Liftable q r.lifted
  | depth, found, [], ds, hds, _ => ⟨⟨[], [], found⟩, rfl, hds, everySlots_nil, nofun⟩
  | depth, found, .one none :: ss, d :: ds, .cons hslot hds, hss => by
    obtain ⟨r, hr, hslots, hevery, hlifted⟩ := liftSlots_fine limit depth found ss ds hds hss
    exact ⟨_, liftSlots_empty_iff.mpr ⟨r, hr, rfl⟩, .cons hslot hslots, hevery, hlifted⟩
  | depth, found, .one (some c) :: ss, d :: ds, .cons hslot hds, hss => by
    obtain ⟨hc, hss⟩ := everySlots_one.mp hss
    obtain ⟨a, ha, hrest, hlifted⟩ := liftNode_fine limit false depth found c hc
    obtain ⟨r, hr, hslots, hevery, hlifted'⟩ := liftSlots_fine limit depth a.found ss ds hds hss
    obtain ⟨m, hm, hhead⟩ := exists_rest ha
    have hrole : d.role.admits m.kind = true := by
      rw [kind, hhead]
      exact Demand.role_of_admits_one hslot
    refine ⟨_, liftSlots_node_iff.mpr ⟨a, ha, r, hr, rfl⟩, ?_, ?_, hlifted.append hlifted'⟩
    · rw [hm]
      exact .cons (Demand.admits_one_of_role hslot hrole) hslots
    · rw [hm]
      exact everySlots_one.mpr ⟨(hrest m hm).2, hevery⟩
  | depth, found, .many cs :: ss, d :: ds, .cons hslot hds, hss => by
    obtain ⟨hcs, hss⟩ := everySlots_many.mp hss
    obtain ⟨a, ha, hmany, hitems, hlifted⟩ := liftItems_fine limit depth found cs d hslot hcs
    obtain ⟨r, hr, hslots, hevery, hlifted'⟩ := liftSlots_fine limit depth a.found ss ds hds hss
    exact ⟨_, liftSlots_items_iff.mpr ⟨a, ha, r, hr, rfl⟩, .cons hmany hslots,
      everySlots_many.mpr ⟨hitems, hevery⟩, hlifted.append hlifted'⟩

theorem liftItems_fine (limit : Nat) : (depth : Nat) → (found : Report) → (cs : List (Option Node)) →
    (d : Demand) → d.admits (.many cs) = true → EveryItems (Fine q) cs →
    ∃ r, liftItems limit depth found cs = .ok r ∧ d.admits (.many r.rest) = true ∧
      EveryItems (Fine q) r.rest ∧ Liftable q r.lifted
  | depth, found, [], d, hd, _ => ⟨⟨[], [], found⟩, rfl, hd, everyItems_nil, nofun⟩
  | depth, found, none :: cs, d, hd, hcs => by
    rw [← List.singleton_append, Demand.admits_many_append, Bool.and_eq_true] at hd
    obtain ⟨r, hr, hmany, hitems, hlifted⟩ := liftItems_fine limit depth found cs d hd.2 hcs
    refine ⟨_, liftItems_hole_iff.mpr ⟨r, hr, rfl⟩, ?_, hitems, hlifted⟩
    rw [← List.singleton_append, Demand.admits_many_append, hd.1, hmany]
    rfl
  | depth, found, some c :: cs, d, hd, hcs => by
    rw [← List.singleton_append, Demand.admits_many_append, Bool.and_eq_true] at hd
    obtain ⟨hc, hcs⟩ := everyItems_some.mp hcs
    obtain ⟨a, ha, hrest, hlifted⟩ := liftNode_fine limit true depth found c hc
    obtain ⟨r, hr, hmany, hitems, hlifted'⟩ := liftItems_fine limit depth a.found cs d hd.2 hcs
    refine ⟨_, liftItems_node_iff.mpr ⟨a, ha, r, hr, rfl⟩, ?_, ?_, hlifted.append hlifted'⟩
    · rw [Demand.admits_many_append, hmany, Bool.and_true]
      refine Demand.admits_many_map hd.1 fun m hm => ?_
      rw [kind, (hrest m (Option.mem_toList.mp hm)).1]
      exact Demand.role_of_admits_many hd.1 (List.mem_singleton_self _)
    · refine everyItems_append.mpr ⟨everyItems_map.mpr fun m hm => ?_, hitems⟩
      exact (hrest m (Option.mem_toList.mp hm)).2

end

theorem hoist_wellKinded {tree : Node} (hroot : tree.kind = .program)
    (h : tree.Every (Fine q)) : ∃ tree' report, hoist limit tree = (tree', .ok report) ∧
      tree'.head = tree.head ∧ tree'.Every (Fine q) := by
  obtain ⟨r, hr, hrest, hlifted⟩ := liftNode_fine limit false 0 [] tree h
  obtain ⟨m, hm, -⟩ := exists_rest hr
  obtain ⟨hhead, hm'⟩ := hrest m hm
  obtain ⟨t, hd, ss⟩ := m
  have hd' : hd = .program := by
    have hkind : hd.kind = .program := by
      rw [← hroot, kind, ← hhead]
      rfl
    cases hd <;> first | rfl | cases hkind
  subst hd'
  obtain ⟨⟨hconforms, hq⟩, hslots⟩ := every_mk.mp hm'
  obtain _ | ⟨hbody, _ | _⟩ := hconforms
  rename_i s
  match s with
  | .many body =>
    have hitems := (everySlots_many.mp hslots).1
    refine ⟨.program t (r.lifted.map some ++ body), r.found, ?_, hhead, ?_⟩
    · simp only [hoist, hr, hm, Option.getD_some, prepend]
    · refine every_mk.mpr ⟨⟨.cons ?_ .nil, hq⟩, everySlots_many.mpr ⟨?_, everySlots_nil⟩⟩
      · rw [Demand.admits_many_append, hbody, Bool.and_true]
        refine List.all_eq_true.mpr fun c hc => ?_
        obtain ⟨n, hn, rfl⟩ := List.mem_map.mp hc
        simp [Role.admits, (hlifted n hn).1, Kind.isStatement]
      · exact everyItems_append.mpr ⟨everyItems_map.mpr fun n hn => (hlifted n hn).2, hitems⟩

end Hoist
end Unravel
