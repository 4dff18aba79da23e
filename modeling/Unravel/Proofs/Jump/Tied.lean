import Unravel.Proofs.Grammar.Structure
import Unravel.Proofs.Jump.Keep

/-! Jumps keep their targets through passes, collapsing and hoisting. -/

namespace Unravel

open Node

variable {s : Scope}

namespace Factory

theorem tied_collapseHere {n : Node} (hn : n.tied s = true) : (collapseHere n).tied s = true := by
  rcases collapseHere_cases n with heq | ⟨t, id, params, u, body, name, body', rfl, hbody, heq⟩
  · rw [heq]
    exact hn
  rw [heq]
  refine tied_of_children ?_ hn fun hold c hc => ?_
  · rfl
  rw [Scope.enter_function rfl] at hold ⊢
  simp only [childrenOf_cons, List.mem_append] at hold hc
  rcases hc with hc | hc | hc | hc
  · exact hold c (.inl hc)
  · exact hold c (.inr (.inl hc))
  · cases Slot.mem_children_one.mp hc
    have hblock := hold (.blockStatement u body) (by simp)
    rw [tied_plain rfl rfl] at hblock ⊢
    intro m hm
    simp only [childrenOf_cons, childrenOf_nil, List.append_nil, Slot.mem_children_many] at hm hblock
    rcases mem_collapsedBody? hbody hm with hm | ⟨v, argument, array, -, heq⟩
    · exact hblock m hm
    · cases heq
      rw [tied_mk]
      refine ⟨rfl, fun c hc => ?_⟩
      simp only [childrenOf_cons, childrenOf_nil, List.append_nil, Slot.mem_children_one,
        Option.some.injEq] at hc
      subst hc
      exact tied_leaf rfl
  · cases hc

theorem tied_collapseAll (n : Node) : ∀ {s : Scope}, n.tied s = true →
    (collapseAll n).tied s = true := by
  induction n with
  | h t h ss ih =>
    intro s hn
    rw [collapseAll]
    refine tied_collapseHere (tied_of_children ?_ hn fun hold c hc => ?_)
    · exact map_single_of_heads (heads_collapseSlots ss).symm
    · rw [childrenOf_collapseSlots] at hc
      obtain ⟨d, hd, rfl⟩ := List.mem_map.mp hc
      exact ih d hd (hold d hd)

end Factory

namespace Hoist

variable {limit depth : Nat} {found : Report}

def Untethered (ns : List Node) : Prop := ∀ n ∈ ns, ∀ s : Scope, n.tied s = true

theorem Untethered.append {ns ns' : List Node} (h : Untethered ns) (h' : Untethered ns') :
    Untethered (ns ++ ns') := List.forall_mem_append.mpr ⟨h, h'⟩

theorem tied_functionDeclaration {t : Tag} {ss : List (Slot Node)}
    (h : (Node.mk t .functionDeclaration ss).tied s = true) (s' : Scope) :
    (Node.mk t .functionDeclaration ss).tied s' = true := by
  rw [tied_mk, Scope.enter_function rfl] at h ⊢
  exact ⟨rfl, h.2⟩

mutual

theorem liftNode_tied (limit : Nat) (inList : Bool) : (depth : Nat) → (found : Report) →
    (n : Node) → {s : Scope} → {r : Lifted (Option Node)} →
    liftNode limit inList depth found n = .ok r → n.tied s = true →
      (∀ m, r.rest = some m → m.tied s = true) ∧ Untethered r.lifted
  | depth, found, .mk t h ss, s, r, hr, hn => by
    have hslots {found : Report} {r : Lifted (List (Slot Node))}
        (hr : liftSlots limit (depth + 1) found ss = .ok r) :
        (Node.mk t h r.rest).tied s = true ∧ Untethered r.lifted := by
      obtain ⟨htargets, hchildren⟩ := tied_mk.mp hn
      obtain ⟨hrest, hlifted⟩ := liftSlots_tied limit (depth + 1) found ss hr
        (tiedSlots_iff.mpr hchildren)
      have hsingle := (single_liftSlots hr).symm
      exact ⟨tied_of_children hsingle hn fun _ => tiedSlots_iff.mp hrest, hlifted⟩
    cases liftNode_iff.mp hr with
    | kept _ _ hq =>
      obtain ⟨htied, hlifted⟩ := hslots hq
      exact ⟨fun m hm => Option.some.inj hm ▸ htied, hlifted⟩
    | dropped => exact ⟨nofun, nofun⟩
    | moved hf _ hq =>
      obtain ⟨rfl, -⟩ := finding?_eq_some hf
      obtain ⟨htied, hlifted⟩ := hslots hq
      exact ⟨nofun, List.forall_mem_cons.mpr ⟨tied_functionDeclaration htied, hlifted⟩⟩

theorem liftSlots_tied (limit : Nat) : (depth : Nat) → (found : Report) → (ss : List (Slot Node)) →
    {s : Scope} → {r : Lifted (List (Slot Node))} → liftSlots limit depth found ss = .ok r →
    tiedSlots s ss = true → tiedSlots s r.rest = true ∧ Untethered r.lifted
  | depth, found, [], s, r, hr, _ => by
    cases hr
    exact ⟨rfl, nofun⟩
  | depth, found, .one none :: ss, s, r, hr, hss => by
    obtain ⟨q, hq, rfl⟩ := liftSlots_empty_iff.mp hr
    obtain ⟨htied, hlifted⟩ := liftSlots_tied limit depth found ss hq hss
    exact ⟨htied, hlifted⟩
  | depth, found, .one (some c) :: ss, s, r, hr, hss => by
    obtain ⟨p, hp, q, hq, rfl⟩ := liftSlots_node_iff.mp hr
    rw [tiedSlots, Bool.and_eq_true] at hss
    obtain ⟨hkept, hlifted⟩ := liftNode_tied limit false depth found c hp hss.1
    obtain ⟨htied, hlifted'⟩ := liftSlots_tied limit depth p.found ss hq hss.2
    obtain ⟨m, hm, -⟩ := exists_rest hp
    refine ⟨?_, hlifted.append hlifted'⟩
    rw [hm, tiedSlots, hkept m hm, htied]
    rfl
  | depth, found, .many cs :: ss, s, r, hr, hss => by
    obtain ⟨p, hp, q, hq, rfl⟩ := liftSlots_items_iff.mp hr
    rw [tiedSlots, Bool.and_eq_true] at hss
    obtain ⟨hitems, hlifted⟩ := liftItems_tied limit depth found cs hp hss.1
    obtain ⟨htied, hlifted'⟩ := liftSlots_tied limit depth p.found ss hq hss.2
    refine ⟨?_, hlifted.append hlifted'⟩
    rw [tiedSlots, hitems, htied]
    rfl

theorem liftItems_tied (limit : Nat) : (depth : Nat) → (found : Report) →
    (cs : List (Option Node)) → {s : Scope} → {r : Lifted (List (Option Node))} →
    liftItems limit depth found cs = .ok r → tiedItems s cs = true →
      tiedItems s r.rest = true ∧ Untethered r.lifted
  | depth, found, [], s, r, hr, _ => by
    cases hr
    exact ⟨rfl, nofun⟩
  | depth, found, none :: cs, s, r, hr, hcs => by
    obtain ⟨q, hq, rfl⟩ := liftItems_hole_iff.mp hr
    obtain ⟨htied, hlifted⟩ := liftItems_tied limit depth found cs hq hcs
    exact ⟨htied, hlifted⟩
  | depth, found, some c :: cs, s, r, hr, hcs => by
    obtain ⟨p, hp, q, hq, rfl⟩ := liftItems_node_iff.mp hr
    rw [tiedItems, Bool.and_eq_true] at hcs
    obtain ⟨hkept, hlifted⟩ := liftNode_tied limit true depth found c hp hcs.1
    obtain ⟨htied, hlifted'⟩ := liftItems_tied limit depth p.found cs hq hcs.2
    refine ⟨?_, hlifted.append hlifted'⟩
    cases hm : p.rest with
    | none => exact htied
    | some m =>
      rw [Option.toList_some, List.map_singleton, List.singleton_append, tiedItems, hkept m hm, htied]
      rfl

end

theorem prepend_tied {ns : List Node} {n n' : Node} (hns : Untethered ns)
    (h : prepend ns n = .ok n') (hn : n.tied s = true) : n'.tied s = true := by
  have hmany {t : Tag} {h : Head} {body : List (Option Node)} (hplain : h.kind.isPlain = true)
      (hjump : Scope.isJump h.kind = false) (hn : (Node.mk t h [.many body]).tied s = true) :
      (Node.mk t h [.many (ns.map some ++ body)]).tied s = true := by
    rw [tied_plain hplain hjump] at hn ⊢
    simp only [childrenOf_cons, childrenOf_nil, List.append_nil, Slot.mem_children_many,
      List.mem_append, List.mem_map, Option.some.injEq, exists_eq_right] at hn ⊢
    rintro c (hc | hc)
    · exact hns c hc _
    · exact hn c hc
  unfold prepend at h
  split at h
  · cases h
    exact hmany rfl rfl hn
  · cases h
    exact hmany rfl rfl hn
  · cases h

theorem hoist_tied {tree tree' : Node} {report : Report}
    (h : hoist limit tree = (tree', .ok report)) (htree : tree.tied s = true) :
    tree'.tied s = true := by
  unfold hoist at h
  split at h
  · cases h
  · rename_i r hr
    obtain ⟨hkept, hlifted⟩ := liftNode_tied limit false 0 [] tree hr htree
    obtain ⟨m, hm, -⟩ := exists_rest hr
    dsimp only at h
    rw [hm, Option.getD_some] at h
    split at h
    · rename_i hprepend
      cases h
      exact prepend_tied hlifted hprepend (hkept m hm)
    · cases h

end Hoist

namespace Fixpoint

variable {settings : Settings} {rules : List Rule}

/-- No jump loses its target: not in any number of passes, and not when the factories of the result
are collapsed and its functions hoisted. -/
theorem jumps_stay_tied (hrules : Rule.catalog settings = .ok rules) {p q : Progress}
    (hroot : p.tree.kind = .program) (hwell : p.tree.WellKinded)
    (hrecorded : p.facts.Recorded WellKinded) (htied : p.tree.tied {} = true)
    (hpasses : Passes rules settings p q) :
    q.tree.tied {} = true ∧
      ∀ limit, ∃ collapsed names hoisted report,
        Factory.collapse q.tree = .ok (collapsed, names) ∧
        Hoist.hoist limit collapsed = (hoisted, .ok report) ∧
        collapsed.tied {} = true ∧ hoisted.tied {} = true := by
  have hstandard (mutated : List String) : Pass.Env.Standard ⟨rules, settings, mutated⟩ := hrules
  have hq : Moored q.tree q.facts :=
    hpasses.keeps (fun mutated => (hstandard mutated).keeps_moored) ⟨⟨hwell, hrecorded⟩, htied⟩
  refine ⟨hq.tied, fun limit => ?_⟩
  have hfine : q.tree.Every (Fine fun _ => True) := hq.formed.tree.mono fun _ hc => ⟨hc, trivial⟩
  obtain ⟨names, hcollapse, hhead, hcollapsed⟩ :=
    Factory.collapse_wellKinded (fun _ => trivial) hfine
  have hcollapsedRoot : (Factory.collapseAll q.tree).kind = .program := by
    rw [kind, hhead, hpasses.head_eq]
    exact hroot
  have hcollapsedTied := Factory.tied_collapseAll q.tree hq.tied
  obtain ⟨hoisted, report, hhoist, -, -⟩ := Hoist.hoist_wellKinded hcollapsedRoot hcollapsed
  exact ⟨_, names, hoisted, report, hcollapse, hhoist, hcollapsedTied,
    Hoist.hoist_tied hhoist hcollapsedTied⟩

/-- `function f() { next: while (c) { if (true) { continue next; } return; } }` -/
def guardedJumps : Node :=
  .program (.fresh none)
    [some (.functionDeclaration (.fresh none) (some (.identifier (.fresh none) "f")) []
      (some (.blockStatement (.fresh none)
        [some (.mk (.fresh none) .labeledStatement
          [.one (some (.identifier (.fresh none) "next")),
          .one (some (.mk (.fresh none) .whileStatement
            [.one (some (.identifier (.fresh none) "c")),
            .one (some (.blockStatement (.fresh none)
              [some (.mk (.fresh none) .ifStatement
                [.one (some (.literal (.fresh none) (.bool true))),
                .one (some (.blockStatement (.fresh none)
                  [some (.mk (.fresh none) .continueStatement
                    [.one (some (.identifier (.fresh none) "next"))])])),
                .one none]),
              some (.returnStatement (.fresh none) none)]))]))])])))]

theorem guardedJumps_stay_tied :
    ∃ q, PassTo Rule.standard {}
        { tree := (guardedJumps.number 0).1, facts := {}, next := (guardedJumps.number 0).2 } q ∧
      q.tree.tied {} = true ∧
      ∀ limit, ∃ collapsed names hoisted report,
        Factory.collapse q.tree = .ok (collapsed, names) ∧
        Hoist.hoist limit collapsed = (hoisted, .ok report) ∧
        collapsed.tied {} = true ∧ hoisted.tied {} = true := by
  have hrules : Rule.catalog {} = .ok Rule.standard := rfl
  have hfresh : Facts.Recorded WellKinded {} := nofun
  obtain ⟨q, hpass, -, -⟩ := exists_passTo 40 Rule.standard {}
    { tree := (guardedJumps.number 0).1, facts := {}, next := (guardedJumps.number 0).2 }
    (by decide +kernel)
  exact ⟨q, hpass, jumps_stay_tied hrules rfl (by decide +kernel) hfresh (by decide +kernel)
    (.single hpass)⟩

end Fixpoint
end Unravel
