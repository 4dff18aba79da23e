import Mathlib.Data.List.InsertIdx
import Unravel.Factory
import Unravel.Hoist
import Unravel.Proofs.Renaming.Unwrap

/-! Factories and hoisting under other names: the same factories collapse, the same functions move
and the same ones are dropped. -/

namespace Unravel

open Node

variable {ν : String → String}

theorem commutes_of_change {α : Type} {s F : α → α} (hs : Function.Involutive s)
    (h : ∀ a, F a = a ∨ F (s a) = s (F a)) (a : α) : F (s a) = s (F a) := by
  rcases h a with hsame | hforward
  · rcases h (s a) with hback | hback
    · rw [hback, hsame]
    · rw [hs a, hsame] at hback
      rw [hsame]
      exact ((congrArg s hback).trans (hs _)).symm
  · exact hforward

theorem prodMap_mapNames_involutive (hν : Function.Involutive ν) :
    Function.Involutive (Prod.map ν (Option.map (mapNames ν))) :=
  hν.prodMap (option_mapNames_involutive hν)

theorem test_mapNames (hν : Function.Involutive ν) {F : String → Option Node → Bool}
    (h : ∀ name c, F name c = true → F (ν name) (c.map (mapNames ν)) = true) (name : String)
    (c : Option Node) : F (ν name) (c.map (mapNames ν)) = F name c := by
  refine Bool.eq_iff_iff.mpr ⟨fun hback => ?_, h name c⟩
  have hagain := h _ _ hback
  rwa [hν name, option_mapNames_involutive hν c] at hagain

namespace Factory

theorem reassigns_mapNames (hν : Function.Involutive ν) (name : String) (c : Option Node) :
    reassigns (ν name) (c.map (mapNames ν)) = reassigns name c := by
  refine test_mapNames hν (fun name c h => ?_) name c
  unfold reassigns at h
  split at h
  · simp [reassigns, Head.mapNames, beq_iff_eq.mp h]
  · cases h

theorem returnsCall_mapNames (hν : Function.Involutive ν) (name : String) (c : Option Node) :
    returnsCall (ν name) (c.map (mapNames ν)) = returnsCall name c := by
  refine test_mapNames hν (fun name c h => ?_) name c
  unfold returnsCall at h
  split at h
  · simp [returnsCall, Head.mapNames, beq_iff_eq.mp h]
  · cases h

theorem localArray?_mapNames (hν : Function.Involutive ν) (c : Option Node) :
    localArray? (c.map (mapNames ν)) = (localArray? c).map (Option.map ν) := by
  have hnames : Function.Involutive (Option.map ν) := by
    intro x
    simp [hν.comp_self]
  refine commutes_of_forward (option_mapNames_involutive hν) (Except.map_involutive hnames)
    (P := fun _ => True) (fun _ _ => trivial) (F := localArray?) (d := .ok none) rfl
    (fun c _ => ?_) trivial
  generalize hx : localArray? c = x
  unfold localArray? at hx
  split at hx
  · rename_i t kind u id v ss declarations
    subst hx
    refine .inr ?_
    have hname : (id.map (mapNames ν)).bind name? = (id.bind name?).map ν := by
      cases id with
      | none => rfl
      | some id => exact name?_mapNames id
    simp only [Option.map_some, mapNames_mk, List.map_cons, List.map_nil, Slot.mapNames_one,
      Slot.mapNames_many, Head.mapNames, localArray?, hname]
    cases id.bind name? <;> rfl
  · exact .inl hx.symm

theorem returning_mapNames (hν : Function.Involutive ν) (name : String) (c : Option Node) :
    returning (ν name) (c.map (mapNames ν)) = (returning name c).map (mapNames ν) := by
  have hpair := commutes_of_change (prodMap_mapNames_involutive hν)
    (F := fun p => (p.1, returning p.1 p.2)) (fun p => ?_) (name, c)
  · exact congrArg Prod.snd hpair
  · obtain ⟨name, c⟩ := p
    dsimp only
    generalize hx : returning name c = x
    unfold returning at hx
    split at hx
    · subst hx
      refine .inr ?_
      simp [returning, Head.mapNames]
    · exact .inl (congrArg (Prod.mk name) hx.symm)

theorem collapsedBody?_mapNames (hν : Function.Involutive ν) (name : String)
    (body : List (Option Node)) :
    collapsedBody? (ν name) (body.map (Option.map (mapNames ν))) =
      (collapsedBody? name body).map (Option.map (List.map (Option.map (mapNames ν)))) := by
  unfold collapsedBody?
  rw [List.getLast?_map]
  cases body.getLast? with
  | none => rfl
  | some last =>
    have hfirst : (body.map (Option.map (mapNames ν))).head?.join =
        body.head?.join.map (mapNames ν) := by
      cases body with
      | nil => rfl
      | cons c cs => rfl
    simp only [Option.map_some, List.length_map, returnsCall_mapNames hν, hfirst,
      localArray?_mapNames hν]
    split
    · rfl
    · refine bind_map fun array _ => ?_
      cases array with
      | none => rfl
      | some array =>
        have hfound : reassigns (ν name) ∘ Option.map (mapNames ν) = reassigns name :=
          funext (reassigns_mapNames hν name)
        simp only [Option.map_some, ← List.map_dropLast, List.findIdx?_map, hfound]
        cases body.dropLast.findIdx? (reassigns name) with
        | none => rfl
        | some i =>
          dsimp only
          rw [List.eraseIdx_map, returning_mapNames hν]
          simp [pure, Except.pure, Except.map]

abbrev collapsedNames (ν : String → String) :
    String × List (Option Node) → String × List (Option Node) :=
  Prod.map ν (List.map (Option.map (mapNames ν)))

theorem collapsed?_mapNames (hν : Function.Involutive ν) (n : Node) :
    collapsed? (n.mapNames ν) = (collapsed? n).map (Option.map (collapsedNames ν)) := by
  by_cases hhead : n.head = .functionDeclaration
  · have hbodies : Function.Involutive (List.map (Option.map (mapNames ν))) :=
      (option_mapNames_involutive hν).list_map
    have hnames : Function.Involutive (Option.map (collapsedNames ν)) := by
      intro x
      simp [(hν.prodMap hbodies).comp_self]
    refine commutes_of_forward (mapNames_mapNames hν) (Except.map_involutive hnames)
      (P := fun n => n.head = .functionDeclaration) (fun n hn => ?_) (F := collapsed?)
      (d := .error .malformed) rfl (fun n hn => ?_) hhead
    · rw [head_mapNames, hn]
      rfl
    generalize hx : collapsed? n = x
    unfold collapsed? at hx
    split at hx
    · subst hx
      refine .inr ?_
      simp only [mapNames_mk, List.map_cons, List.map_nil, Slot.mapNames_one, Slot.mapNames_many,
        Option.map_some, Head.mapNames, collapsed?, collapsedBody?_mapNames hν]
      refine bind_map fun body _ => ?_
      cases body <;> rfl
    · exact .inl hx.symm
    · rename_i hother
      obtain ⟨t, h, ss⟩ := n
      cases hn
      exact absurd rfl (hother t ss)
  · obtain ⟨t, h, ss⟩ := n
    cases h with
    | functionDeclaration => exact absurd rfl hhead
    | _ => rfl

theorem collapseHere_mapNames (hν : Function.Involutive ν) (n : Node) :
    collapseHere (n.mapNames ν) = (collapseHere n).mapNames ν := by
  refine commutes_of_change (mapNames_mapNames hν) (fun n => ?_) n
  generalize hx : collapseHere n = x
  unfold collapseHere at hx
  split at hx
  · rename_i t id params u body
    split at hx
    · rename_i name body' hcollapsed
      subst hx
      refine .inr ?_
      have hother := collapsed?_mapNames hν
        (.functionDeclaration t id params (some (.blockStatement u body)))
      rw [hcollapsed] at hother
      simp only [mapNames_mk, List.map_cons, List.map_nil, Slot.mapNames_one, Slot.mapNames_many,
        Option.map_some, Head.mapNames] at hother ⊢
      rw [collapseHere, hother]
      rfl
    · exact .inl hx.symm
  · exact .inl hx.symm

mutual

theorem collapseAll_mapNames (hν : Function.Involutive ν) : (n : Node) →
    collapseAll (n.mapNames ν) = (collapseAll n).mapNames ν
  | .mk t h ss => by
    rw [collapseAll, ← collapseHere_mapNames hν, mapNames, mapNames, collapseAll,
      collapseSlots_mapNames hν ss]

theorem collapseSlots_mapNames (hν : Function.Involutive ν) : (ss : List (Slot Node)) →
    collapseSlots (mapNamesSlots ν ss) = mapNamesSlots ν (collapseSlots ss)
  | [] => rfl
  | .one none :: ss => by
    simp only [mapNamesSlots, collapseSlots, collapseSlots_mapNames hν ss]
  | .one (some c) :: ss => by
    simp only [mapNamesSlots, collapseSlots, collapseAll_mapNames hν c,
      collapseSlots_mapNames hν ss]
  | .many cs :: ss => by
    simp only [mapNamesSlots, collapseSlots, collapseItems_mapNames hν cs,
      collapseSlots_mapNames hν ss]

theorem collapseItems_mapNames (hν : Function.Involutive ν) : (cs : List (Option Node)) →
    collapseItems (mapNamesItems ν cs) = mapNamesItems ν (collapseItems cs)
  | [] => rfl
  | none :: cs => by simp only [mapNamesItems, collapseItems, collapseItems_mapNames hν cs]
  | some c :: cs => by
    simp only [mapNamesItems, collapseItems, collapseAll_mapNames hν c,
      collapseItems_mapNames hν cs]

end

theorem collapse_mapNames (hν : Function.Involutive ν) (tree : Node) :
    collapse (tree.mapNames ν) = (collapse tree).map (Prod.map (mapNames ν) (List.map ν)) := by
  unfold collapse
  rw [walk_mapNames, mapM_map _ fun n _ => collapsed?_mapNames hν n]
  refine bind_map fun found _ => ?_
  have hnames : (found.map (Option.map (collapsedNames ν))).filterMap (·.map (·.1)) =
      (found.filterMap (·.map (·.1))).map ν := by
    rw [List.filterMap_map, List.map_filterMap]
    congr 1
    funext x
    cases x <;> rfl
  rw [collapseAll_mapNames hν, hnames]
  rfl

end Factory

namespace Hoist

def Finding.mapNames (ν : String → String) (f : Finding) : Finding := { f with name := ν f.name }

abbrev Report.mapNames (ν : String → String) (r : Report) : Report := r.map (Finding.mapNames ν)

def Lifted.mapNames {α : Type} (ν : String → String) (g : α → α) (r : Lifted α) : Lifted α where
  rest := g r.rest
  lifted := r.lifted.map (Node.mapNames ν)
  found := r.found.mapNames ν

variable {limit depth : Nat} {inList : Bool}

theorem fate_mapNames (hν : Function.Injective ν) (found : Report) (name : String) :
    fate limit inList depth (found.mapNames ν) (ν name) = fate limit inList depth found name := by
  have hany : (found.mapNames ν).any (·.name == ν name) = found.any (·.name == name) := by
    rw [Report.mapNames, List.any_map]
    refine List.any_congr rfl fun f => ?_
    simp [Finding.mapNames, hν.eq_iff]
  rw [fate, hany, fate]

theorem finding?_mapNames (hν : Function.Involutive ν) (found : Report) (h : Head)
    (ss : List (Slot Node)) :
    finding? limit inList depth (found.mapNames ν) (h.mapNames ν) (ss.map (Slot.mapNames ν)) =
      (finding? limit inList depth found h ss).map (Option.map (Finding.mapNames ν)) := by
  have hfinding : Function.Involutive (Finding.mapNames ν) := fun f =>
    congrArg (Finding.mk f.fate · f.depth) (hν f.name)
  cases h with
  | functionDeclaration =>
    have hs : Function.Involutive
        (Prod.map (List.map (Finding.mapNames ν)) (List.map (Slot.mapNames ν))) :=
      hfinding.list_map.prodMap (Slot.mapNames_involutive hν).list_map
    have hnames : Function.Involutive (Option.map (Finding.mapNames ν)) := by
      intro x
      simp [hfinding.comp_self]
    refine commutes_of_forward hs (Except.map_involutive hnames)
      (P := fun _ => True) (fun _ _ => trivial)
      (F := fun p => finding? limit inList depth p.1 .functionDeclaration p.2)
      (d := .error .malformed) (a := (found, ss)) rfl (fun p _ => ?_) trivial
    obtain ⟨found, ss⟩ := p
    dsimp only
    generalize hx : finding? limit inList depth found .functionDeclaration ss = x
    unfold finding? at hx
    split at hx
    · subst hx
      refine .inr ?_
      have hfate (name : String) : fate limit inList depth (Report.mapNames ν found) (ν name) =
          fate limit inList depth found name := fate_mapNames hν.injective found name
      simp [Prod.map, Head.mapNames, finding?, hfate, Except.map, Finding.mapNames]
    · exact .inl hx.symm
    · rename_i hother _
      exact absurd rfl hother
  | _ => rfl

abbrev restNames (ν : String → String) : Lifted (Option Node) → Lifted (Option Node) :=
  Lifted.mapNames ν (Option.map (Node.mapNames ν))

mutual

theorem liftNode_mapNames (hν : Function.Involutive ν) (limit : Nat) (inList : Bool) :
    (depth : Nat) → (found : Report) → (n : Node) →
    liftNode limit inList depth (found.mapNames ν) (n.mapNames ν) =
      (liftNode limit inList depth found n).map (restNames ν)
  | depth, found, .mk t h ss => by
    have hslots (found : Report) :
        liftSlots limit (depth + 1) (found.mapNames ν) (ss.map (Slot.mapNames ν)) =
          (liftSlots limit (depth + 1) found ss).map
            (Lifted.mapNames ν (List.map (Slot.mapNames ν))) :=
      liftSlots_mapNames hν limit (depth + 1) found ss
    rw [mapNames_mk, liftNode, liftNode, finding?_mapNames hν]
    refine bind_map fun f _ => ?_
    cases f with
    | none =>
      simp only [Option.map_none, hslots]
      refine bind_map fun r _ => ?_
      simp [restNames, Lifted.mapNames, pure, Except.pure, Except.map]
    | some f =>
      have hmore : found.mapNames ν ++ [f.mapNames ν] = Report.mapNames ν (found ++ [f]) := by
        simp
      have hfate : (f.mapNames ν).fate = f.fate := rfl
      simp only [Option.map_some, hmore, hslots, hfate]
      split
      · rfl
      · refine bind_map fun r _ => ?_
        split
        · simp [restNames, Lifted.mapNames, pure, Except.pure, Except.map]
        · simp [restNames, Lifted.mapNames, pure, Except.pure, Except.map]

theorem liftSlots_mapNames (hν : Function.Involutive ν) (limit : Nat) :
    (depth : Nat) → (found : Report) → (ss : List (Slot Node)) →
    liftSlots limit depth (found.mapNames ν) (ss.map (Slot.mapNames ν)) =
      (liftSlots limit depth found ss).map (Lifted.mapNames ν (List.map (Slot.mapNames ν)))
  | depth, found, [] => rfl
  | depth, found, .one none :: ss => by
    rw [List.map_cons, Slot.mapNames_one, Option.map_none, liftSlots, liftSlots,
      liftSlots_mapNames hν limit depth found ss]
    exact bind_map fun r _ => rfl
  | depth, found, .one (some c) :: ss => by
    rw [List.map_cons, Slot.mapNames_one, Option.map_some, liftSlots, liftSlots,
      liftNode_mapNames hν limit false depth found c]
    refine bind_map fun a _ => ?_
    have hrest : liftSlots limit depth (restNames ν a).found (ss.map (Slot.mapNames ν)) = _ :=
      liftSlots_mapNames hν limit depth a.found ss
    rw [hrest]
    refine bind_map fun r _ => ?_
    simp [restNames, Lifted.mapNames, pure, Except.pure, Except.map]
  | depth, found, .many cs :: ss => by
    rw [List.map_cons, Slot.mapNames_many, liftSlots, liftSlots,
      liftItems_mapNames hν limit depth found cs]
    refine bind_map fun a _ => ?_
    have hrest : liftSlots limit depth (a.found.mapNames ν) (ss.map (Slot.mapNames ν)) = _ :=
      liftSlots_mapNames hν limit depth a.found ss
    simp only [Lifted.mapNames]
    rw [hrest]
    refine bind_map fun r _ => ?_
    simp [Lifted.mapNames, pure, Except.pure, Except.map]

theorem liftItems_mapNames (hν : Function.Involutive ν) (limit : Nat) :
    (depth : Nat) → (found : Report) → (cs : List (Option Node)) →
    liftItems limit depth (found.mapNames ν) (cs.map (Option.map (mapNames ν))) =
      (liftItems limit depth found cs).map
        (Lifted.mapNames ν (List.map (Option.map (mapNames ν))))
  | depth, found, [] => rfl
  | depth, found, none :: cs => by
    rw [List.map_cons, Option.map_none, liftItems, liftItems,
      liftItems_mapNames hν limit depth found cs]
    exact bind_map fun r _ => rfl
  | depth, found, some c :: cs => by
    rw [List.map_cons, Option.map_some, liftItems, liftItems,
      liftNode_mapNames hν limit true depth found c]
    refine bind_map fun a _ => ?_
    have hrest : liftItems limit depth (restNames ν a).found (cs.map (Option.map (mapNames ν))) = _ :=
      liftItems_mapNames hν limit depth a.found cs
    rw [hrest]
    refine bind_map fun r _ => ?_
    cases hleft : a.rest <;>
      simp [restNames, Lifted.mapNames, hleft, pure, Except.pure, Except.map]

end

theorem prepend_mapNames (ns : List Node) (n : Node) :
    prepend (ns.map (mapNames ν)) (n.mapNames ν) = (prepend ns n).map (mapNames ν) := by
  obtain ⟨t, h, ss⟩ := n
  rw [mapNames_mk]
  cases h with
  | program =>
    match ss with
    | [.many body] => simp [prepend, Head.mapNames, Except.map]
    | [] | [.one _] | .one _ :: _ :: _ | .many _ :: _ :: _ => rfl
  | blockStatement =>
    match ss with
    | [.many body] => simp [prepend, Head.mapNames, Except.map]
    | [] | [.one _] | .one _ :: _ :: _ | .many _ :: _ :: _ => rfl
  | _ => rfl

theorem hoist_mapNames (hν : Function.Involutive ν) (limit : Nat) (tree : Node) :
    hoist limit (tree.mapNames ν) =
      Prod.map (mapNames ν) (Except.map (Report.mapNames ν)) (hoist limit tree) := by
  have hlift : liftNode limit false 0 [] (tree.mapNames ν) = _ :=
    liftNode_mapNames hν limit false 0 [] tree
  unfold hoist
  rw [hlift]
  cases liftNode limit false 0 [] tree with
  | error f => rfl
  | ok r =>
    have hrest : (r.rest.map (mapNames ν)).getD (tree.mapNames ν) =
        (r.rest.getD tree).mapNames ν := by
      cases r.rest <;> rfl
    simp only [Except.map, restNames, Lifted.mapNames, hrest, prepend_mapNames]
    cases prepend r.lifted (r.rest.getD tree) <;> rfl

end Hoist
end Unravel
