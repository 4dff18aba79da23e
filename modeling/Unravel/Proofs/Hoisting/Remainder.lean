import Unravel.Proofs.Hoisting.Lift

/-! What hoisting leaves. Each function still tells its name, and what stays in a list is nested no
deeper than the limit. -/

namespace Unravel.Hoist

open Node

/-! What a declaration of the outline is. -/

structure Declared (ns : List Node) (d : Declaration) : Prop where
  name : functionName? d.node.head d.node.slots = some d.name
  node : d.node ∈ ns

theorem Declared.under {ns : List Node} {d : Declaration} (h : Declared ns d) (x : Nat × Nat) :
    Declared ns (d.under x) := ⟨h.name, h.node⟩

theorem Declared.mono {ns ns' : List Node} {d : Declaration} (h : Declared ns d) (hns : ns ⊆ ns') :
    Declared ns' d := ⟨h.name, hns h.node⟩

theorem Declared.of_under {ns : List Node} {x : Nat × Nat} {ds : List Declaration}
    (h : ∀ d ∈ ds, Declared ns d) : ∀ d ∈ ds.map (·.under x), Declared ns d := by
  intro d hd
  obtain ⟨e, he, rfl⟩ := List.mem_map.mp hd
  exact (h e he).under x

theorem Declared.of_append {ns ns' : List Node} {ds ds' : List Declaration}
    (h : ∀ d ∈ ds, Declared ns d) (h' : ∀ d ∈ ds', Declared ns' d) :
    ∀ d ∈ ds ++ ds', Declared (ns ++ ns') d := by
  intro d hd
  rcases List.mem_append.mp hd with hd | hd
  · exact (h d hd).mono (List.subset_append_left _ _)
  · exact (h' d hd).mono (List.subset_append_right _ _)

mutual

theorem declared (inList : Bool) : (n : Node) → ∀ d ∈ declarations inList n, Declared n.walk d
  | .mk t h ss => by
    have hself : ∀ d ∈ (functionName? h ss).toList.map (⟨[], inList, ·, .mk t h ss⟩),
        Declared [.mk t h ss] d := by
      intro d hd
      obtain ⟨name, hname, rfl⟩ := List.mem_map.mp hd
      exact ⟨Option.mem_toList.mp hname, List.mem_cons_self ..⟩
    exact Declared.of_append hself (declared_slots 0 ss)

theorem declared_slots (i : Nat) : (ss : List (Slot Node)) →
    ∀ d ∈ declarationsSlots i ss, Declared (walkSlots ss) d
  | [] => nofun
  | .one none :: ss => declared_slots (i + 1) ss
  | .one (some c) :: ss => .of_append (.of_under (declared false c)) (declared_slots (i + 1) ss)
  | .many cs :: ss => .of_append (declared_items i 0 cs) (declared_slots (i + 1) ss)

theorem declared_items (i k : Nat) : (cs : List (Option Node)) →
    ∀ d ∈ declarationsItems i k cs, Declared (walkItems cs) d
  | [] => nofun
  | none :: cs => declared_items i (k + 1) cs
  | some c :: cs => .of_append (.of_under (declared true c)) (declared_items i (k + 1) cs)

end

/-! A function keeps its name when something is taken out of it. -/

theorem functionName?_without (gone : Place → Bool) (h : Head) (ss : List (Slot Node)) :
    functionName? h (withoutSlots gone 0 ss) = functionName? h ss := by
  cases h with
  | functionDeclaration =>
    match ss with
    | [] | .one none :: _ | .many _ :: _ => rfl
    | .one (some (.mk _ hd [])) :: _
    | .one (some (.mk _ hd (.one none :: _))) :: _
    | .one (some (.mk _ hd (.one (some _) :: _))) :: _
    | .one (some (.mk _ hd (.many _ :: _))) :: _ => cases hd <;> rfl
  | _ => rfl

theorem HasName.without {gone : Place → Bool} {t : Tag} {h : Head} {ss : List (Slot Node)}
    (hname : HasName (.mk t h ss)) : HasName (.mk t h (withoutSlots gone 0 ss)) := by
  intro hhead
  have h := hname hhead
  rwa [Node.head, Node.slots, functionName?_without]

mutual

theorem hasName_without : (n : Node) → {gone : Place → Bool} → n.Every HasName →
    (without gone n).Every HasName
  | .mk t h ss, _, hn => by
    obtain ⟨hname, hss⟩ := every_mk.mp hn
    exact every_mk.mpr ⟨hname.without, hasName_withoutSlots 0 ss hss⟩

theorem hasName_withoutSlots (i : Nat) : (ss : List (Slot Node)) → {gone : Place → Bool} →
    EverySlots HasName ss → EverySlots HasName (withoutSlots gone i ss)
  | [], _, _ => everySlots_nil
  | .one none :: ss, _, hss => everySlots_none.mpr (hasName_withoutSlots (i + 1) ss hss)
  | .one (some c) :: ss, _, hss =>
    have ⟨hc, hss⟩ := everySlots_one.mp hss
    everySlots_one.mpr ⟨hasName_without c hc, hasName_withoutSlots (i + 1) ss hss⟩
  | .many cs :: ss, _, hss =>
    have ⟨hcs, hss⟩ := everySlots_many.mp hss
    everySlots_many.mpr ⟨hasName_withoutItems i 0 cs hcs, hasName_withoutSlots (i + 1) ss hss⟩

theorem hasName_withoutItems (i k : Nat) : (cs : List (Option Node)) → {gone : Place → Bool} →
    EveryItems HasName cs → EveryItems HasName (withoutItems gone i k cs)
  | [], _, _ => everyItems_nil
  | none :: cs, _, hcs => everyItems_none.mpr (hasName_withoutItems i (k + 1) cs hcs)
  | some c :: cs, gone, hcs => by
    obtain ⟨hc, hcs⟩ := everyItems_some.mp hcs
    rw [withoutItems]
    split
    case isTrue => exact hasName_withoutItems i (k + 1) cs hcs
    case isFalse =>
      exact everyItems_some.mpr ⟨hasName_without c hc, hasName_withoutItems i (k + 1) cs hcs⟩

end

/-! What stays in a list is nested no deeper than the limit, since it was found to be unresolved. -/

def Shallow (limit depth : Nat) (ds : List Declaration) : Prop :=
  ∀ d ∈ ds, d.inList = true → depth + d.place.length ≤ limit

section
variable {limit depth : Nat} {ds ds' : List Declaration}

theorem Shallow.append (h : Shallow limit depth ds) (h' : Shallow limit depth ds') :
    Shallow limit depth (ds ++ ds') := by
  intro d hd
  rcases List.mem_append.mp hd with hd | hd
  · exact h d hd
  · exact h' d hd

theorem Shallow.under (x : Nat × Nat) (h : Shallow limit (depth + 1) ds) :
    Shallow limit depth (ds.map (·.under x)) := by
  intro d hd hlist
  obtain ⟨e, he, rfl⟩ := List.mem_map.mp hd
  have hle := h e he hlist
  rw [Declaration.under, List.length_cons]
  omega

theorem Shallow.mono {depth' : Nat} (h : Shallow limit depth ds) (hle : depth' ≤ depth) :
    Shallow limit depth' ds := fun d hd hlist =>
  Nat.le_trans (Nat.add_le_add_right hle _) (h d hd hlist)

end

def Uplifted (limit : Nat) (ns : List Node) : Prop :=
  ∀ n ∈ ns, Shallow limit 1 (declarationsSlots 0 n.slots)

theorem le_of_stays {limit depth : Nat} {found : Report} {name : String}
    (hstays : (fate limit true depth found name).leaves = false) : depth ≤ limit := by
  unfold fate at hstays
  split at hstays
  case isTrue => cases hstays
  case isFalse =>
    split at hstays
    case isTrue => cases hstays
    case isFalse hshallow => simpa using hshallow

theorem le_of_kept {limit depth : Nat} {found : Report} {h : Head} {ss : List (Slot Node)}
    {f : Option Finding} (hf : finding? limit true depth found h ss = .ok f)
    (hstays : ∀ g ∈ f, g.fate.leaves = false) (hhead : h = .functionDeclaration) :
    depth ≤ limit := by
  cases f with
  | none => exact absurd hhead (ne_of_finding? hf)
  | some g => exact le_of_stays ((finding?_eq_some hf).2 ▸ hstays g rfl)

mutual

theorem liftNode_shallow {limit : Nat} {inList : Bool} : {depth : Nat} → {found : Report} →
    (n : Node) → {r : Lifted (Option Node)} → (inList = true → 1 ≤ depth) →
    liftNode limit inList depth found n = .ok r →
    (∀ m, r.rest = some m → Shallow limit depth (declarations inList m)) ∧ Uplifted limit r.lifted
  | depth, found, .mk t h ss, r, hdepth, hr => by
    cases liftNode_iff.mp hr with
    | dropped => exact ⟨nofun, nofun⟩
    | kept hf hstays ha =>
      obtain ⟨hslots, hup⟩ := liftSlots_shallow ss ha
      refine ⟨fun m hm => ?_, hup⟩
      cases hm
      refine Shallow.append (fun d hd hlist => ?_) (hslots 0)
      obtain ⟨name, hname, rfl⟩ := List.mem_map.mp hd
      dsimp only at hlist
      subst hlist
      refine le_of_kept hf hstays ?_
      cases h with
      | functionDeclaration => rfl
      | _ => cases hname
    | moved hf hhoisted ha =>
      obtain ⟨hslots, hup⟩ := liftSlots_shallow ss ha
      have hlist := inList_of_finding? hf (hhoisted ▸ rfl)
      exact ⟨nofun, List.forall_mem_cons.mpr ⟨(hslots 0).mono (hdepth hlist), hup⟩⟩

theorem liftSlots_shallow {limit : Nat} : {depth : Nat} → {found : Report} →
    (ss : List (Slot Node)) → {r : Lifted (List (Slot Node))} →
    liftSlots limit (depth + 1) found ss = .ok r →
    (∀ i, Shallow limit depth (declarationsSlots i r.rest)) ∧ Uplifted limit r.lifted
  | _, _, [], _, hr => by
    cases hr
    exact ⟨fun _ => nofun, nofun⟩
  | _, _, .one none :: ss, _, hr => by
    obtain ⟨b, hb, rfl⟩ := liftSlots_empty_iff.mp hr
    obtain ⟨hlater, hup⟩ := liftSlots_shallow ss hb
    exact ⟨fun i => hlater (i + 1), hup⟩
  | _, _, .one (some c) :: ss, _, hr => by
    obtain ⟨a, ha, b, hb, rfl⟩ := liftSlots_node_iff.mp hr
    obtain ⟨hfirst, hup⟩ := liftNode_shallow c (absurd · Bool.false_ne_true) ha
    obtain ⟨hlater, hup'⟩ := liftSlots_shallow ss hb
    refine ⟨fun i => ?_, List.forall_mem_append.mpr ⟨hup, hup'⟩⟩
    cases hrest : a.rest with
    | none => exact hlater (i + 1)
    | some m => exact ((hfirst m hrest).under (i, 0)).append (hlater (i + 1))
  | _, _, .many cs :: ss, _, hr => by
    obtain ⟨a, ha, b, hb, rfl⟩ := liftSlots_items_iff.mp hr
    obtain ⟨hfirst, hup⟩ := liftItems_shallow cs ha
    obtain ⟨hlater, hup'⟩ := liftSlots_shallow ss hb
    exact ⟨fun i => (hfirst i 0).append (hlater (i + 1)), List.forall_mem_append.mpr ⟨hup, hup'⟩⟩

theorem liftItems_shallow {limit : Nat} : {depth : Nat} → {found : Report} →
    (cs : List (Option Node)) → {r : Lifted (List (Option Node))} →
    liftItems limit (depth + 1) found cs = .ok r →
    (∀ i k, Shallow limit depth (declarationsItems i k r.rest)) ∧ Uplifted limit r.lifted
  | _, _, [], _, hr => by
    cases hr
    exact ⟨fun _ _ => nofun, nofun⟩
  | _, _, none :: cs, _, hr => by
    obtain ⟨b, hb, rfl⟩ := liftItems_hole_iff.mp hr
    obtain ⟨hlater, hup⟩ := liftItems_shallow cs hb
    exact ⟨fun i k => hlater i (k + 1), hup⟩
  | _, _, some c :: cs, _, hr => by
    obtain ⟨a, ha, b, hb, rfl⟩ := liftItems_node_iff.mp hr
    obtain ⟨hfirst, hup⟩ := liftNode_shallow c (fun _ => Nat.le_add_left ..) ha
    obtain ⟨hlater, hup'⟩ := liftItems_shallow cs hb
    refine ⟨fun i k => ?_, List.forall_mem_append.mpr ⟨hup, hup'⟩⟩
    cases hrest : a.rest with
    | none => exact hlater i k
    | some m => exact ((hfirst m hrest).under (i, k)).append (hlater i (k + 1))

end

end Unravel.Hoist
