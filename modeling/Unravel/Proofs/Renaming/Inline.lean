import Unravel.Proofs.Renaming.Rule
import Unravel.Rule.Inline

/-! Inlining under other names: parameters, arguments and the names that block inlining are compared
with each other only. -/

namespace Unravel

open Node

variable {ν : String → String}

theorem beq_some_map (hν : Function.Injective ν) (x : Option String) (y : String) :
    (x.map ν == some (ν y)) = (x == some y) := by
  cases x with
  | none => rfl
  | some x =>
    rw [Option.map_some, Bool.eq_iff_iff, beq_iff_eq, beq_iff_eq, Option.some_inj, Option.some_inj,
      hν.eq_iff]

theorem mapM_map {α α' β β' : Type} {s : α → α'} {φ : β → β'} {f : α → Except Fault β}
    {f' : α' → Except Fault β'} (as : List α) (h : ∀ a ∈ as, f' (s a) = (f a).map φ) :
    (as.map s).mapM f' = (as.mapM f).map (List.map φ) := by
  induction as with
  | nil => rfl
  | cons a as ih =>
    obtain ⟨hfirst, hrest⟩ := List.forall_mem_cons.mp h
    rw [List.map_cons, List.mapM_cons, List.mapM_cons, hfirst, ih hrest]
    refine bind_map fun b _ => ?_
    exact bind_map fun bs _ => rfl

theorem Node.usesFunctionContext_mapNames (hν : Function.Injective ν)
    (harguments : ν "arguments" = "arguments") (n : Node) :
    (n.mapNames ν).usesFunctionContext = n.usesFunctionContext := by
  rw [usesFunctionContext, scope_mapNames, List.any_map, usesFunctionContext]
  refine List.any_congr rfl fun c => ?_
  have hname := beq_some_map hν c.name? "arguments"
  rw [harguments] at hname
  rw [Function.comp_apply, kind_mapNames, name?_mapNames, hname]

@[simp] theorem Node.isPure_mapNames (n : Node) : (n.mapNames ν).isPure = n.isPure := by
  rw [isPure, kind_mapNames, isPure]

namespace Rule

abbrev Binding.mapNames (ν : String → String) (b : Binding) : Binding :=
  Table.mapNames ν (Node.mapNames ν) b

theorem Binding.get?_mapNames (hν : Function.Injective ν) (b : Binding) (name : String) :
    (b.mapNames ν).get? (ν name) = (b.get? name).map (Node.mapNames ν) := by
  have hget := Table.get?_mapNames (g := Node.mapNames ν) hν b.reverse name
  rw [Table.mapNames, List.map_reverse] at hget
  exact hget

mutual

theorem substitute_mapNames (hν : Function.Injective ν) (b : Binding) (seat : Option Seat) :
    (n : Node) → substitute (b.mapNames ν) (seat.map (Seat.mapNames ν)) (n.mapNames ν) =
      (substitute b seat n).mapNames ν
  | .mk t h ss => by
    have hslots := substituteSlots_mapNames hν b h h.kind.fields ss
    rw [mapNames]
    cases h with
    | identifier name =>
      simp only [Head.mapNames, substitute, isReference_map, Binding.get?_mapNames hν]
      split
      · cases b.get? name with
        | none => rfl
        | some a => exact a.unmarked_mapNames
      · rw [mapNames, Head.mapNames]
    | _ =>
      simp only [Head.mapNames, substitute, mapNames] at hslots ⊢
      rw [hslots]

theorem substituteSlots_mapNames (hν : Function.Injective ν) (b : Binding) (h : Head)
    (fs : List Field) : (ss : List (Slot Node)) →
    substituteSlots (b.mapNames ν) (h.mapNames ν) fs (mapNamesSlots ν ss) =
      mapNamesSlots ν (substituteSlots b h fs ss)
  | [] => rfl
  | .one none :: ss => by
    rw [mapNamesSlots, substituteSlots, substituteSlots_mapNames hν b h fs.tail ss,
      substituteSlots, mapNamesSlots]
  | .one (some c) :: ss => by
    rw [mapNamesSlots, substituteSlots, seat_mapNames, substitute_mapNames hν b _ c,
      substituteSlots_mapNames hν b h fs.tail ss, substituteSlots, mapNamesSlots]
  | .many cs :: ss => by
    rw [mapNamesSlots, substituteSlots, seat_mapNames, substituteItems_mapNames hν b _ cs,
      substituteSlots_mapNames hν b h fs.tail ss, substituteSlots, mapNamesSlots]

theorem substituteItems_mapNames (hν : Function.Injective ν) (b : Binding) (seat : Option Seat) :
    (cs : List (Option Node)) →
    substituteItems (b.mapNames ν) (seat.map (Seat.mapNames ν)) (mapNamesItems ν cs) =
      mapNamesItems ν (substituteItems b seat cs)
  | [] => rfl
  | none :: cs => by
    rw [mapNamesItems, substituteItems, substituteItems_mapNames hν b seat cs, substituteItems,
      mapNamesItems]
  | some c :: cs => by
    rw [mapNamesItems, substituteItems, substitute_mapNames hν b seat c,
      substituteItems_mapNames hν b seat cs, substituteItems, mapNamesItems]

end

theorem blocksInlining_mapNames (hν : Function.Injective ν)
    (harguments : ν "arguments" = "arguments") (self : Option String) (params : List String)
    (n : Node) (seat : Option Seat) :
    blocksInlining (self.map ν) (params.map ν) (n.mapNames ν) (seat.map (Seat.mapNames ν)) =
      blocksInlining self params n seat := by
  obtain ⟨t, h, ss⟩ := n
  rw [mapNames_mk]
  cases h with
  | identifier name =>
    have hname : (ν name == "arguments") = (name == "arguments") := by
      rw [Bool.eq_iff_iff, beq_iff_eq, beq_iff_eq, ← hν.eq_iff (a := name), harguments]
    simp only [blocksInlining, head, Head.mapNames, hname, beq_some_map hν,
      Site.contains_map hν, isReference_map, isWriteTarget_map]
  | _ => rfl

theorem uses_mapNames (hν : Function.Injective ν) (expr : Node) (param : String) :
    uses (expr.mapNames ν) (ν param) = uses expr param := by
  have hseated := seated_mapNames (ν := ν) none expr
  rw [Option.map_none] at hseated
  rw [uses, hseated, List.countP_map, uses]
  refine congrArg (List.countP · _) (funext fun p => ?_)
  simp only [Function.comp_apply, name?_mapNames, beq_some_map hν, isReference_map]

theorem bind_mapNames (params : List String) (arguments : List Node) :
    bind (params.map ν) (arguments.map (mapNames ν)) = (bind params arguments).mapNames ν := by
  induction params generalizing arguments with
  | nil => rfl
  | cons p ps ih =>
    cases arguments with
    | nil => exact congrArg ((ν p, Node.literal (.fresh none) .undefined) :: ·) (ih [])
    | cons a as => exact congrArg ((ν p, a.mapNames ν) :: ·) (ih as)

theorem instantiate?_mapNames (hν : Function.Injective ν)
    (harguments : ν "arguments" = "arguments") (self : Option String) (params : List String)
    (expr : Node) (arguments : List Node) :
    instantiate? (self.map ν) (params.map ν) (expr.mapNames ν) (arguments.map (mapNames ν)) =
      (instantiate? self params expr arguments).map (mapNames ν) := by
  have hseated := seated_mapNames (ν := ν) none expr
  rw [Option.map_none] at hseated
  have hblocks : ((expr.mapNames ν).seated none).any
      (fun p => blocksInlining (self.map ν) (params.map ν) p.1 p.2) =
      (expr.seated none).any fun p => blocksInlining self params p.1 p.2 := by
    rw [hseated, List.any_map]
    exact List.any_congr rfl fun p => blocksInlining_mapNames hν harguments self params p.1 p.2
  have hpure : ((arguments.map (mapNames ν)).drop (params.map ν).length).all isPure =
      (arguments.drop params.length).all isPure := by
    rw [List.length_map, ← List.map_drop, List.all_map]
    exact List.all_congr rfl fun a => a.isPure_mapNames
  have huses : (bind (params.map ν) (arguments.map (mapNames ν))).all
      (fun e => uses (expr.mapNames ν) e.1 == 1 || e.2.isPure) =
      (bind params arguments).all fun e => uses expr e.1 == 1 || e.2.isPure := by
    rw [bind_mapNames, Binding.mapNames, Table.mapNames, List.all_map]
    refine List.all_congr rfl fun e => ?_
    simp only [Function.comp_apply, Prod.map, uses_mapNames hν, isPure_mapNames]
  have hexpr : substitute (bind (params.map ν) (arguments.map (mapNames ν))) none
      (expr.mapNames ν).unmarked =
      (substitute (bind params arguments) none expr.unmarked).mapNames ν := by
    rw [bind_mapNames, unmarked_mapNames]
    exact substitute_mapNames hν _ none _
  unfold instantiate?
  simp only [hblocks, hpure, huses, hexpr]
  split
  · rfl
  · split
    · rfl
    · split <;> rfl

theorem selfName_mapNames (self : Option Node) :
    selfName (self.map (mapNames ν)) = (selfName self).map (Option.map ν) := by
  match self with
  | none => rfl
  | some (.mk t h ss) => cases h <;> rfl

theorem expand_mapNames (hν : Function.Injective ν) (harguments : ν "arguments" = "arguments")
    (fn : Node) (arguments : List (Option Node)) :
    expand (fn.mapNames ν) (arguments.map (Option.map (mapNames ν))) =
      (expand fn arguments).map (Option.map (mapNames ν)) := by
  unfold expand
  rw [singleReturn?_mapNames, slots_mapNames]
  refine bind_map fun result _ => ?_
  cases result with
  | none => rfl
  | some result =>
    have hexpr : (result.map (mapNames ν)).getD (.literal (.fresh none) .undefined) =
        (result.getD (.literal (.fresh none) .undefined)).mapNames ν := by
      cases result <;> rfl
    simp only [Option.map_some, hexpr]
    match fn.slots with
    | [.one self, .many params, s] =>
      simp only [List.map_cons, List.map_nil, Slot.mapNames_one, Slot.mapNames_many,
        selfName_mapNames, filterMap_map_names, mapM_map params fun c _ => nameOf_mapNames c]
      refine bind_map fun self _ => ?_
      refine bind_map fun params _ => ?_
      exact congrArg Except.ok (instantiate?_mapNames hν harguments _ _ _ _)
    | [] | [.one _] | [.many _] | .many _ :: _ :: _ | [.one _, .one _] | [.one _, .many _]
    | .one _ :: .one _ :: _ :: _ | .one _ :: .many _ :: _ :: _ :: _ => rfl

theorem called?_mapNames (hν : Function.Injective ν) (site : Site) (call callee : Node) :
    called? (site.mapNames ν) (call.mapNames ν) (callee.mapNames ν) =
      (called? site call callee).map (mapNames ν) := by
  obtain ⟨t, h, ss⟩ := callee
  unfold called?
  rw [head_mapNames]
  cases h with
  | identifier name =>
    simp only [head, Head.mapNames, site.isConstantName_mapNames hν, site.function?_mapNames hν]
    split <;> rfl
  | _ => rfl

theorem commutes_inlineReturn : Transform.Commutes ν inlineReturn := by
  refine Transform.commutes fun site n hfair => ?_
  have hinj := hfair.involutive.injective
  unfold inlineReturn
  split
  · rename_i t callee arguments
    refine .inr ?_
    have hcalled := called?_mapNames hinj site (.callExpression t callee arguments) callee
    simp only [mapNames_mk, List.map_cons, List.map_nil, Slot.mapNames_one, Slot.mapNames_many,
      Option.map_some, Head.mapNames] at hcalled ⊢
    rw [hcalled]
    cases called? site (.callExpression t callee arguments) callee with
    | none => rfl
    | some fn =>
      dsimp only [Option.map_some]
      rw [expand_mapNames hinj hfair.arguments]
      refine bind_map fun result _ => ?_
      cases result <;> rfl
  · exact .inl rfl

theorem commutes_inlineTimer : Transform.Commutes ν inlineTimer := by
  refine Transform.commutes fun site n hfair => ?_
  have hinj := hfair.involutive.injective
  unfold inlineTimer
  split
  · rename_i callee _ _ body _ delay
    refine .inr ?_
    simp only [mapNames_mk, List.map_cons, List.map_nil, Slot.mapNames_one, Slot.mapNames_many,
      Option.map_some, Head.mapNames, Site.settings_mapNames, hfair.deferred]
    split
    · rfl
    · cases body with
      | none => rfl
      | some body =>
        have hstatements := Node.statements_mapNames (ν := ν) (some body)
        simp only [Option.map_some, containsReturn_mapNames,
          usesFunctionContext_mapNames hinj hfair.arguments, Site.inSequence_mapNames] at hstatements ⊢
        split
        · rfl
        · split
          · rw [hstatements]
            refine bind_map fun statements _ => ?_
            rw [declaresLexical_mapNames]
            split
            · cases statements <;> rfl
            · rfl
          · rfl
  · exact .inl rfl

end Rule
end Unravel
