import Mathlib.Logic.Function.Basic
import Unravel.Proofs.Tree.Every
import Unravel.Tree.Query

/-! Other names for the identifiers of a tree. Every traversal and every question that looks at names
only to compare them with each other commutes with the change of names. -/

namespace Unravel

open Node

def Head.mapNames (ν : String → String) : Head → Head
  | .identifier name => .identifier (ν name)
  | h => h

namespace Node

mutual

def mapNames (ν : String → String) : Node → Node
  | .mk t h ss => .mk t (h.mapNames ν) (mapNamesSlots ν ss)

def mapNamesSlots (ν : String → String) : List (Slot Node) → List (Slot Node)
  | [] => []
  | .one none :: ss => .one none :: mapNamesSlots ν ss
  | .one (some c) :: ss => .one (some (c.mapNames ν)) :: mapNamesSlots ν ss
  | .many cs :: ss => .many (mapNamesItems ν cs) :: mapNamesSlots ν ss

def mapNamesItems (ν : String → String) : List (Option Node) → List (Option Node)
  | [] => []
  | none :: cs => none :: mapNamesItems ν cs
  | some c :: cs => some (c.mapNames ν) :: mapNamesItems ν cs

end

end Node

abbrev Slot.mapNames (ν : String → String) : Slot Node → Slot Node := Slot.view (Node.mapNames ν)

variable {ν : String → String}

namespace Node

theorem mapNamesItems_eq (cs : List (Option Node)) :
    mapNamesItems ν cs = cs.map (Option.map (mapNames ν)) :=
  items_eq_map (mapNames ν) (mapNamesItems ν) rfl (fun _ => rfl) (fun _ _ => rfl) cs

theorem mapNamesSlots_eq (ss : List (Slot Node)) :
    mapNamesSlots ν ss = ss.map (Slot.mapNames ν) :=
  slots_eq_map (mapNames ν) (mapNamesSlots ν) rfl (fun _ => rfl) (fun _ _ => rfl)
    (fun cs ss => by rw [mapNamesSlots, mapNamesItems_eq]) ss

@[simp] theorem mapNames_mk (t : Tag) (h : Head) (ss : List (Slot Node)) :
    (Node.mk t h ss).mapNames ν = .mk t (h.mapNames ν) (ss.map (Slot.mapNames ν)) := by
  rw [mapNames, mapNamesSlots_eq]

end Node

@[simp] theorem Slot.mapNames_one (c : Option Node) :
    Slot.mapNames ν (.one c) = .one (c.map (Node.mapNames ν)) := rfl

@[simp] theorem Slot.mapNames_many (cs : List (Option Node)) :
    Slot.mapNames ν (.many cs) = .many (cs.map (Option.map (Node.mapNames ν))) := rfl

/-! Twice the same exchange of names changes nothing. -/

theorem Head.mapNames_mapNames (hν : Function.Involutive ν) (h : Head) :
    (h.mapNames ν).mapNames ν = h := by
  cases h with
  | identifier name => exact congrArg Head.identifier (hν name)
  | _ => rfl

namespace Node

mutual

theorem mapNames_mapNames (hν : Function.Involutive ν) : (n : Node) →
    (n.mapNames ν).mapNames ν = n
  | .mk t h ss => by
    rw [mapNames, mapNames, h.mapNames_mapNames hν, mapNamesSlots_mapNamesSlots hν ss]

theorem mapNamesSlots_mapNamesSlots (hν : Function.Involutive ν) : (ss : List (Slot Node)) →
    mapNamesSlots ν (mapNamesSlots ν ss) = ss
  | [] => rfl
  | .one none :: ss => by
    rw [mapNamesSlots, mapNamesSlots, mapNamesSlots_mapNamesSlots hν ss]
  | .one (some c) :: ss => by
    rw [mapNamesSlots, mapNamesSlots, mapNames_mapNames hν c, mapNamesSlots_mapNamesSlots hν ss]
  | .many cs :: ss => by
    rw [mapNamesSlots, mapNamesSlots, mapNamesItems_mapNamesItems hν cs,
      mapNamesSlots_mapNamesSlots hν ss]

theorem mapNamesItems_mapNamesItems (hν : Function.Involutive ν) : (cs : List (Option Node)) →
    mapNamesItems ν (mapNamesItems ν cs) = cs
  | [] => rfl
  | none :: cs => by
    rw [mapNamesItems, mapNamesItems, mapNamesItems_mapNamesItems hν cs]
  | some c :: cs => by
    rw [mapNamesItems, mapNamesItems, mapNames_mapNames hν c, mapNamesItems_mapNamesItems hν cs]

end

end Node

/-! Heads and seats look the same but for names. -/

@[simp] theorem Head.kind_mapNames (h : Head) : (h.mapNames ν).kind = h.kind := by
  cases h <;> rfl

namespace Node

variable (n : Node)

@[simp] theorem head_mapNames : (n.mapNames ν).head = n.head.mapNames ν := by
  obtain ⟨t, h, ss⟩ := n
  rfl

@[simp] theorem tag_mapNames : (n.mapNames ν).tag = n.tag := by
  obtain ⟨t, h, ss⟩ := n
  rfl

@[simp] theorem mark_mapNames : (n.mapNames ν).mark = n.mark := congrArg Tag.mark n.tag_mapNames

@[simp] theorem loc_mapNames : (n.mapNames ν).loc = n.loc := congrArg Tag.loc n.tag_mapNames

@[simp] theorem kind_mapNames : (n.mapNames ν).kind = n.kind := by
  rw [kind, kind, head_mapNames, Head.kind_mapNames]

@[simp] theorem slots_mapNames : (n.mapNames ν).slots = n.slots.map (Slot.mapNames ν) := by
  obtain ⟨t, h, ss⟩ := n
  rw [mapNames_mk]
  rfl

@[simp] theorem isFunction_mapNames : (n.mapNames ν).isFunction = n.isFunction := by
  rw [isFunction, isFunction, kind_mapNames]

@[simp] theorem name?_mapNames : (n.mapNames ν).name? = n.name?.map ν := by
  obtain ⟨t, h, ss⟩ := n
  cases h <;> rfl

@[simp] theorem supported_mapNames : (n.mapNames ν).supported = n.supported := by
  obtain ⟨t, h, ss⟩ := n
  cases h <;> rfl

end Node

def Seat.mapNames (ν : String → String) (s : Seat) : Seat := { s with owner := s.owner.mapNames ν }

namespace Seat

variable (s : Seat)

@[simp] theorem isReference_mapNames : (s.mapNames ν).isReference = s.isReference := by
  obtain ⟨h, field⟩ := s
  cases h <;> rfl

@[simp] theorem isWriteTarget_mapNames : (s.mapNames ν).isWriteTarget = s.isWriteTarget := by
  obtain ⟨h, field⟩ := s
  cases h <;> rfl

end Seat

@[simp] theorem isReference_map (seat : Option Seat) :
    isReference (seat.map (Seat.mapNames ν)) = isReference seat := by
  cases seat with
  | none => rfl
  | some s => exact s.isReference_mapNames

@[simp] theorem isWriteTarget_map (seat : Option Seat) :
    isWriteTarget (seat.map (Seat.mapNames ν)) = isWriteTarget seat := by
  cases seat with
  | none => rfl
  | some s => exact s.isWriteTarget_mapNames

theorem seat_mapNames (h : Head) (field : Option Field) :
    field.map (Seat.mk (h.mapNames ν)) = (field.map (Seat.mk h)).map (Seat.mapNames ν) := by
  cases field <;> rfl

namespace Node

/-! Traversals. -/

mutual

theorem walk_mapNames : (n : Node) → (n.mapNames ν).walk = n.walk.map (mapNames ν)
  | .mk t h ss => by
    rw [mapNames, walk, walkSlots_mapNames ss, walk, List.map_cons, mapNames]

theorem walkSlots_mapNames : (ss : List (Slot Node)) →
    walkSlots (mapNamesSlots ν ss) = (walkSlots ss).map (mapNames ν)
  | [] => rfl
  | .one none :: ss => walkSlots_mapNames ss
  | .one (some c) :: ss => by
    rw [mapNamesSlots, walkSlots, walk_mapNames c, walkSlots_mapNames ss, walkSlots,
      List.map_append]
  | .many cs :: ss => by
    rw [mapNamesSlots, walkSlots, walkItems_mapNames cs, walkSlots_mapNames ss, walkSlots,
      List.map_append]

theorem walkItems_mapNames : (cs : List (Option Node)) →
    walkItems (mapNamesItems ν cs) = (walkItems cs).map (mapNames ν)
  | [] => rfl
  | none :: cs => walkItems_mapNames cs
  | some c :: cs => by
    rw [mapNamesItems, walkItems, walk_mapNames c, walkItems_mapNames cs, walkItems,
      List.map_append]

end

abbrev seatNames (ν : String → String) (p : Node × Option Seat) : Node × Option Seat :=
  (p.1.mapNames ν, p.2.map (Seat.mapNames ν))

mutual

theorem seated_mapNames (seat : Option Seat) : (n : Node) →
    (n.mapNames ν).seated (seat.map (Seat.mapNames ν)) = (n.seated seat).map (seatNames ν)
  | .mk t h ss => by
    rw [mapNames, seated, Head.kind_mapNames, seatedSlots_mapNames h _ ss, seated, List.map_cons,
      seatNames, mapNames]

theorem seatedSlots_mapNames (h : Head) (fs : List Field) : (ss : List (Slot Node)) →
    seatedSlots (h.mapNames ν) fs (mapNamesSlots ν ss) = (seatedSlots h fs ss).map (seatNames ν)
  | [] => rfl
  | .one none :: ss => seatedSlots_mapNames h fs.tail ss
  | .one (some c) :: ss => by
    rw [mapNamesSlots, seatedSlots, seat_mapNames, seated_mapNames _ c,
      seatedSlots_mapNames h fs.tail ss, seatedSlots, List.map_append]
  | .many cs :: ss => by
    rw [mapNamesSlots, seatedSlots, seat_mapNames, seatedItems_mapNames _ cs,
      seatedSlots_mapNames h fs.tail ss, seatedSlots, List.map_append]

theorem seatedItems_mapNames (seat : Option Seat) : (cs : List (Option Node)) →
    seatedItems (seat.map (Seat.mapNames ν)) (mapNamesItems ν cs) =
      (seatedItems seat cs).map (seatNames ν)
  | [] => rfl
  | none :: cs => seatedItems_mapNames seat cs
  | some c :: cs => by
    rw [mapNamesItems, seatedItems, seated_mapNames seat c, seatedItems_mapNames seat cs,
      seatedItems, List.map_append]

end

mutual

theorem reach_mapNames : (n : Node) → (n.mapNames ν).reach = n.reach.map (mapNames ν)
  | .mk t h ss => by
    rw [mapNames, reach, Head.kind_mapNames, reachSlots_mapNames ss, reach, List.map_cons, mapNames]
    split <;> rfl

theorem reachSlots_mapNames : (ss : List (Slot Node)) →
    reachSlots (mapNamesSlots ν ss) = (reachSlots ss).map (mapNames ν)
  | [] => rfl
  | .one none :: ss => reachSlots_mapNames ss
  | .one (some c) :: ss => by
    rw [mapNamesSlots, reachSlots, reach_mapNames c, reachSlots_mapNames ss, reachSlots,
      List.map_append]
  | .many cs :: ss => by
    rw [mapNamesSlots, reachSlots, reachItems_mapNames cs, reachSlots_mapNames ss, reachSlots,
      List.map_append]

theorem reachItems_mapNames : (cs : List (Option Node)) →
    reachItems (mapNamesItems ν cs) = (reachItems cs).map (mapNames ν)
  | [] => rfl
  | none :: cs => reachItems_mapNames cs
  | some c :: cs => by
    rw [mapNamesItems, reachItems, reach_mapNames c, reachItems_mapNames cs, reachItems,
      List.map_append]

end

theorem scope_mapNames (n : Node) : (n.mapNames ν).scope = n.scope.map (mapNames ν) := by
  rw [scope, slots_mapNames, ← mapNamesSlots_eq, reachSlots_mapNames, scope]

@[simp] theorem containsReturn_mapNames (n : Node) :
    (n.mapNames ν).containsReturn = n.containsReturn := by
  rw [containsReturn, scope_mapNames, List.any_map, containsReturn]
  exact List.any_congr rfl fun c => by rw [Function.comp_apply, kind_mapNames]

theorem jumpsOut_mapNames (inLoop inSwitch : Bool) (n : Node) :
    (n.mapNames ν).jumpsOut inLoop inSwitch = n.jumpsOut inLoop inSwitch := by
  obtain ⟨t, h, ss⟩ := n
  rw [mapNames_mk]
  cases h with
  | breakStatement =>
    match ss with
    | [.one none] | [.one (some _)] => rfl
    | [] | [.many _] | .one _ :: _ :: _ | .many _ :: _ :: _ => rfl
  | continueStatement =>
    match ss with
    | [.one none] | [.one (some _)] => rfl
    | [] | [.many _] | .one _ :: _ :: _ | .many _ :: _ :: _ => rfl
  | _ => rfl

mutual

theorem exits_mapNames (inLoop inSwitch : Bool) : (n : Node) →
    (n.mapNames ν).exits inLoop inSwitch = n.exits inLoop inSwitch
  | .mk t h ss => by
    have hjump : ((Node.mk t h ss).mapNames ν).jumpsOut inLoop inSwitch = _ := jumpsOut_mapNames ..
    rw [mapNames] at hjump ⊢
    rw [exits, hjump, Head.kind_mapNames, exitsSlots_mapNames _ _ ss, exits]

theorem exitsSlots_mapNames (inLoop inSwitch : Bool) : (ss : List (Slot Node)) →
    exitsSlots inLoop inSwitch (mapNamesSlots ν ss) = exitsSlots inLoop inSwitch ss
  | [] => rfl
  | .one none :: ss => exitsSlots_mapNames inLoop inSwitch ss
  | .one (some c) :: ss => by
    rw [mapNamesSlots, exitsSlots, exits_mapNames _ _ c, exitsSlots_mapNames _ _ ss, exitsSlots]
  | .many cs :: ss => by
    rw [mapNamesSlots, exitsSlots, exitsItems_mapNames _ _ cs, exitsSlots_mapNames _ _ ss,
      exitsSlots]

theorem exitsItems_mapNames (inLoop inSwitch : Bool) : (cs : List (Option Node)) →
    exitsItems inLoop inSwitch (mapNamesItems ν cs) = exitsItems inLoop inSwitch cs
  | [] => rfl
  | none :: cs => exitsItems_mapNames inLoop inSwitch cs
  | some c :: cs => by
    rw [mapNamesItems, exitsItems, exits_mapNames _ _ c, exitsItems_mapNames _ _ cs, exitsItems]

end

@[simp] theorem hasLoopExit_mapNames (n : Node) : (n.mapNames ν).hasLoopExit = n.hasLoopExit := by
  rw [hasLoopExit, slots_mapNames, ← mapNamesSlots_eq, exitsSlots_mapNames, hasLoopExit]

/-! New tags. -/

def Relabel.Blind {τ : Type} (ν : String → String) (f : Relabel τ) : Prop :=
  ∀ seat t h s, f (seat.map (Seat.mapNames ν)) t (h.mapNames ν) s =
    (((f seat t h s).1.1, (f seat t h s).1.2.mapNames ν), (f seat t h s).2)

section
variable {τ : Type} {f : Relabel τ}

mutual

theorem relabel_mapNames (hf : f.Blind ν) (seat : Option Seat) : (n : Node) → (s : τ) →
    relabel f (seat.map (Seat.mapNames ν)) (n.mapNames ν) s =
      ((relabel f seat n s).1.mapNames ν, (relabel f seat n s).2)
  | .mk t h ss, s => by
    simp only [mapNames, relabel, hf seat t h s, Head.kind_mapNames, relabelSlots_mapNames hf h _ ss]

theorem relabelSlots_mapNames (hf : f.Blind ν) (h : Head) (fs : List Field) :
    (ss : List (Slot Node)) → (s : τ) →
    relabelSlots f (h.mapNames ν) fs (mapNamesSlots ν ss) s =
      (mapNamesSlots ν (relabelSlots f h fs ss s).1, (relabelSlots f h fs ss s).2)
  | [], s => rfl
  | .one none :: ss, s => by
    simp only [mapNamesSlots, relabelSlots, relabelSlots_mapNames hf h fs.tail ss]
  | .one (some c) :: ss, s => by
    simp only [mapNamesSlots, relabelSlots, seat_mapNames, relabel_mapNames hf _ c,
      relabelSlots_mapNames hf h fs.tail ss]
  | .many cs :: ss, s => by
    simp only [mapNamesSlots, relabelSlots, seat_mapNames, relabelItems_mapNames hf _ cs,
      relabelSlots_mapNames hf h fs.tail ss]

theorem relabelItems_mapNames (hf : f.Blind ν) (seat : Option Seat) : (cs : List (Option Node)) →
    (s : τ) →
    relabelItems f (seat.map (Seat.mapNames ν)) (mapNamesItems ν cs) s =
      (mapNamesItems ν (relabelItems f seat cs s).1, (relabelItems f seat cs s).2)
  | [], s => rfl
  | none :: cs, s => by
    simp only [mapNamesItems, relabelItems, relabelItems_mapNames hf seat cs]
  | some c :: cs, s => by
    simp only [mapNamesItems, relabelItems, relabel_mapNames hf seat c,
      relabelItems_mapNames hf seat cs]

end
end

theorem numbering_blind : numbering.Blind ν := by
  intro seat t h s
  obtain ⟨mark, loc⟩ := t
  cases mark <;> rfl

theorem number_mapNames (n : Node) (next : Nat) :
    (n.mapNames ν).number next = ((n.number next).1.mapNames ν, (n.number next).2) :=
  relabel_mapNames numbering_blind none n next

theorem unmarked_mapNames (n : Node) : (n.mapNames ν).unmarked = n.unmarked.mapNames ν :=
  congrArg Prod.fst (relabel_mapNames (f := unmarking) (fun _ _ _ _ => rfl) none n ())

theorem find?_mapNames (n : Node) (mark : Nat) :
    (n.mapNames ν).find? mark = (n.find? mark).map (mapNames ν) := by
  rw [find?, walk_mapNames, List.find?_map, find?]
  congr 2
  funext c
  rw [Function.comp_apply, mark_mapNames]

end Node
end Unravel
