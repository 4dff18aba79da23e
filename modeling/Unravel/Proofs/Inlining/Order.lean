import Unravel.Proofs.Rule.Inlined
import Unravel.Proofs.Tree.Children

/-! The order in which an expression is evaluated: operands from left to right, then the node itself. A
call that is inlined is evaluated as the returned expression is, except that where a parameter is read
its argument is evaluated. -/

namespace Unravel

def Seat.isBranch (s : Seat) : Bool :=
  match s.owner with
  | .conditionalExpression => s.field != .test
  | .logicalExpression _ => s.field == .right
  | _ => false

def isBranch (seat : Option Seat) : Bool := seat.any Seat.isBranch

/-- A node in the order of evaluation. It is sure to be evaluated unless it lies in a branch. -/
structure Moment where
  head : Head
  seat : Option Seat
  sure : Bool
deriving DecidableEq, Repr

theorem Head.eq_of_name? {h : Head} {x : String} (hname : h.name? = some x) : h = .identifier x := by
  cases h <;> cases hname
  rfl

namespace Node

mutual

def order (sure : Bool) (seat : Option Seat) : Node → List Moment
  | .mk _ (.identifier x) _ => [⟨.identifier x, seat, sure⟩]
  | .mk _ h ss => orderSlots sure h h.kind.fields ss ++ [⟨h, seat, sure⟩]

def orderSlots (sure : Bool) (h : Head) (fs : List Field) : List (Slot Node) → List Moment
  | [] => []
  | .one none :: ss => orderSlots sure h fs.tail ss
  | .one (some c) :: ss =>
    let seat := fs.head?.map (⟨h, ·⟩)
    order (sure && !isBranch seat) seat c ++ orderSlots sure h fs.tail ss
  | .many cs :: ss =>
    let seat := fs.head?.map (⟨h, ·⟩)
    orderItems (sure && !isBranch seat) seat cs ++ orderSlots sure h fs.tail ss

def orderItems (sure : Bool) (seat : Option Seat) : List (Option Node) → List Moment
  | [] => []
  | none :: cs => orderItems sure seat cs
  | some c :: cs => order sure seat c ++ orderItems sure seat cs

end

theorem order_identifier (sure : Bool) (seat : Option Seat) (t : Tag) (x : String)
    (ss : List (Slot Node)) :
    order sure seat (.mk t (.identifier x) ss) = [⟨.identifier x, seat, sure⟩] := by
  rw [order]

theorem order_mk {h : Head} (hname : h.name? = none) (sure : Bool) (seat : Option Seat) (t : Tag)
    (ss : List (Slot Node)) :
    order sure seat (.mk t h ss) = orderSlots sure h h.kind.fields ss ++ [⟨h, seat, sure⟩] := by
  rw [order]
  rintro x rfl
  cases hname

section
variable {τ : Type} {f : Relabel τ}

mutual

theorem order_relabel (hf : f.KeepsHeads) (seat' : Option Seat) (s : τ) (sure : Bool)
    (seat : Option Seat) : (n : Node) → order sure seat (relabel f seat' n s).1 = order sure seat n
  | .mk t h ss => by
    have hhead : (f seat' t h s).1.2 = h := hf seat' t h s
    simp only [relabel, hhead]
    cases hname : h.name? with
    | some x =>
      cases Head.eq_of_name? hname
      rw [order_identifier, order_identifier]
    | none =>
      have hbelow := orderSlots_relabel hf h h.kind.fields (f seat' t h s).2 sure ss
      rw [order_mk hname, order_mk hname, hbelow]

theorem orderSlots_relabel (hf : f.KeepsHeads) (h : Head) (fs : List Field) (s : τ) (sure : Bool) :
    (ss : List (Slot Node)) →
    orderSlots sure h fs (relabelSlots f h fs ss s).1 = orderSlots sure h fs ss
  | [] => rfl
  | .one none :: ss => by simp only [relabelSlots, orderSlots, orderSlots_relabel hf h _ _ sure ss]
  | .one (some c) :: ss => by
    simp only [relabelSlots, orderSlots, order_relabel hf _ _ _ _ c,
      orderSlots_relabel hf h _ _ sure ss]
  | .many cs :: ss => by
    simp only [relabelSlots, orderSlots, orderItems_relabel hf _ _ _ _ cs,
      orderSlots_relabel hf h _ _ sure ss]

theorem orderItems_relabel (hf : f.KeepsHeads) (seat' : Option Seat) (s : τ) (sure : Bool)
    (seat : Option Seat) : (cs : List (Option Node)) →
    orderItems sure seat (relabelItems f seat' cs s).1 = orderItems sure seat cs
  | [] => rfl
  | none :: cs => by simp only [relabelItems, orderItems, orderItems_relabel hf _ _ _ _ cs]
  | some c :: cs => by
    simp only [relabelItems, orderItems, order_relabel hf _ _ _ _ c,
      orderItems_relabel hf _ _ _ _ cs]

end

end

theorem order_unmarked (sure : Bool) (seat : Option Seat) (n : Node) :
    order sure seat n.unmarked = order sure seat n :=
  order_relabel unmarking_keepsHeads none () sure seat n

end Node

def Moment.read? (s : Moment) : Option String := if isReference s.seat then s.head.name? else none

namespace Rule

open Node

theorem Binding.get?_cons (b : Binding) (p x : String) (a : Node) :
    Binding.get? ((p, a) :: b) x = (b.get? x).or (if p = x then some a else none) := by
  unfold Binding.get?
  rw [List.reverse_cons, List.find?_append, Option.map_or]
  by_cases hp : p = x
  · simp [hp]
  · simp [hp]

/-- What is evaluated where the returned expression has a moment: the argument of the parameter that is
read, as it stands in the call, and else the moment itself. -/
def Binding.fill (b : Binding) (s : Moment) : List Moment :=
  match s.read?.bind b.get? with
  | some a => a.order s.sure s.seat
  | none => [s]

theorem fill_of_name_eq_none {b : Binding} {h : Head} {seat : Option Seat} {sure : Bool}
    (hname : h.name? = none) : b.fill ⟨h, seat, sure⟩ = [⟨h, seat, sure⟩] := by
  have hread : (Moment.mk h seat sure).read? = none := by
    rw [Moment.read?, hname, ite_self]
  rw [Binding.fill, hread]
  rfl

theorem substitute_mk {h : Head} (hname : h.name? = none) (b : Binding) (seat : Option Seat) (t : Tag)
    (ss : List (Slot Node)) :
    substitute b seat (.mk t h ss) = .mk t h (substituteSlots b h h.kind.fields ss) := by
  rw [substitute]
  rintro x rfl
  cases hname

mutual

theorem order_substitute (b : Binding) (sure : Bool) (seat : Option Seat) : (n : Node) →
    order sure seat (substitute b seat n) = (order sure seat n).flatMap b.fill
  | .mk t h ss => by
    cases hname : h.name? with
    | some x =>
      cases Head.eq_of_name? hname
      rw [order_identifier, List.flatMap_singleton, Binding.fill, Moment.read?, substitute]
      dsimp only [Head.name?]
      split
      · rw [Option.bind_some]
        cases b.get? x with
        | none => exact order_identifier sure seat t x ss
        | some a => exact order_unmarked sure seat a
      · exact order_identifier sure seat t x ss
    | none =>
      rw [substitute_mk hname, order_mk hname, order_mk hname, List.flatMap_append,
        List.flatMap_singleton, fill_of_name_eq_none hname, orderSlots_substitute b sure h _ ss]

theorem orderSlots_substitute (b : Binding) (sure : Bool) (h : Head) (fs : List Field) :
    (ss : List (Slot Node)) →
    orderSlots sure h fs (substituteSlots b h fs ss) = (orderSlots sure h fs ss).flatMap b.fill
  | [] => rfl
  | .one none :: ss => by
    simp only [substituteSlots, orderSlots, orderSlots_substitute b sure h _ ss]
  | .one (some c) :: ss => by
    simp only [substituteSlots, orderSlots, List.flatMap_append, order_substitute b _ _ c,
      orderSlots_substitute b sure h _ ss]
  | .many cs :: ss => by
    simp only [substituteSlots, orderSlots, List.flatMap_append, orderItems_substitute b _ _ cs,
      orderSlots_substitute b sure h _ ss]

theorem orderItems_substitute (b : Binding) (sure : Bool) (seat : Option Seat) :
    (cs : List (Option Node)) →
    orderItems sure seat (substituteItems b seat cs) = (orderItems sure seat cs).flatMap b.fill
  | [] => rfl
  | none :: cs => by
    simp only [substituteItems, orderItems, orderItems_substitute b sure seat cs]
  | some c :: cs => by
    simp only [substituteItems, orderItems, List.flatMap_append, order_substitute b _ _ c,
      orderItems_substitute b sure seat cs]

end

theorem instantiate?_eq_some {self : Option String} {params : List String} {expr m : Node}
    {arguments : List Node} (h : instantiate? self params expr arguments = some m) :
    (∀ c seat, (c, seat) ∈ expr.seated none → blocksInlining self params c seat = false) ∧
    (∀ a ∈ arguments.drop params.length, a.isPure = true) ∧
    (∀ p a, (p, a) ∈ bind params arguments → uses expr p = 1 ∨ a.isPure = true) ∧
    m = substitute (bind params arguments) none expr.unmarked := by
  unfold instantiate? at h
  dsimp only at h
  split at h
  · cases h
  · rename_i hopen
    split at h
    · cases h
    · rename_i hsurplus
      split at h
      · rename_i hguard
        cases h
        simp only [List.any_eq_true, not_exists, not_and, Bool.not_eq_true] at hopen
        rw [Bool.not_eq_true, Bool.not_eq_false', List.all_eq_true] at hsurplus
        rw [List.all_eq_true] at hguard
        refine ⟨fun c seat hc => hopen (c, seat) hc, hsurplus, fun p a hpa => ?_, rfl⟩
        have hused := hguard (p, a) hpa
        rw [Bool.or_eq_true, beq_iff_eq] at hused
        exact hused
      · cases h

/-- The replacement of a call is evaluated as the returned expression, with the arguments in the places
of the parameters. -/
theorem order_instantiate {self : Option String} {params : List String} {expr m : Node}
    {arguments : List Node} (h : instantiate? self params expr arguments = some m) :
    m.order true none = (expr.order true none).flatMap (bind params arguments).fill := by
  obtain ⟨-, -, -, rfl⟩ := instantiate?_eq_some h
  rw [order_substitute, order_unmarked]

end Rule
end Unravel
