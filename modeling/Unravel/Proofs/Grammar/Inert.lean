import Unravel.Proofs.Grammar.Inline

/-! Expressions and declarations of variables hold no statements, functions apart. In particular a
returned expression that is inlined holds none. -/

namespace Unravel

open Node

/-- What is neither a statement nor a part of one, declarations of variables apart. -/
def Kind.isInert (k : Kind) : Bool :=
  k.isExpression || k == .property || k == .variableDeclarator || k == .variableDeclaration

theorem Kind.isInert_of_isExpression {k : Kind} (h : k.isExpression = true) : k.isInert = true := by
  simp [Kind.isInert, h]

def Role.isInert : Role → Bool
  | .expression | .name | .target | .declarator | .property => true
  | _ => false

theorem Role.isInert_of_admits {r : Role} {k : Kind} (hr : r.isInert = true)
    (h : r.admits k = true) : k.isInert = true := by
  cases r <;> try cases hr
  all_goals simp only [admits, Bool.or_eq_true, beq_iff_eq] at h
  case expression => exact Kind.isInert_of_isExpression h
  case target => rcases h with rfl | rfl <;> rfl
  all_goals subst h; rfl

theorem Head.isInert_demands {h : Head} (hinert : h.kind.isInert = true)
    (hfunction : h.kind.isFunction = false) : ∀ d ∈ h.demands, d.role.isInert = true := by
  cases h with
  | memberExpression computed => cases computed <;> simp [Head.demands, Demand.role, Role.isInert]
  | _ => first | cases hinert; done | cases hfunction; done |
      simp [Head.demands, Demand.role, Role.isInert]

namespace Node

variable {t : Tag} {h : Head} {ss : List (Slot Node)}

theorem exists_demand_of_child (hn : (Node.mk t h ss).Conforms) {c : Node}
    (hc : c ∈ childrenOf ss) : ∃ d ∈ h.demands, d.role.admits c.kind = true := by
  unfold Conforms at hn
  simp only [head, slots] at hn
  generalize h.demands = ds at hn ⊢
  induction hn with
  | nil => cases hc
  | @cons d slot ds ss hslot _ ih =>
    rw [childrenOf_cons, List.mem_append] at hc
    rcases hc with hfirst | hrest
    · refine ⟨d, List.mem_cons_self .., ?_⟩
      cases slot with
      | one child =>
        cases Slot.mem_children_one.mp hfirst
        exact Demand.role_of_admits_one hslot
      | many items => exact Demand.role_of_admits_many hslot (Slot.mem_children_many.mp hfirst)
    · obtain ⟨e, he, hrole⟩ := ih hrest
      exact ⟨e, List.mem_cons_of_mem _ he, hrole⟩

theorem isInert_of_child (hn : (Node.mk t h ss).Conforms) (hinert : h.kind.isInert = true)
    (hfunction : h.kind.isFunction = false) {c : Node} (hc : c ∈ childrenOf ss) :
    c.kind.isInert = true := by
  obtain ⟨d, hd, hrole⟩ := exists_demand_of_child hn hc
  exact Role.isInert_of_admits (Head.isInert_demands hinert hfunction d hd) hrole

structure Bare (n : Node) : Prop where
  inert : n.kind.isInert = true
  outside : n.isFunction = false

theorem every_bare (n : Node) : n.WellKinded → n.kind.isInert = true →
    (n.Every fun c => c.isFunction = false) → n.Every Bare := by
  induction n with
  | h t h ss ih =>
    intro hn hinert hnone
    refine every_mk.mpr ⟨⟨hinert, hnone.self⟩, everySlots_iff.mpr fun c hc => ?_⟩
    exact ih c hc (hn.child hc) (isInert_of_child hn.self hinert hnone.self hc) (hnone.child hc)

end Node

namespace Rule

theorem isFunction_of_blocksInlining {self : Option String} {params : List String} {c : Node}
    {seat : Option Seat} (hblocks : blocksInlining self params c seat = false) :
    c.isFunction = false := by
  obtain ⟨t, h, ss⟩ := c
  cases h <;> first | rfl | cases hblocks

theorem returned_bare {t u : Tag} {h : Head} {self body result : Option Node}
    {params : List (Option Node)} {name : Option String} {names : List String}
    (hbody : Node.statements body = .ok [.returnStatement u result])
    (hblocks : ∀ c seat, (c, seat) ∈ (returned result).seated none →
      blocksInlining name names c seat = false)
    (hfn : (Node.mk t h [.one self, .many params, .one body]).WellKinded) :
    (returned result).unmarked.Every Bare := by
  obtain ⟨hresult, hexpression⟩ := returned_wellKinded hbody hfn
  refine every_bare _ hresult.unmarked ?_ fun c hc => ?_
  · rw [kind, head_unmarked]
    exact Kind.isInert_of_isExpression hexpression
  · obtain ⟨-, d, hd, hhead⟩ := exists_of_mem_walk_unmarked hc
    obtain ⟨seat, hseat⟩ := exists_seat none _ hd
    rw [isFunction, kind, ← hhead]
    exact isFunction_of_blocksInlining (hblocks d seat hseat)

end Rule
end Unravel
