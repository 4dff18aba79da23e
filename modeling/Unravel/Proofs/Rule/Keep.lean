import Unravel.Proofs.Facts
import Unravel.Proofs.Rule.Move
import Unravel.Proofs.Tree.Names

/-! A move brings no new names: what it puts into the tree and what it records is about names that
its node already has. -/

namespace Unravel

open Node

def Outcome.names : Outcome → List String
  | .replace n => n.names
  | .splice ns => namesItems (ns.map some)
  | .remove => []
  | .learn fact => [fact.name]

namespace Rule

theorem namesItems_statements_subset {body : Node} {statements : List Node}
    (h : Node.statements (some body) = .ok statements) :
    namesItems (statements.map some) ⊆ body.names := by
  obtain ⟨t, hd, items, -, rfl, rfl⟩ := statements_cases h
  rw [namesItems_filterMap]
  simp

theorem names_body_subset (t : Tag) (self : Option Node) (params : List (Option Node))
    (body : Node) : body.names ⊆ (Node.functionExpression t self params (some body)).names := by
  rw [names_mk, namesSlots_cons, namesSlots_many, namesSlots_one]
  exact List.subset_append_of_subset_right _ (List.subset_append_of_subset_right _
    (List.subset_append_of_subset_right _ (List.subset_append_left _ _)))

theorem namesItems_leadIn (init : Option Node) :
    namesItems ((leadIn init).map some) = namesSlots [.one init] := by
  obtain ⟨rfl, h⟩ | ⟨e, rfl, ⟨-, h⟩ | ⟨-, h⟩⟩ := leadIn_cases init <;>
    simp [h, asStatement, Head.names]

theorem namesItems_leadOut (update : Option Node) :
    namesItems ((update.toList.map asStatement).map some) = namesSlots [.one update] := by
  cases update <;> simp [asStatement, Head.names]

theorem names_branch_subset {b : Bool} {consequent alternate : Option Node} {m : Node}
    (h : (if b then consequent else alternate) = some m) :
    m.names ⊆ namesSlots [.one consequent, .one alternate] := by
  rw [namesSlots_cons]
  rcases branch_cases h with rfl | rfl <;> simp

theorem names_unrolled_subset (t u : Tag) (statement : Node) (init update : Option Node)
    (test : Slot Node) :
    namesItems ((leadIn init ++ statement :: update.toList.map asStatement).map some) ⊆
      (Node.mk t .forStatement [.one init, test, .one update,
        .one (some (.blockStatement u [some statement]))]).names := by
  rw [names_mk, namesSlots_cons (.one init), namesSlots_cons test, namesSlots_cons (.one update),
    List.map_append, List.map_cons, namesItems_append, namesItems_some, namesItems_leadIn,
    namesItems_leadOut]
  intro x
  simp only [namesSlots_one, names_mk, namesSlots_many, namesItems_some, List.mem_append]
  grind

theorem Move.names_subset {site : Site} {n : Node} {o : Outcome} (h : Move site n o) :
    o.names ⊆ n.names := by
  cases h with
  | recordConstant => simp [Outcome.names, Fact.name, Head.names]
  | recordArray => simp [Outcome.names, Fact.name, Head.names]
  | recordDeclaration => simp [Outcome.names, Fact.name, Head.names]
  | recordExpression => simp [Outcome.names, Fact.name, Head.names]
  | dropSelfAssignment => exact List.nil_subset _
  | dropTimer => exact List.nil_subset _
  | dropCall => exact List.nil_subset _
  | pruneDeclaration => exact List.nil_subset _
  | pruneCall => exact List.nil_subset _
  | readConstant => exact List.nil_subset _
  | addLiterals => exact List.nil_subset _
  | readElement => exact List.nil_subset _
  | chooseNothing => exact List.nil_subset _
  | expandAnd =>
    rename_i t left right
    rw [Outcome.names, names_mk, names_mk, namesSlots_cons left [right, _],
      namesSlots_cons left [right], namesSlots_cons right [_]]
    simp [Head.names]
  | expandOr =>
    rename_i t left right
    rw [Outcome.names, names_mk, names_mk, namesSlots_cons left [_, right],
      namesSlots_cons left [right]]
    simp [Head.names]
  | chooseOperand _ hm =>
    rw [Outcome.names, names_mk, namesSlots_cons]
    exact List.subset_append_of_subset_right _
      (List.subset_append_of_subset_right _ (names_branch_subset hm))
  | chooseBranch _ hm =>
    rw [Outcome.names, names_mk, namesSlots_cons]
    exact List.subset_append_of_subset_right _
      (List.subset_append_of_subset_right _ (names_branch_subset hm))
  | @dissolveBranch _ _ _ _ _ _ _ body _ hm =>
    rw [Outcome.names, names_mk, namesSlots_cons, namesItems_filterMap]
    have hbody := names_branch_subset hm
    rw [names_mk, namesSlots_many, namesSlots_nil, List.append_nil] at hbody
    exact List.subset_append_of_subset_right _
      (List.subset_append_of_subset_right _ hbody)
  | @spliceTimer t u v w x callee self body delay statements _ _ _ _ _ hs _ _ =>
    intro x hx
    have hfn := names_body_subset w self [] body (namesItems_statements_subset hs hx)
    rw [names_mk, namesSlots_one, names_mk, namesSlots_one, namesSlots_many, namesItems_some]
    simp only [List.mem_append, hfn, true_or, or_true]
  | @bareTimer t u v w x callee self body delay =>
    intro x hx
    have hfn := names_body_subset w self [] body hx
    rw [names_mk, namesSlots_one, names_mk, namesSlots_one, namesSlots_many, namesItems_some]
    simp only [List.mem_append, hfn, true_or, or_true]
  | @spliceCall t u w self body statements kept _ _ _ _ hs hkept _ =>
    have hless := namesItems_subset_of_sublist (hkept ▸ List.dropWhile_sublist isDirective)
    intro x hx
    have hfn := names_body_subset w self [] body (namesItems_statements_subset hs (hless hx))
    rw [names_mk, namesSlots_one, names_mk, namesSlots_one]
    simp only [List.mem_append, hfn, true_or, or_true]
  | unwrapDo =>
    intro x hx
    simp only [Outcome.names] at hx
    rw [names_mk, namesSlots_one]
    simp [hx]
  | unwrapFor => exact names_unrolled_subset _ _ _ _ _ _
  | @unwrapBareFor t u statement m init update test _ _ hone =>
    have hsub := names_unrolled_subset t u statement init update test
    rw [hone] at hsub
    simpa [Outcome.names] using hsub

end Rule
end Unravel
