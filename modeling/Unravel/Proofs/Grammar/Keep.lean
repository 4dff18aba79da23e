import Unravel.Proofs.Grammar.Role
import Unravel.Proofs.Rule.Made

/-! Moves keep to the grammar: what they make conforms, and what they put somewhere is admitted
there. -/

namespace Unravel

open Node

/-- The outcome may stand where the role is asked for. Only statements are spliced. -/
def Outcome.Admitted (r : Role) : Outcome → Prop
  | .replace m => r.admits m.kind = true
  | .splice ns => r = .statement ∧ ∀ m ∈ ns, m.kind.isStatement = true
  | .remove => True
  | .learn _ => True

namespace Rule

variable {site : Site} {n : Node} {o : Outcome}

theorem isStatement_of_statements {body : Node} {statements : List Node} (hbody : body.Conforms)
    (h : Node.statements (some body) = .ok statements) :
    ∀ s ∈ statements, s.kind.isStatement = true := by
  obtain ⟨t, hd, items, hhead, rfl, rfl⟩ := statements_cases h
  have hitems : (Demand.many .statement).admits (.many items) = true := by
    rcases hhead with rfl | rfl <;> exact (List.forall₂_cons.mp hbody).1
  intro s hs
  obtain ⟨c, hc, rfl⟩ := List.mem_filterMap.mp hs
  exact Demand.role_of_admits_many hitems hc

theorem Made.conforms {c : Node} (h : Made site n c) (hn : n.Conforms) : c.Conforms := by
  cases h with
  | literal => exact .nil
  | empty => exact .nil
  | andTest hshape =>
    subst hshape
    obtain _ | ⟨hleft, _ | ⟨hright, _⟩⟩ := hn
    exact .cons hleft (.cons hright (.cons rfl .nil))
  | orTest hshape =>
    subst hshape
    obtain _ | ⟨hleft, _ | ⟨hright, _⟩⟩ := hn
    exact .cons hleft (.cons rfl (.cons hright .nil))
  | @initial t e test update body hshape hdecl =>
    subst hshape
    obtain _ | ⟨hstart, -⟩ := hn
    have hkind : (Role.start).admits e.kind = true := hstart
    simp only [Role.admits, Bool.or_eq_true, beq_iff_eq, hdecl, or_false] at hkind
    exact .cons hkind .nil
  | final hshape =>
    subst hshape
    obtain _ | ⟨-, _ | ⟨-, _ | ⟨hupdate, -⟩⟩⟩ := hn
    exact .cons hupdate .nil

theorem Move.wellKinded (h : Move site n o) (hn : n.WellKinded) : ∀ c ∈ o.walk, c.Conforms := by
  intro c hc
  rcases h.old_or_made hc with hold | hmade
  · exact hn c hold
  · exact hmade.conforms hn.self

theorem kind_of_branch {r : Role} {b : Bool} {consequent alternate : Option Node} {m : Node}
    (h : (if b then consequent else alternate) = some m)
    (hc : (Demand.maybe r).admits (.one consequent) = true)
    (ha : (Demand.maybe r).admits (.one alternate) = true) : r.admits m.kind = true := by
  rcases branch_cases h with rfl | rfl
  · exact Demand.role_of_admits_one hc
  · exact Demand.role_of_admits_one ha

theorem maybe_of_one {r : Role} {c : Option Node} (h : (Demand.one r).admits (.one c) = true) :
    (Demand.maybe r).admits (.one c) = true := by
  cases c with
  | none => cases h
  | some c => exact h

theorem isStatement_of_unrolled {t u : Tag} {statement : Node} {init update : Option Node}
    {test : Slot Node} (hn : (Node.mk t .forStatement [.one init, test, .one update,
      .one (some (.blockStatement u [some statement]))]).WellKinded) :
    ∀ s ∈ leadIn init ++ statement :: update.toList.map asStatement, s.kind.isStatement = true := by
  intro s hs
  rw [List.mem_append, List.mem_cons] at hs
  rcases hs with hs | rfl | hs
  · obtain ⟨rfl, hlead⟩ | ⟨e, rfl, ⟨hkind, hlead⟩ | ⟨-, hlead⟩⟩ := leadIn_cases init
    · cases hs
    · rw [hlead, List.mem_singleton] at hs
      rw [hs, hkind]
      rfl
    · rw [hlead, List.mem_singleton] at hs
      rw [hs]
      rfl
  · have hblock : (Node.blockStatement u [some s]) ∈ (Node.mk t .forStatement [.one init, test,
        .one update, .one (some (.blockStatement u [some s]))]).walk := by
      rw [walk, walkSlots_cons (.one init), walkSlots_cons test, walkSlots_cons (.one update)]
      simp [walkSlots, walk]
    obtain _ | ⟨hbody, -⟩ := hn _ hblock
    exact Demand.role_of_admits_many hbody (List.mem_singleton.mpr rfl)
  · obtain ⟨e, -, rfl⟩ := List.mem_map.mp hs
    rfl

/-- What a move puts somewhere is admitted there. -/
theorem Move.admitted (h : Move site n o) (hn : n.WellKinded) {r : Role}
    (hr : r.admits n.kind = true) (hseat : r.Sits site.seat?) : o.Admitted r := by
  -- a move at an expression that is neither name nor member may leave any expression
  have hexpression {m : Node} (hm : m.kind.isExpression = true) (hk : (n.kind.isExpression &&
      n.kind != .identifier && n.kind != .memberExpression) = true) : r.admits m.kind = true := by
    simp only [Bool.and_eq_true, bne_iff_ne] at hk
    exact Role.admits_expression hr hk.1.1 hk.1.2 hk.2 hm
  have hstatement (hk : (n.kind.isStatement && n.kind != .blockStatement &&
      n.kind != .variableDeclaration) = true) : r = .statement := by
    simp only [Bool.and_eq_true, bne_iff_ne] at hk
    exact Role.eq_statement hr hk.1.1 hk.1.2 hk.2
  cases h with
  | recordConstant => trivial
  | recordArray => trivial
  | recordDeclaration => trivial
  | recordExpression => trivial
  | dropSelfAssignment => trivial
  | dropTimer => trivial
  | dropCall => trivial
  | pruneDeclaration => trivial
  | pruneCall => trivial
  | expandAnd => exact hexpression rfl rfl
  | expandOr => exact hexpression rfl rfl
  | readConstant hread hwrite => exact hseat.admits_of_identifier hread hwrite hr rfl
  | addLiterals => exact hexpression rfl rfl
  | readElement hwrite => exact hseat.admits_of_member hwrite hr rfl
  | chooseOperand _ hm =>
    obtain _ | ⟨-, _ | ⟨hc, _ | ⟨ha, -⟩⟩⟩ := hn.self
    have hkind := kind_of_branch hm (maybe_of_one hc) (maybe_of_one ha)
    exact hexpression hkind rfl
  | chooseNothing =>
    cases hstatement rfl
    rfl
  | chooseBranch _ hm =>
    cases hstatement rfl
    obtain _ | ⟨-, _ | ⟨hc, _ | ⟨ha, -⟩⟩⟩ := hn.self
    exact kind_of_branch hm (maybe_of_one hc) ha
  | @dissolveBranch t u w test consequent alternate b body _ hm =>
    have hblock : Node.blockStatement w body ∈ (Node.mk t .ifStatement
        [.one (some (.literal u test)), .one consequent, .one alternate]).walk := by
      rw [walk, walkSlots_cons]
      simp [walk_branch hm (self_mem_walk _)]
    exact ⟨hstatement rfl, isStatement_of_statements (hn _ hblock) rfl⟩
  | @spliceTimer t u v w x callee self body delay statements _ _ _ _ _ hs =>
    have hbody : body ∈ (Node.functionExpression w self [] (some body)).walk :=
      walk_body w self [] body (self_mem_walk _)
    refine ⟨hstatement rfl, isStatement_of_statements (hn _ ?_) hs⟩
    exact walk_subset_walk _ (by simp [walk, walkSlots, walkItems]) hbody
  | @bareTimer t u v w x callee self body delay =>
    cases hstatement rfl
    have hfn : (Node.functionExpression w self [] (some body)).Conforms :=
      hn _ (by simp [walk, walkSlots, walkItems])
    obtain _ | ⟨-, _ | ⟨-, _ | ⟨hbody, -⟩⟩⟩ := hfn
    have hkind : body.kind = .blockStatement := beq_iff_eq.mp hbody
    simp [Outcome.Admitted, Role.admits, hkind, Kind.isStatement]
  | @spliceCall t u w self body statements kept _ _ _ _ hs hkept =>
    have hbody : body ∈ (Node.functionExpression w self [] (some body)).walk :=
      walk_body w self [] body (self_mem_walk _)
    have hall := isStatement_of_statements (hn _
      (walk_subset_walk _ (by simp [walk, walkSlots]) hbody)) hs
    have hless : kept ⊆ statements := hkept ▸ (List.dropWhile_sublist isDirective).subset
    exact ⟨hstatement rfl, fun s hs => hall s (hless hs)⟩
  | @unwrapDo t u statement test =>
    cases hstatement rfl
    have hblock : (Node.blockStatement u [some statement]).Conforms :=
      hn _ (by simp [walk, walkSlots])
    obtain _ | ⟨hbody, -⟩ := hblock
    exact Demand.role_of_admits_many hbody (List.mem_singleton.mpr rfl)
  | unwrapFor => exact ⟨hstatement rfl, isStatement_of_unrolled hn⟩
  | unwrapBareFor _ _ hone =>
    cases hstatement rfl
    exact isStatement_of_unrolled hn _ (hone ▸ List.mem_singleton.mpr rfl)

theorem Move.isReference (hmove : Move site n o) (hedit : ∀ fact, o ≠ .learn fact)
    (hn : n.kind = .identifier) : isReference site.seat? = true := by
  cases hmove with
  | readConstant hread => exact hread
  | recordConstant => exact absurd rfl (hedit _)
  | recordArray => exact absurd rfl (hedit _)
  | recordDeclaration => exact absurd rfl (hedit _)
  | recordExpression => exact absurd rfl (hedit _)
  | _ => cases hn

end Rule
end Unravel
