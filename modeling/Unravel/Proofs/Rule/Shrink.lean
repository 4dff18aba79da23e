import Unravel.Proofs.Rule.Move
import Unravel.Proofs.Tree.Weight

/-! Every move that edits the tree makes it lighter, whatever is charged for slots and items. -/

namespace Unravel

open Node

/-- What an outcome puts into the tree. Statements weigh as the block that they would become. -/
def Outcome.weigh (σ : Nat) : Outcome → Nat
  | .replace n => n.weigh σ
  | .splice ns => 1 + σ + weighItems σ (ns.map some)
  | .remove => 0
  | .learn _ => 0

def Outcome.isEdit : Outcome → Bool
  | .learn _ => false
  | _ => true

namespace Rule

variable {σ : Nat}

theorem weighItems_statements_le {body : Node} {statements : List Node}
    (h : Node.statements (some body) = .ok statements) :
    1 + σ + weighItems σ (statements.map some) ≤ body.weigh σ := by
  obtain ⟨t, hd, items, hhead, rfl, rfl⟩ := statements_cases h
  have hitems := weighItems_filterMap_le (σ := σ) items
  rcases hhead with rfl | rfl <;>
    simp only [weigh, weighSlots, Head.weight] <;> omega

theorem weighItems_leadIn_le (init : Option Node) :
    weighItems σ ((leadIn init).map some) ≤ 1 + σ + weighSlots σ [.one init] := by
  obtain ⟨rfl, h⟩ | ⟨e, rfl, ⟨-, h⟩ | ⟨-, h⟩⟩ := leadIn_cases init
  · simp [h]
  · simp only [h, List.map_cons, List.map_nil, weighItems, weighSlots]
    omega
  · simp only [h, List.map_cons, List.map_nil, asStatement, weighItems, weigh, weighSlots, Head.weight]
    omega

theorem weighItems_leadOut_le (update : Option Node) :
    weighItems σ ((update.toList.map asStatement).map some) ≤ 1 + σ + weighSlots σ [.one update] := by
  cases update with
  | none => simp
  | some e =>
    simp only [Option.toList_some, List.map_cons, List.map_nil, asStatement, weighItems, weigh,
      weighSlots, Head.weight]
    omega

theorem weigh_branch_le {b : Bool} {consequent alternate : Option Node} {m : Node}
    (h : (if b then consequent else alternate) = some m) :
    m.weigh σ ≤ weighSlots σ [.one consequent, .one alternate] := by
  rcases branch_cases h with rfl | rfl
  · cases alternate <;> simp <;> omega
  · cases consequent <;> simp <;> omega

theorem weighItems_unrolled_lt (t u : Tag) (statement : Node) (init update : Option Node)
    (test : Slot Node) :
    1 + σ + weighItems σ ((leadIn init ++ statement :: update.toList.map asStatement).map some) <
      (Node.mk t .forStatement [.one init, test, .one update,
        .one (some (.blockStatement u [some statement]))]).weigh σ := by
  -- the `for` weighs three: the block in its place and the statements around both expressions; the
  -- block of its own makes the difference
  have hin := weighItems_leadIn_le (σ := σ) init
  have hout := weighItems_leadOut_le (σ := σ) update
  have htest := charge_le_weighSlots (σ := σ) test
  simp only [weigh, List.map_append, List.map_cons, weighItems_append]
  rw [weighSlots_cons (.one init), weighSlots_cons test, weighSlots_cons (.one update)]
  simp only [weighSlots, weigh, weighItems, Head.weight] at hin hout ⊢
  omega

/-- A move that edits makes its node lighter. -/
theorem Move.weigh_lt {site : Site} {n : Node} {o : Outcome} (h : Move site n o)
    (hedit : o.isEdit = true) : o.weigh σ < n.weigh σ := by
  cases h with
  | recordConstant => cases hedit
  | recordArray => cases hedit
  | recordDeclaration => cases hedit
  | recordExpression => cases hedit
  | dropSelfAssignment => exact weigh_pos _
  | dropTimer => exact weigh_pos _
  | dropCall => exact weigh_pos _
  | pruneDeclaration => exact weigh_pos _
  | pruneCall => exact weigh_pos _
  | expandAnd =>
    rename_i t left right
    simp only [Outcome.weigh, weigh, Head.weight]
    rw [weighSlots_cons left [right, _], weighSlots_cons left [right],
      weighSlots_cons right [_]]
    simp only [weighSlots, weigh, Head.weight]
    omega
  | expandOr =>
    rename_i t left right
    simp only [Outcome.weigh, weigh, Head.weight]
    rw [weighSlots_cons left [_, right], weighSlots_cons left [right],
      weighSlots_cons _ [right]]
    simp only [weighSlots, weigh, Head.weight]
    omega
  | readConstant => simp [Outcome.weigh, Head.weight]
  | addLiterals =>
    simp only [Outcome.weigh, weigh, weighSlots, Head.weight]
    omega
  | readElement =>
    simp only [Outcome.weigh, weigh, weighSlots, Head.weight]
    omega
  | chooseOperand _ hm =>
    have hbranch := weigh_branch_le (σ := σ) hm
    simp only [Outcome.weigh, weigh]
    rw [weighSlots_cons]
    simp only [weighSlots, weigh, Head.weight] at hbranch ⊢
    omega
  | chooseNothing _ _ =>
    simp only [Outcome.weigh, weigh]
    rw [weighSlots_cons]
    simp only [weighSlots, weigh, Head.weight]
    omega
  | chooseBranch _ hm =>
    have hbranch := weigh_branch_le (σ := σ) hm
    simp only [Outcome.weigh, weigh]
    rw [weighSlots_cons]
    simp only [weighSlots, weigh, Head.weight] at hbranch ⊢
    omega
  | @dissolveBranch _ _ _ _ _ _ _ body _ hm =>
    have hbranch := weigh_branch_le (σ := σ) hm
    have hbody := weighItems_filterMap_le (σ := σ) body
    simp only [Outcome.weigh, weigh]
    rw [weighSlots_cons]
    simp only [weighSlots, weigh, Head.weight] at hbranch ⊢
    omega
  | spliceTimer _ _ _ _ _ hs _ _ =>
    have hbody := weighItems_statements_le (σ := σ) hs
    simp only [Outcome.weigh, weigh, weighSlots, weighItems, Head.weight]
    rw [weighSlots_cons (.one _) [.many [], _]]
    simp only [weighSlots, weighItems]
    omega
  | bareTimer =>
    simp only [Outcome.weigh, weigh, weighSlots, weighItems, Head.weight]
    rw [weighSlots_cons (.one _) [.many [], _]]
    simp only [weighSlots, weighItems]
    omega
  | spliceCall _ _ _ _ hs hkept _ =>
    have hbody := weighItems_statements_le (σ := σ) hs
    have hless := weighItems_le_of_sublist (σ := σ) (hkept ▸ List.dropWhile_sublist isDirective)
    simp only [Outcome.weigh, weigh, weighSlots, weighItems, Head.weight]
    rw [weighSlots_cons (.one _) [.many [], _]]
    simp only [weighSlots, weighItems]
    omega
  | unwrapDo =>
    simp only [Outcome.weigh, weigh, weighSlots, weighItems, Head.weight]
    omega
  | unwrapFor => exact weighItems_unrolled_lt _ _ _ _ _ _
  | @unwrapBareFor t u statement m init update test _ _ hone =>
    have hlt := weighItems_unrolled_lt (σ := σ) t u statement init update test
    rw [hone] at hlt
    simp only [Outcome.weigh, List.map_cons, List.map_nil, weighItems] at hlt ⊢
    omega

end Rule
end Unravel
