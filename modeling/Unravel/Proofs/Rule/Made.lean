import Unravel.Proofs.Rule.Move
import Unravel.Proofs.Tree.Every

/-! The nodes that a move puts into the tree: they were below its node before, or they are made of
what is known there and of the children of the node. -/

namespace Unravel

open Node

def Outcome.nodes : Outcome → List Node
  | .replace n => [n]
  | .splice ns => ns
  | .remove => []
  | .learn _ => []

def Outcome.walk : Outcome → List Node
  | .replace n => n.walk
  | .splice ns => walkItems (ns.map some)
  | .remove => []
  | .learn _ => []

namespace Rule

inductive Known (site : Site) (n : Node) : Value → Prop
  | bool {b : Bool} : Known site n (.bool b)
  | undefined : Known site n .undefined
  | constant {name : String} {v : Value} :
    site.facts.constants.get? name = some v → Known site n v
  | element {name : String} {values : List Value} {v : Value} :
    site.facts.arrays.get? name = some values → v ∈ values → Known site n v
  | sum {t u : Tag} {a b v : Value} :
    .literal t a ∈ n.walk → .literal u b ∈ n.walk → a.add b = .ok v → Known site n v

inductive Made (site : Site) (n : Node) : Node → Prop
  | literal {loc : Option Loc} {v : Value} : Known site n v → Made site n (.literal (.fresh loc) v)
  | empty {loc : Option Loc} : Made site n (.emptyStatement (.fresh loc))
  | andTest {t : Tag} {operator : String} {left right : Slot Node} :
    n = .mk t (.logicalExpression operator) [left, right] →
    Made site n (.mk (.fresh t.loc) .conditionalExpression
      [left, right, .one (some (.literal (.fresh none) (.bool false)))])
  | orTest {t : Tag} {operator : String} {left right : Slot Node} :
    n = .mk t (.logicalExpression operator) [left, right] →
    Made site n (.mk (.fresh t.loc) .conditionalExpression
      [left, .one (some (.literal (.fresh none) (.bool true))), right])
  | initial {t : Tag} {e : Node} {test update body : Slot Node} :
    n = .mk t .forStatement [.one (some e), test, update, body] → e.kind ≠ .variableDeclaration →
    Made site n (asStatement e)
  | final {t : Tag} {e : Node} {init test body : Slot Node} :
    n = .mk t .forStatement [init, test, .one (some e), body] → Made site n (asStatement e)

variable {site : Site} {n : Node} {o : Outcome}

theorem walkItems_statements {body : Node} {statements : List Node}
    (h : Node.statements (some body) = .ok statements) :
    walkItems (statements.map some) ⊆ body.walk := by
  obtain ⟨t, hd, items, -, rfl, rfl⟩ := statements_cases h
  rw [walkItems_filterMap]
  simp [walk, walkSlots]

theorem walkItems_of_sublist {ns ns' : List Node} (h : ns.Sublist ns') :
    walkItems (ns.map some) ⊆ walkItems (ns'.map some) := by
  induction h with
  | slnil => exact List.Subset.refl _
  | cons n _ ih =>
    rw [List.map_cons, walkItems]
    exact List.subset_append_of_subset_right _ ih
  | cons_cons n _ ih =>
    rw [List.map_cons, List.map_cons, walkItems, walkItems]
    exact List.append_subset.mpr ⟨List.subset_append_left _ _,
      List.subset_append_of_subset_right _ ih⟩

theorem walk_branch {b : Bool} {consequent alternate : Option Node} {m : Node}
    (h : (if b then consequent else alternate) = some m) :
    m.walk ⊆ walkSlots [.one consequent, .one alternate] := by
  rw [walkSlots_cons]
  rcases branch_cases h with rfl | rfl <;> simp [walkSlots]

theorem walk_body (t : Tag) (self : Option Node) (params : List (Option Node)) (body : Node) :
    body.walk ⊆ (Node.functionExpression t self params (some body)).walk := by
  intro c hc
  rw [walk, walkSlots_cons, walkSlots_cons (.many params)]
  simp [walkSlots, hc]

theorem unrolled_old_or_made {t u : Tag} {statement : Node} {init update : Option Node}
    {test : Slot Node} {c : Node}
    (hc : c ∈ walkItems ((leadIn init ++ statement :: update.toList.map asStatement).map some)) :
    let n := Node.mk t .forStatement [.one init, test, .one update,
      .one (some (.blockStatement u [some statement]))]
    c ∈ n.walk ∨ Made site n c := by
  intro n
  rw [List.map_append, walkItems_append, List.map_cons, walkItems, List.mem_append,
    List.mem_append] at hc
  have hwalk : n.walk = n :: (walkSlots [.one init] ++ (walkSlots [test] ++
      (walkSlots [.one update] ++ walkSlots [.one (some (.blockStatement u [some statement]))]))) := by
    rw [walk, walkSlots_cons (.one init), walkSlots_cons test, walkSlots_cons (.one update)]
  rw [hwalk]
  rcases hc with hc | hc | hc
  · obtain ⟨rfl, hlead⟩ | ⟨e, rfl, ⟨-, hlead⟩ | ⟨hkind, hlead⟩⟩ := leadIn_cases init
    · cases hc
    · simp only [hlead, List.map_cons, List.map_nil, walkItems, List.append_nil] at hc
      simp [walkSlots, hc]
    · simp only [hlead, List.map_cons, List.map_nil, walkItems, List.append_nil, asStatement, walk,
        walkSlots, List.mem_cons] at hc
      rcases hc with rfl | hc
      · exact .inr (.initial rfl hkind)
      · simp [walkSlots, hc]
  · simp [walkSlots, walk, walkItems, hc]
  · cases update with
    | none => cases hc
    | some e =>
      simp only [Option.toList_some, List.map_cons, List.map_nil, walkItems, List.append_nil,
        asStatement, walk, walkSlots, List.mem_cons] at hc
      rcases hc with rfl | hc
      · exact .inr (.final rfl)
      · simp [walkSlots, hc]

/-- What a move puts into the tree is old or made. -/
theorem Move.old_or_made (h : Move site n o) {c : Node} (hc : c ∈ o.walk) :
    c ∈ n.walk ∨ Made site n c := by
  cases h with
  | recordConstant => cases hc
  | recordArray => cases hc
  | recordDeclaration => cases hc
  | recordExpression => cases hc
  | dropSelfAssignment => cases hc
  | dropTimer => cases hc
  | dropCall => cases hc
  | pruneDeclaration => cases hc
  | pruneCall => cases hc
  | readConstant _ _ _ hv =>
    simp only [Outcome.walk, walk, walkSlots, List.mem_singleton] at hc
    exact .inr (hc ▸ .literal (.constant hv))
  | @addLiterals t u w a b v hv =>
    simp only [Outcome.walk, walk, walkSlots, List.mem_singleton] at hc
    refine .inr (hc ▸ .literal (.sum (t := u) (u := w) ?_ ?_ hv))
    · simp [walk, walkSlots]
    · simp [walk, walkSlots]
  | @readElement t u w name index values i _ _ hvalues _ =>
    simp only [Outcome.walk, walk, walkSlots, List.mem_singleton] at hc
    refine .inr (hc ▸ .literal ?_)
    split
    · rw [List.getD_eq_getElem?_getD]
      cases hv : values[i.toNat]? with
      | none => exact .undefined
      | some v => exact .element hvalues (List.mem_of_getElem? hv)
    · exact .undefined
  | chooseNothing =>
    simp only [Outcome.walk, walk, walkSlots, List.mem_singleton] at hc
    exact .inr (hc ▸ .empty)
  | @expandAnd t left right =>
    simp only [Outcome.walk, walk, List.mem_cons] at hc
    rw [walkSlots_cons, walkSlots_cons right] at hc
    simp only [walkSlots, walk, List.mem_append, List.mem_cons, List.not_mem_nil, or_false] at hc
    rw [walk, walkSlots_cons left]
    rcases hc with rfl | hc | hc | rfl
    · exact .inr (.andTest rfl)
    · simp [hc]
    · simp [hc]
    · exact .inr (.literal .bool)
  | @expandOr t left right =>
    simp only [Outcome.walk, walk, List.mem_cons] at hc
    rw [walkSlots_cons] at hc
    simp only [walkSlots, walk, List.mem_append, List.mem_cons] at hc
    rw [walk, walkSlots_cons left]
    rcases hc with rfl | hc | (rfl | hc) | hc
    · exact .inr (.orTest rfl)
    · simp [hc]
    · exact .inr (.literal .bool)
    · cases hc
    · simp [hc]
  | chooseOperand _ hm =>
    rw [walk, walkSlots_cons]
    simp [walk_branch hm hc]
  | chooseBranch _ hm =>
    rw [walk, walkSlots_cons]
    simp [walk_branch hm hc]
  | @dissolveBranch _ _ w _ _ _ _ body _ hm =>
    have hbody : c ∈ (Node.blockStatement w body).walk := by
      rw [Outcome.walk, walkItems_filterMap] at hc
      simp [walk, walkSlots, hc]
    rw [walk, walkSlots_cons]
    simp [walk_branch hm hbody]
  | @spliceTimer t u v w x callee self body delay statements _ _ _ _ _ hs =>
    have hfn := walk_body w self [] body (walkItems_statements hs hc)
    exact .inl (walk_subset_walk _ (by simp [walk, walkSlots, walkItems]) hfn)
  | @bareTimer t u v w x callee self body =>
    have hfn := walk_body w self [] body hc
    exact .inl (walk_subset_walk _ (by simp [walk, walkSlots, walkItems]) hfn)
  | @spliceCall t u w self body statements kept _ _ _ _ hs hkept =>
    have hless := walkItems_of_sublist (hkept ▸ List.dropWhile_sublist isDirective)
    have hfn := walk_body w self [] body (walkItems_statements hs (hless hc))
    exact .inl (walk_subset_walk _ (by simp [walk, walkSlots]) hfn)
  | unwrapDo =>
    simp only [Outcome.walk] at hc
    exact .inl (by simp [walk, walkSlots, walkItems, hc])
  | unwrapFor => exact unrolled_old_or_made hc
  | @unwrapBareFor t u statement m init update test _ _ hone =>
    refine unrolled_old_or_made ?_
    rw [hone]
    simpa [walkItems, Outcome.walk] using hc

end Rule
end Unravel
