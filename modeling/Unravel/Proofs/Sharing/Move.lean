import Unravel.Proofs.Pass.Marks
import Unravel.Proofs.Sharing.Marks

/-! No rule uses a node twice. What a move puts in the place of a node has each mark at most as often
as the node has it below; an inlined expression has no marks at all. -/

namespace Unravel

open Node

def Outcome.marks (o : Outcome) : List Nat := o.walk.filterMap Node.mark

@[simp] theorem Outcome.marks_replace (n : Node) : (Outcome.replace n).marks = n.marks := rfl

@[simp] theorem Outcome.marks_splice (ns : List Node) :
    (Outcome.splice ns).marks = marksItems (ns.map some) := rfl

@[simp] theorem Outcome.marks_remove : Outcome.remove.marks = [] := rfl

@[simp] theorem Outcome.marks_learn (fact : Fact) : (Outcome.learn fact).marks = [] := rfl

namespace Rule

variable {site : Site} {n : Node} {o : Outcome}

theorem marks_branch {b : Bool} {consequent alternate : Option Node} {m : Node}
    (h : (if b then consequent else alternate) = some m) :
    m.marks.Sublist (marksSlots [.one consequent, .one alternate]) := by
  rcases branch_cases h with rfl | rfl <;> simp

theorem marks_statements {body : Node} {statements : List Node}
    (h : Node.statements (some body) = .ok statements) :
    (marksItems (statements.map some)).Sublist body.marks := by
  obtain ⟨t, hd, items, -, rfl, rfl⟩ := statements_cases h
  rw [marksItems_filterMap]
  simp

theorem marks_asStatement (e : Node) : (asStatement e).marks = e.marks := by
  simp [asStatement, Tag.fresh]

theorem marks_leadIn (init : Option Node) :
    marksItems ((leadIn init).map some) = (Slot.one init).marks := by
  obtain ⟨rfl, h⟩ | ⟨e, rfl, ⟨-, h⟩ | ⟨-, h⟩⟩ := leadIn_cases init
  · rfl
  · simp [h]
  · simp [h, marks_asStatement]

theorem marks_final (update : Option Node) :
    marksItems ((update.toList.map asStatement).map some) = (Slot.one update).marks := by
  cases update with
  | none => rfl
  | some e => simp [marks_asStatement]

theorem count_unrolled_le {u : Tag} {statement : Node} {init update : Option Node}
    {test : Slot Node} (m : Nat) :
    (marksItems ((leadIn init ++ statement :: update.toList.map asStatement).map some)).count m ≤
      (marksSlots [.one init, test, .one update,
        .one (some (.blockStatement u [some statement]))]).count m := by
  rw [List.map_append, marksItems_append, marks_leadIn, List.map_cons, marksItems_some, marks_final]
  simp only [marksSlots_cons, marks_one, marks_mk, marks_many, marksItems_some, List.count_append]
  omega

theorem Move.count_le (h : Move site n o) (m : Nat) :
    o.marks.count m ≤ (marksSlots n.slots).count m := by
  cases h with
  | recordConstant => exact Nat.zero_le _
  | recordArray => exact Nat.zero_le _
  | recordDeclaration => exact Nat.zero_le _
  | recordExpression => exact Nat.zero_le _
  | dropSelfAssignment => exact Nat.zero_le _
  | dropTimer => exact Nat.zero_le _
  | dropCall => exact Nat.zero_le _
  | pruneDeclaration => exact Nat.zero_le _
  | pruneCall => exact Nat.zero_le _
  | readConstant => exact Nat.zero_le _
  | addLiterals => exact Nat.zero_le _
  | readElement => exact Nat.zero_le _
  | chooseNothing => exact Nat.zero_le _
  | @expandAnd t left right =>
    simp [slots, Tag.fresh]
  | @expandOr t left right =>
    simp [slots, Tag.fresh]
  | chooseOperand _ hm =>
    have hless := (marks_branch hm).count_le m
    rw [slots, marksSlots_cons, List.count_append, Outcome.marks_replace]
    omega
  | chooseBranch _ hm =>
    have hless := (marks_branch hm).count_le m
    rw [slots, marksSlots_cons, List.count_append, Outcome.marks_replace]
    omega
  | @dissolveBranch _ _ w _ _ _ _ body _ hm =>
    have hless := (marks_branch hm).count_le m
    have hbody : (marksItems body).count m ≤ (Node.blockStatement w body).marks.count m := by
      simp [List.count_append]
    rw [slots, marksSlots_cons, List.count_append, Outcome.marks_splice, marksItems_filterMap]
    omega
  | @spliceTimer t u v w x callee self body delay statements _ _ _ _ _ hs =>
    have hless := (marks_statements hs).count_le m
    rw [Outcome.marks_splice]
    simp only [slots, marksSlots_cons, marks_one, marks_mk, marks_many, marksItems_some,
      List.count_append]
    omega
  | @bareTimer t u v w x callee self body =>
    rw [Outcome.marks_replace]
    simp only [slots, marksSlots_cons, marks_one, marks_mk, marks_many, marksItems_some,
      List.count_append]
    omega
  | @spliceCall t u w self body statements kept _ _ _ _ hs hkept =>
    have hsome : (kept.map some).Sublist (statements.map some) :=
      (hkept ▸ List.dropWhile_sublist isDirective).map some
    have hless := ((marksItems_sublist hsome).trans (marks_statements hs)).count_le m
    rw [Outcome.marks_splice]
    simp only [slots, marksSlots_cons, marks_one, marks_mk, List.count_append]
    omega
  | unwrapDo =>
    rw [Outcome.marks_replace]
    simp only [slots, marksSlots_cons, marks_one, marks_mk, marks_many, marksItems_some,
      List.count_append]
    omega
  | unwrapFor => exact count_unrolled_le m
  | @unwrapBareFor t u statement k init update test _ _ hone =>
    have hless := @count_unrolled_le u statement init update test m
    rw [hone] at hless
    simpa [slots] using hless

/-- What a standard rule puts in the place of a node has each mark at most as often as the node has
it below. -/
theorem count_answer_le {env : Pass.Env} {trail : Trail} {facts : Facts} {i : Nat}
    (hstandard : env.Standard) (h : Pass.Answers env i trail facts n o) (m : Nat) :
    o.marks.count m ≤ (marksSlots n.slots).count m := by
  rcases hstandard.answers_cases h with hmove | hinline
  · exact hmove.count_le m
  · obtain ⟨t, callee, arguments, fn, e, rfl, -, hexpands, rfl⟩ := expands_of_inlineReturn hinline
    rw [Outcome.marks_replace, marks_of_unmarked fun c hc => (hexpands.head_of_mem_walk hc).1]
    exact Nat.zero_le _

end Rule
end Unravel
