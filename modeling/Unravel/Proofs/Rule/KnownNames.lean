import Unravel.Proofs.Pass.Tour
import Unravel.Proofs.Rule.Move

/-! Inlining apart, a rule asks of the facts only which names are known. So an answer that has no
effect under some facts has none under others with the same names. -/

namespace Unravel

namespace Rule

def Alike (x y : Except Fault (Option Outcome)) : Prop :=
  x = y ∨ ∃ n m, x = .ok (some (.replace n)) ∧ y = .ok (some (.replace m))

variable {trail : Trail} {a b : Facts} {settings : Settings} {mutated : List String} {n : Node}

theorem alike_substituteIdentifier (h : a.SameNames b) :
    Alike (substituteIdentifier ⟨trail, a, settings, mutated⟩ n)
      (substituteIdentifier ⟨trail, b, settings, mutated⟩ n) := by
  unfold substituteIdentifier
  split
  · rename_i t name
    simp only [Site.seat?, Site.isConstantName]
    by_cases hguard : (!isReference trail.seat? || isWriteTarget trail.seat? ||
        !!(settings.trackMutations && mutated.contains name)) = true
    · simp only [hguard, if_true]
      exact .inl rfl
    · simp only [hguard]
      rcases Table.get?_of_has_eq (h.constants name) with ⟨ha, hb⟩ | ⟨v, w, ha, hb⟩
      · rw [ha, hb]
        exact .inl rfl
      · rw [ha, hb]
        exact .inr ⟨_, _, rfl, rfl⟩
  · exact .inl rfl

theorem alike_foldArrayMember (h : a.SameNames b) :
    Alike (foldArrayMember ⟨trail, a, settings, mutated⟩ n)
      (foldArrayMember ⟨trail, b, settings, mutated⟩ n) := by
  unfold foldArrayMember
  split
  · rename_i t u name w index
    simp only [Site.seat?, Site.isConstantName]
    by_cases hguard : (isWriteTarget trail.seat? ||
        !!(settings.trackMutations && mutated.contains name)) = true
    · simp only [hguard, if_true]
      exact .inl rfl
    · simp only [hguard]
      rcases Table.get?_of_has_eq (h.arrays name) with ⟨ha, hb⟩ | ⟨vs, ws, ha, hb⟩
      · rw [ha, hb]
        exact .inl rfl
      · rw [ha, hb]
        -- an index out of range reads `undefined`, so only the value read may differ
        cases index.arrayIndex? with
        | error f => exact .inl rfl
        | ok i =>
          cases i with
          | none => exact .inl rfl
          | some i => exact .inr ⟨_, _, rfl, rfl⟩
  · exact .inl rfl

abbrev lookups : List String := ["substitute_identifier", inlining, "fold_array_member"]

theorem transform_eq_of_not_lookup {r : Rule} (hr : r ∈ standard) (hname : r.name ∉ lookups)
    (a b : Facts) :
    r.transform ⟨trail, a, settings, mutated⟩ n = r.transform ⟨trail, b, settings, mutated⟩ n := by
  simp only [standard, List.mem_cons, List.not_mem_nil, or_false] at hr
  rcases hr with rfl | rfl | rfl | rfl | rfl | rfl | rfl | rfl | rfl | rfl | rfl | rfl | rfl
  · dsimp only
    unfold selfAssignment
    split <;> rfl
  · dsimp only
    unfold logicalToConditional
    split <;> rfl
  · dsimp only
    unfold captureDeclarator
    split <;> rfl
  · simp at hname
  · dsimp only
    unfold foldPlus
    split <;> rfl
  · dsimp only
    unfold simplifyConditional
    split <;> rfl
  · dsimp only
    unfold inlineTimer
    split <;> rfl
  · dsimp only
    unfold captureFunction
    split <;> rfl
  · simp at hname
  · simp at hname
  · dsimp only
    unfold unwrapCall
    split <;> rfl
  · dsimp only
    unfold unwrapLoop
    split <;> rfl
  · rfl

theorem transform_of_lookup {r : Rule} (hr : r ∈ standard) (hname : r.name ∈ lookups) :
    (r.name ≠ inlining ∧ r.transform = substituteIdentifier) ∨
      (r.name = inlining ∧ r.transform = inlineReturn) ∨
      (r.name ≠ inlining ∧ r.transform = foldArrayMember) := by
  simp only [standard, List.mem_cons, List.not_mem_nil, or_false] at hr
  rcases hr with rfl | rfl | rfl | rfl | rfl | rfl | rfl | rfl | rfl | rfl | rfl | rfl | rfl
  case inr.inr.inr.inl => exact .inl ⟨by decide, rfl⟩
  case inr.inr.inr.inr.inr.inr.inr.inr.inl => exact .inr (.inl ⟨rfl, rfl⟩)
  case inr.inr.inr.inr.inr.inr.inr.inr.inr.inl => exact .inr (.inr ⟨by decide, rfl⟩)
  all_goals simp [inlining] at hname

theorem transform_of_inlining {r : Rule} (hr : r ∈ standard) (hname : r.name = inlining) :
    r.transform = inlineReturn := by
  have hlookup : r.name ∈ lookups := by simp [hname]
  rcases transform_of_lookup hr hlookup with ⟨hne, -⟩ | ⟨-, ht⟩ | ⟨hne, -⟩
  · exact absurd hname hne
  · exact ht
  · exact absurd hname hne

theorem alike_transform {r : Rule} (hr : r ∈ standard) (hname : r.name ≠ inlining)
    (h : a.SameNames b) :
    Alike (r.transform ⟨trail, a, settings, mutated⟩ n)
      (r.transform ⟨trail, b, settings, mutated⟩ n) := by
  by_cases hlookup : r.name ∈ lookups
  · rcases transform_of_lookup hr hlookup with ⟨-, ht⟩ | ⟨hinline, -⟩ | ⟨-, ht⟩
    · rw [ht]
      exact alike_substituteIdentifier h
    · exact absurd hinline hname
    · rw [ht]
      exact alike_foldArrayMember h
  · exact .inl (transform_eq_of_not_lookup hr hlookup a b)

theorem idle_of_alike {x y : Except Fault (Option Outcome)} (hxy : Alike x y) (h : a.SameNames b)
    (hx : Pass.Idle a trail x) : Pass.Idle b trail y := by
  rcases hxy with rfl | ⟨n, m, rfl, rfl⟩
  · match x with
    | .error f => exact hx
    | .ok none => trivial
    | .ok (some (.learn fact)) => exact (h.learn_isNew fact).symm.trans hx
    | .ok (some (.replace m)) | .ok (some (.splice ns)) | .ok (some .remove) => exact hx
  · change Pass.land trail (.replace n) = none at hx
    cases trail with
    | nil => rfl
    | cons f fs => cases hx

theorem replace_of_inlineReturn {site : Site} {o : Outcome}
    (h : inlineReturn site n = .ok (some o)) : ∃ m, o = .replace m := by
  unfold inlineReturn at h
  split at h
  · split at h
    · cases h
    · obtain ⟨m, -, hrest⟩ := bind_eq_ok.mp h
      cases m with
      | none => cases hrest
      | some m =>
        cases hrest
        exact ⟨m, rfl⟩
  · cases h

theorem not_learn_of_lookup {r : Rule} (hr : r ∈ standard) (hname : r.name ∈ lookups) {site : Site}
    {fact : Fact} : r.transform site n ≠ .ok (some (.learn fact)) := by
  intro h
  rcases transform_of_lookup hr hname with ⟨-, ht⟩ | ⟨-, ht⟩ | ⟨-, ht⟩
  · rw [ht] at h
    unfold substituteIdentifier at h
    split at h
    · split at h
      · cases h
      · rename_i t name hguard
        cases hv : site.facts.constants.get? name <;> rw [hv] at h <;> cases h
    · cases h
  · rw [ht] at h
    obtain ⟨m, hm⟩ := replace_of_inlineReturn h
    cases hm
  · rw [ht] at h
    unfold foldArrayMember at h
    split at h
    · split at h
      · cases h
      · split at h
        · cases h
        · obtain ⟨i, -, hrest⟩ := bind_eq_ok.mp h
          cases i <;> cases hrest
    · cases h

theorem learn_transform {r : Rule} (hr : r ∈ standard) {fact : Fact}
    (h : r.transform ⟨trail, a, settings, mutated⟩ n = .ok (some (.learn fact))) (b : Facts) :
    r.transform ⟨trail, b, settings, mutated⟩ n = .ok (some (.learn fact)) := by
  by_cases hlookup : r.name ∈ lookups
  · exact absurd h (not_learn_of_lookup hr hlookup)
  · rw [transform_eq_of_not_lookup hr hlookup b a, h]

theorem inlineReturn_congr
    (h : ∀ t callee args name, n = .callExpression t callee args →
      callee.head = .identifier name → a.functions.get? name = b.functions.get? name) :
    inlineReturn ⟨trail, a, settings, mutated⟩ n = inlineReturn ⟨trail, b, settings, mutated⟩ n := by
  unfold inlineReturn
  split
  · rename_i t callee args
    have hcalled : called? ⟨trail, a, settings, mutated⟩ (.callExpression t callee args) callee =
        called? ⟨trail, b, settings, mutated⟩ (.callExpression t callee args) callee := by
      unfold called?
      split
      · rfl
      · rename_i name hname
        simp only [Site.isConstantName, Site.function?, h t callee args name rfl hname]
      · rfl
    simp only [hcalled]
  · rfl

end Rule
end Unravel
