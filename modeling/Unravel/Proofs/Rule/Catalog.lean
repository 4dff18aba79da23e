import Unravel.Proofs.Pass.Budget
import Unravel.Proofs.Rule.Raise

/-! The rules of a session: the standard ones, each on unless its name is disabled. -/

namespace Unravel

namespace Rule

variable {settings : Settings} {rules : List Rule} {r : Rule}

theorem catalog_eq (h : catalog settings = .ok rules) :
    rules = standard.map fun r => { r with enabled := !settings.disabledRules.contains r.name } := by
  unfold catalog at h
  dsimp only at h
  split at h
  · cases h
    rfl
  · cases h

theorem mem_catalog (h : catalog settings = .ok rules) (hr : r ∈ rules) :
    ∃ s ∈ standard, r = { s with enabled := !settings.disabledRules.contains s.name } := by
  rw [catalog_eq h] at hr
  obtain ⟨s, hs, rfl⟩ := List.mem_map.mp hr
  exact ⟨s, hs, rfl⟩

theorem unlimited_of_mem_catalog (h : catalog settings = .ok rules) (hr : r ∈ rules)
    (site : Site) (n : Node) : Unlimited (r.transform site n) := by
  obtain ⟨s, hs, rfl⟩ := mem_catalog h hr
  exact unlimited_transform hs site n

theorem move_or_inline_of_mem_catalog (h : catalog settings = .ok rules) (hr : r ∈ rules)
    {site : Site} {n : Node} {o : Outcome} (happlies : r.applies n = true)
    (hanswer : r.transform site n = .ok (some o)) :
    Move site n o ∨ r.name = inlining ∧ inlining ∉ settings.disabledRules ∧
      inlineReturn site n = .ok (some o) := by
  obtain ⟨s, hs, rfl⟩ := mem_catalog h hr
  rcases move_or_inline hs hanswer with hmove | ⟨hname, hinline⟩
  · exact .inl hmove
  · refine .inr ⟨hname, ?_, hinline⟩
    unfold applies at happlies
    simp only [Bool.and_eq_true, Bool.not_eq_true', List.contains_eq_mem, decide_eq_false_iff_not]
      at happlies
    exact hname ▸ happlies.1

end Rule

def Pass.Env.Standard (env : Env) : Prop := Rule.catalog env.settings = .ok env.rules

theorem Pass.tame_of_disabled {settings : Settings} {rules : List Rule} {mutated : List String}
    (h : Rule.catalog settings = .ok rules) (hoff : Rule.inlining ∈ settings.disabledRules) :
    Env.Tame ⟨rules, settings, mutated⟩ := by
  rintro i trail facts n o ⟨r, hr, hanswer⟩
  obtain ⟨happlies, hanswer⟩ := applies_of_answer hanswer
  rcases Rule.move_or_inline_of_mem_catalog h (List.mem_of_getElem? hr) happlies hanswer with
    hmove | ⟨-, hon, -⟩
  · exact hmove
  · exact absurd hoff hon

end Unravel
