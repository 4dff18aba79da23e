import Unravel.Proofs.Pass.Fuel

/-! A whole pass: it fails before the first visit, or it is one visit of the root. -/

namespace Unravel.Pass

variable {fuel : Nat} {rules : List Rule} {settings : Settings} {tree tree' : Node} {facts : Facts}
  {next : Nat} {st : State}

def written (settings : Settings) (tree : Node) : Except Fault (List String) :=
  if settings.trackMutations then tree.mutatedNames else .ok []

theorem run_cases (h : run fuel rules settings tree facts next = (tree', st)) :
    (∃ f, written settings tree = .error f ∧ tree' = tree ∧ st = { facts, next, fault := some f }) ∨
    ∃ mutated, written settings tree = .ok mutated ∧
      visit ⟨rules, settings, mutated⟩ fuel [] tree { facts, next } = (.kept tree', st) := by
  unfold run at h
  split at h
  · rename_i f hf
    cases h
    exact .inl ⟨f, hf, rfl, rfl⟩
  · rename_i mutated hmutated
    refine .inr ⟨mutated, hmutated, ?_⟩
    split at h
    · rename_i hvisit
      cases h
      exact hvisit
    · rename_i hvisit
      have hfits := (visit_steps fuel hvisit).2
      cases hfits

theorem run_head_eq (h : run fuel rules settings tree facts next = (tree', st)) :
    tree'.head = tree.head := by
  rcases run_cases h with ⟨f, -, rfl, -⟩ | ⟨mutated, -, hvisit⟩
  · rfl
  · exact (visit_steps fuel hvisit).1.head_eq

section
variable (hrules : Rule.catalog settings = .ok rules)
  (hoff : Rule.inlining ∈ settings.disabledRules)
include hrules hoff

theorem run_spends {σ : Nat} (h : run fuel rules settings tree facts next = (tree', st)) :
    Spends σ (tree, { facts, next }) (tree', st) := by
  rcases run_cases h with ⟨f, -, rfl, rfl⟩ | ⟨mutated, -, hvisit⟩
  · exact ⟨Nat.le_refl _, List.Subset.refl _, fun _ _ => Nat.le_refl _⟩
  · exact (visit_steps fuel hvisit).1.spends (tame_of_disabled hrules hoff)

theorem run_unlimited (hfuel : tree.weigh 1 ≤ fuel)
    (h : run fuel rules settings tree facts next = (tree', st)) : st.Unlimited := by
  rcases run_cases h with ⟨f, hf, rfl, rfl⟩ | ⟨mutated, -, hvisit⟩
  · have hwritten : Unlimited (written settings tree') :=
      .ite (unlimited_mutatedNames tree') (.ok _)
    rintro g hg
    cases hg
    exact hwritten f hf
  · refine (visit_unlimited (tame_of_disabled hrules hoff) ?_ fuel hfuel hvisit ?_).1
    · exact fun r hr => Rule.unlimited_of_mem_catalog hrules hr
    · rintro f hf
      cases hf

end

end Unravel.Pass
