import Unravel.Proofs.Fixpoint.LastPass
import Unravel.Proofs.Rule.KnownNames

/-! A converged run ends in normal form: at no position has a rule other than inlining anything left
to do, judged by the final facts and the names that the final tree writes to. -/

namespace Unravel.Fixpoint

open Node Pass

variable {fuel : Nat} {rules : List Rule} {settings : Settings} {tree : Node} {facts : Facts}
  {next : Nat} {p : Progress} {report : Report} {mutated : List String} {trail : Trail} {n : Node}

/-- At a position, every rule other than inlining answers nothing, or a fact about a known name, or
asks to remove a node from where only a list could lose it. -/
def Exhausted (rules : List Rule) (settings : Settings) (mutated : List String) (facts : Facts)
    (trail : Trail) (n : Node) : Prop :=
  ∀ r ∈ rules, r.name ≠ Rule.inlining → r.applies n = true →
    r.transform ⟨trail, facts, settings, mutated⟩ n = .ok none ∨
    (∃ fact, r.transform ⟨trail, facts, settings, mutated⟩ n = .ok (some (.learn fact)) ∧
      (facts.learn fact).2 = false) ∨
    (r.transform ⟨trail, facts, settings, mutated⟩ n = .ok (some .remove) ∧
      trail.inSequence = false)

/-- What the folding rules look for is not found at a position. -/
structure Folded (mutated : List String) (facts : Facts) (trail : Trail) (n : Node) : Prop where
  no_and : ∀ t left right, n ≠ .mk t (.logicalExpression "&&") [left, right]
  no_or : ∀ t left right, n ≠ .mk t (.logicalExpression "||") [left, right]
  no_sum : ∀ t u v a b, n ≠ .binaryExpression t "+" (.literal u a) (.literal v b)
  no_if : ∀ t u test consequent alternate,
    n ≠ .mk t .ifStatement [.one (some (.literal u test)), .one consequent, .one alternate]
  no_conditional : ∀ t u test consequent alternate,
    n ≠ .conditionalExpression t (.literal u test) consequent alternate
  no_constant : ∀ t name, n = .identifier t name → isReference trail.seat? = true →
    isWriteTarget trail.seat? = false → facts.constants.has name = true → name ∈ mutated

theorem idle_cons {f : Frame} {fs : Trail} {x : Except Fault (Option Outcome)}
    (h : Idle facts (f :: fs) x) :
    x = .ok none ∨ (∃ fact, x = .ok (some (.learn fact)) ∧ (facts.learn fact).2 = false) ∨
      (x = .ok (some .remove) ∧ f.inSequence = false) := by
  match x with
  | .error _ => cases h
  | .ok none => exact .inl rfl
  | .ok (some (.learn fact)) => exact .inr (.inl ⟨fact, rfl, h⟩)
  | .ok (some (.replace m)) => cases h
  | .ok (some .remove) =>
    refine .inr (.inr ⟨rfl, ?_⟩)
    cases hf : f.inSequence with
    | false => rfl
    | true => simp [Idle, land, hf] at h
  | .ok (some (.splice ns)) =>
    change land (f :: fs) (.splice ns) = none at h
    cases hf : f.inSequence with
    | true => simp [land, hf] at h
    | false =>
      match ns with
      | [] => simp [land, hf] at h
      | [m] => simp [land, hf] at h
      | m :: m' :: ms => simp [land, hf] at h

theorem not_applies_program {r : Rule} (hr : r ∈ Rule.standard) (hn : n.kind = .program) :
    r.kinds.contains n.kind = false := by
  have hall : Rule.standard.all (fun r => !r.kinds.contains .program) = true := rfl
  simpa [hn] using List.all_eq_true.mp hall r hr

/-- The last pass has tried every rule at every position, with facts about the same names. -/
theorem exhausted_of_lastPass (hrules : Rule.catalog settings = .ok rules)
    (hroot : p.tree.kind = .program) (h : LastPass fuel rules settings p mutated facts)
    (hpos : trail.plug n = p.tree) : Exhausted rules settings mutated p.facts trail n := by
  intro r hr hname happlies
  obtain ⟨s, hs, rfl⟩ := Rule.mem_catalog hrules hr
  have hmem := consult_mem_tour hr trail n
  rw [hpos] at hmem
  obtain ⟨before, after, htour⟩ := List.append_of_mem hmem
  have hquiet := h.quiet
  rw [htour, quietAlong_append] at hquiet
  -- what the rule found differs from the final facts in no name
  have hsame := (sameNames_foldl hquiet.1).symm.trans (sameNames_foldl h.quiet)
  rw [← h.facts_eq] at hsame
  have hidle := hquiet.2.1
  simp only [Quiet, answer, happlies, if_true] at hidle
  have hidle' := Rule.idle_of_alike (Rule.alike_transform hs hname hsame) hsame hidle
  cases trail with
  | nil =>
    rw [Trail.plug_nil] at hpos
    have hkind := not_applies_program hs (hpos ▸ hroot)
    simp only [Rule.applies, Bool.and_eq_true] at happlies
    rw [hkind] at happlies
    cases happlies.2
  | cons f fs => exact idle_cons hidle'

theorem folded_of_exhausted (hrules : Rule.catalog settings = .ok rules)
    (hon : settings.disabledRules = [])
    (h : Exhausted rules settings mutated facts trail n) : Folded mutated facts trail n := by
  have hall : rules = Rule.standard := by
    rw [Rule.catalog_eq hrules, hon]
    rfl
  rw [hall] at h
  have hdone {r : Rule} (hr : r ∈ Rule.standard) (hname : r.name ≠ Rule.inlining)
      (happlies : r.applies n = true)
      (hedit : ∀ o, r.transform ⟨trail, facts, settings, mutated⟩ n = .ok o →
        (∃ m, o = some (.replace m)) ∨ ∃ ns, o = some (.splice ns)) : False := by
    rcases h r hr hname happlies with hx | ⟨fact, hx, -⟩ | ⟨hx, -⟩
    · rcases hedit _ hx with ⟨_, ho⟩ | ⟨_, ho⟩ <;> cases ho
    · rcases hedit _ hx with ⟨_, ho⟩ | ⟨_, ho⟩ <;> cases ho
    · rcases hedit _ hx with ⟨_, ho⟩ | ⟨_, ho⟩ <;> cases ho
  have hlogical : (⟨"logical_to_conditional", [.logicalExpression], Rule.logicalToConditional,
      true⟩ : Rule) ∈ Rule.standard := by simp [Rule.standard]
  have hplus : (⟨"fold_binary_plus", [.binaryExpression], Rule.foldPlus, true⟩ : Rule) ∈
      Rule.standard := by simp [Rule.standard]
  have htest : (⟨"simplify_conditional", [.ifStatement, .conditionalExpression],
      Rule.simplifyConditional, true⟩ : Rule) ∈ Rule.standard := by simp [Rule.standard]
  have hread : (⟨"substitute_identifier", [.identifier], Rule.substituteIdentifier, true⟩ : Rule) ∈
      Rule.standard := by simp [Rule.standard]
  refine ⟨?_, ?_, ?_, ?_, ?_, ?_⟩
  · rintro t left right rfl
    refine hdone hlogical (by decide) rfl fun o ho => ?_
    cases ho
    exact .inl ⟨_, rfl⟩
  · rintro t left right rfl
    refine hdone hlogical (by decide) rfl fun o ho => ?_
    cases ho
    exact .inl ⟨_, rfl⟩
  · rintro t u v a b rfl
    refine hdone hplus (by decide) rfl fun o ho => ?_
    obtain ⟨v, -, ho⟩ := bind_eq_ok.mp ho
    cases ho
    exact .inl ⟨_, rfl⟩
  · rintro t u test consequent alternate rfl
    refine hdone htest (by decide) rfl fun o ho => ?_
    obtain ⟨b, -, ho⟩ := bind_eq_ok.mp ho
    dsimp only at ho
    split at ho
    · cases ho
      exact .inl ⟨_, rfl⟩
    · split at ho
      · cases ho
        exact .inr ⟨_, rfl⟩
      · cases ho
        exact .inl ⟨_, rfl⟩
    · cases ho
      exact .inl ⟨_, rfl⟩
  · rintro t u test consequent alternate rfl
    refine hdone htest (by decide) rfl fun o ho => ?_
    obtain ⟨b, -, ho⟩ := bind_eq_ok.mp ho
    cases b <;>
    · cases ho
      exact .inl ⟨_, rfl⟩
  · rintro t name rfl href hwrite hknown
    refine Decidable.byContradiction fun hmutated => ?_
    refine hdone hread (by decide) rfl fun o ho => ?_
    have hconst : Site.isConstantName ⟨trail, facts, settings, mutated⟩ name = true := by
      simp [Site.isConstantName, hmutated]
    rw [← Table.isSome_get?, Option.isSome_iff_exists] at hknown
    obtain ⟨v, hv⟩ := hknown
    simp only [Rule.substituteIdentifier, Site.seat?, href, hwrite, hconst, hv, Bool.not_true,
      Bool.or_self, Bool.false_eq_true, if_false, Option.map_some] at ho
    cases ho
    exact .inl ⟨_, rfl⟩

/-- A converged run ends in normal form. -/
theorem normalForm_of_converged (hrules : Rule.catalog settings = .ok rules)
    (hroot : tree.kind = .program)
    (h : run fuel rules settings tree facts next = (p, .ok report))
    (hstatus : report.status = .converged) :
    ∃ mutated, written settings p.tree = .ok mutated ∧
      (∀ trail n, trail.plug n = p.tree → Exhausted rules settings mutated p.facts trail n) ∧
      (settings.disabledRules = [] →
        ∀ trail n, trail.plug n = p.tree → Folded mutated p.facts trail n) := by
  obtain ⟨hhead, mutated, earlier, hlast⟩ := exists_lastPass h hstatus
  have hkind : p.tree.kind = .program := by
    rw [← hroot, Node.kind, Node.kind, hhead]
  have hexhausted (trail : Trail) (n : Node) (hpos : trail.plug n = p.tree) :
      Exhausted rules settings mutated p.facts trail n :=
    exhausted_of_lastPass hrules hkind hlast hpos
  exact ⟨mutated, hlast.written, hexhausted, fun hon trail n hpos =>
    folded_of_exhausted hrules hon (hexhausted trail n hpos)⟩

/-- `true || a;` -/
def shortCircuit : Node :=
  (Node.program (.fresh none)
    [some (.expressionStatement (.fresh none)
      (.logicalExpression (.fresh none) "||" (.literal (.fresh none) (.bool true))
        (.identifier (.fresh none) "a")))]).number 0 |>.1

theorem shortCircuit_normalForm :
    ∃ p report mutated, run 40 Rule.standard {} shortCircuit {} 5 = (p, .ok report) ∧
      report.status = .converged ∧ written {} p.tree = .ok mutated ∧
      (∀ trail n, trail.plug n = p.tree → Exhausted Rule.standard {} mutated p.facts trail n) ∧
      ∀ trail n, trail.plug n = p.tree → Folded mutated p.facts trail n := by
  obtain ⟨p, report, hrun, hstatus⟩ := exists_of_status
    (by decide +kernel : (run 40 Rule.standard {} shortCircuit {} 5).2.toOption.map (·.status) =
      some .converged)
  obtain ⟨mutated, hwritten, hexhausted, hfolded⟩ := normalForm_of_converged rfl rfl hrun hstatus
  exact ⟨p, report, mutated, hrun, hstatus, hwritten, hexhausted, hfolded rfl⟩

end Unravel.Fixpoint
