import Unravel.Fixpoint
import Unravel.Proofs.Pass.Run

/-! Without inlining the passes come to rest. Every pass but the last pays with a lighter tree or with
a name learned, and a tree of `n` nodes can pay for at most `3 * n` changes and `3 * n` lessons. -/

namespace Unravel.Fixpoint

open Node Pass

variable {fuel : Nat} {rules : List Rule} {settings : Settings}

def changesOf (passes : List Stats) : Nat := passes.foldl (fun n p => n + p.changes) 0

theorem changesOf_reverse_cons (p : Stats) (done : List Stats) :
    changesOf (p :: done).reverse = changesOf done.reverse + p.changes := by
  unfold changesOf
  rw [List.reverse_cons, List.foldl_append]
  rfl

/-- As long as the passes left can be paid for, the loop ends converged or by a fault of the tree, and
its changes are paid for by the weight of the tree. -/
theorem loop_converges (hrules : Rule.catalog settings = .ok rules)
    (hoff : Rule.inlining ∈ settings.disabledRules) (names : List String) (limit : Nat) :
    ∀ (done : List Stats) (p : Progress), p.tree.names ⊆ names → p.tree.weigh 1 ≤ fuel →
      p.tree.weigh 0 + p.facts.missing names < limit →
      (∃ f, (loop fuel rules settings limit done p).2 = .error f ∧ f.isLimit = false) ∨
      ∃ passes, (loop fuel rules settings limit done p).2 = .ok (.converged, passes) ∧
        changesOf passes ≤ changesOf done.reverse + p.tree.weigh 0 := by
  induction limit with
  | zero =>
    intro done p _ _ hlimit
    omega
  | succ limit ih =>
    intro done p hnames hfuel hlimit
    rw [loop]
    generalize hrun : Pass.run fuel rules settings p.tree p.facts p.next = r
    obtain ⟨tree, st⟩ := r
    have hlight := run_spends (σ := 0) hrules hoff hrun
    have hshallow := run_spends (σ := 1) hrules hoff hrun
    have hunlimited := run_unlimited hrules hoff hfuel hrun
    have hweigh : tree.weigh 0 + st.changes ≤ p.tree.weigh 0 := hlight.weigh
    have hmissing : st.facts.missing names + st.lessons ≤ p.facts.missing names :=
      hlight.missing names hnames
    dsimp only
    cases hfault : st.fault with
    | some f => exact .inl ⟨f, rfl, hunlimited f hfault⟩
    | none =>
      dsimp only
      have hdone : changesOf (stats st.log :: done).reverse = changesOf done.reverse + st.changes :=
        changesOf_reverse_cons _ done
      split
      · refine .inr ⟨_, rfl, ?_⟩
        rw [hdone]
        omega
      · rename_i hbusy
        have hpaid : 0 < st.changes + st.lessons := by
          simp only [Bool.and_eq_true, decide_eq_true_eq] at hbusy
          change ¬(st.changes = 0 ∧ st.lessons = 0) at hbusy
          omega
        have hdepth : tree.weigh 1 + st.changes ≤ p.tree.weigh 1 := hshallow.weigh
        rcases ih (stats st.log :: done) ⟨tree, st.facts, st.next, st.log ++ p.log⟩
            (List.Subset.trans hlight.names hnames) (by dsimp only; omega)
            (by dsimp only; omega) with hfail | ⟨passes, hok, hsum⟩
        · exact .inl hfail
        · refine .inr ⟨passes, hok, ?_⟩
          rw [hdone] at hsum
          dsimp only at hsum
          omega

/-- With inlining off, a run that no rule stops converges within `6 * n + 1` passes over a tree of `n`
nodes, and changes it at most `3 * n` times. -/
theorem run_converges_of_inlining_disabled {tree : Node} {facts : Facts} {next : Nat}
    (hrules : Rule.catalog settings = .ok rules)
    (hoff : Rule.inlining ∈ settings.disabledRules)
    (hlimit : 6 * tree.walk.length + 1 ≤ settings.passLimit) :
    ∃ bound, ∀ fuel, bound ≤ fuel →
      (∀ f, (run fuel rules settings tree facts next).2 = .error f → f.isLimit = true) →
      ∃ report, (run fuel rules settings tree facts next).2 = .ok report ∧
        report.status = .converged ∧ report.totalChanges ≤ 3 * tree.walk.length := by
  refine ⟨tree.weigh 1, fun fuel hfuel hraise => ?_⟩
  have hweigh := tree.weigh_le_walk
  have hmissing := facts.missing_le tree.names
  have hnames := tree.length_names_le
  have hloop := loop_converges hrules hoff tree.names settings.passLimit []
    { tree, facts, next } (List.Subset.refl _) hfuel (by dsimp only; omega)
  have hclear {f : Fault} (hf : f.isLimit = false) :
      (run fuel rules settings tree facts next).2 ≠ .error f := by
    intro h
    rw [hraise f h] at hf
    cases hf
  unfold run at hclear ⊢
  cases hsupported : tree.supported with
  | error f =>
    rw [hsupported] at hclear
    exact absurd rfl (hclear (unlimited_supported tree f hsupported))
  | ok =>
    rw [hsupported] at hclear
    dsimp only at hclear ⊢
    generalize loop fuel rules settings settings.passLimit [] { tree, facts, next } = r
      at hclear hloop ⊢
    obtain ⟨p, result⟩ := r
    rcases hloop with ⟨f, rfl, hlimited⟩ | ⟨passes, rfl, hsum⟩
    · exact absurd rfl (hclear hlimited)
    · refine ⟨{ status := .converged, passes, applications := applications rules.length p.log },
        rfl, rfl, ?_⟩
      have hnone : changesOf [].reverse = 0 := rfl
      change changesOf passes ≤ _
      dsimp only at hsum
      omega

/-- `var a = true; a && b;` -/
def guardedRead : Node :=
  (Node.program (.fresh none)
    [some (.variableDeclaration (.fresh none) "var"
      [some (.variableDeclarator (.fresh none) (some (.identifier (.fresh none) "a"))
        (some (.literal (.fresh none) (.bool true))))]),
    some (.expressionStatement (.fresh none)
      (.logicalExpression (.fresh none) "&&" (.identifier (.fresh none) "a")
        (.identifier (.fresh none) "b")))]).number 0 |>.1

theorem guardedRead_converges :
    ∃ rules, Rule.catalog { disabledRules := [Rule.inlining] } = .ok rules ∧
      ((run 40 rules { disabledRules := [Rule.inlining] } guardedRead {} 9).2.toOption.map
        fun r => (r.status, r.changesHistory)) = some (.converged, [2, 1, 0]) ∧
      ∃ bound, ∀ fuel, bound ≤ fuel →
        (∀ f, (run fuel rules { disabledRules := [Rule.inlining] } guardedRead {} 9).2 = .error f →
          f.isLimit = true) →
        ∃ report, (run fuel rules { disabledRules := [Rule.inlining] } guardedRead {} 9).2 =
            .ok report ∧
          report.status = .converged ∧ report.totalChanges ≤ 3 * guardedRead.walk.length :=
  ⟨_, rfl, by decide +kernel,
    run_converges_of_inlining_disabled rfl (by decide) (by decide +kernel)⟩

end Unravel.Fixpoint
