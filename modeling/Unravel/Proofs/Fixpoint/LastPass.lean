import Unravel.Fixpoint
import Unravel.Proofs.Pass.Calm
import Unravel.Proofs.Pass.Run

/-! The last pass of a converged run: it leaves the tree as it is, follows its tour and changes the
facts only behind known names. -/

namespace Unravel.Fixpoint

open Pass

variable {fuel : Nat} {rules : List Rule} {settings : Settings} {tree : Node} {facts : Facts}
  {next : Nat} {p : Progress} {report : Report}

/-- A pass over the tree of `p` from earlier facts that was quiet all along and ended with the facts of
`p`. -/
structure LastPass (fuel : Nat) (rules : List Rule) (settings : Settings) (p : Progress)
    (mutated : List String) (facts : Facts) : Prop where
  written : written settings p.tree = .ok mutated
  nesting : p.tree.nesting ≤ fuel
  quiet : QuietAlong ⟨rules, settings, mutated⟩ facts (p.tree.tour rules [])
  facts_eq : p.facts = (p.tree.tour rules []).foldl (listen ⟨rules, settings, mutated⟩) facts

theorem lastPass_of_run {st : State} (h : Pass.run fuel rules settings tree facts next = (p.tree, st))
    (hfacts : p.facts = st.facts) (hsound : st.fault = none)
    (hstats : (stats st.log).changes = 0 ∧ (stats st.log).facts = 0) :
    p.tree = tree ∧ ∃ mutated, LastPass fuel rules settings p mutated facts := by
  rcases run_cases h with ⟨f, -, -, rfl⟩ | ⟨mutated, hwritten, hvisit⟩
  · cases hsound
  · obtain ⟨hkept, hnest, hquiet, hend⟩ := visit_calm fuel hvisit ⟨hsound, hstats.1, hstats.2⟩
    cases hkept
    exact ⟨rfl, mutated, hwritten, hnest, hquiet, hfacts.trans hend⟩

theorem loop_lastPass (limit : Nat) : ∀ (done : List Stats) (p p' : Progress) (passes : List Stats),
    loop fuel rules settings limit done p = (p', .ok (.converged, passes)) →
    done.length < passes.length ∧ p'.tree.head = p.tree.head ∧
      ∃ mutated facts, LastPass fuel rules settings p' mutated facts := by
  induction limit with
  | zero =>
    intro done p p' passes h
    cases h
  | succ limit ih =>
    intro done p p' passes h
    rw [loop] at h
    generalize hrun : Pass.run fuel rules settings p.tree p.facts p.next = r at h
    obtain ⟨tree, st⟩ := r
    dsimp only at h
    cases hfault : st.fault with
    | some f =>
      rw [hfault] at h
      cases h
    | none =>
      rw [hfault] at h
      dsimp only at h
      split at h
      · rename_i hcalm
        cases h
        simp only [Bool.and_eq_true, decide_eq_true_eq] at hcalm
        obtain ⟨-, mutated, hlast⟩ := lastPass_of_run
          (p := ⟨tree, st.facts, st.next, st.log ++ p.log⟩) hrun rfl hfault hcalm
        exact ⟨by simp, run_head_eq hrun, mutated, p.facts, hlast⟩
      · obtain ⟨hlen, hhead, hlast⟩ := ih _ _ _ _ h
        simp only [List.length_cons] at hlen
        exact ⟨by omega, hhead.trans (run_head_eq hrun), hlast⟩

theorem run_converged (h : run fuel rules settings tree facts next = (p, .ok report))
    (hstatus : report.status = .converged) :
    tree.supported = .ok () ∧
      loop fuel rules settings settings.passLimit [] { tree, facts, next } =
        (p, .ok (.converged, report.passes)) := by
  unfold run at h
  dsimp only at h
  split at h
  · cases h
  · rename_i u hsupported
    split at h
    · cases h
    · rename_i q status passes hloop
      split at h
      · cases h
      · cases h
        cases hstatus
        exact ⟨hsupported, hloop⟩

theorem exists_lastPass (h : run fuel rules settings tree facts next = (p, .ok report))
    (hstatus : report.status = .converged) :
    p.tree.head = tree.head ∧ ∃ mutated facts, LastPass fuel rules settings p mutated facts := by
  obtain ⟨-, hloop⟩ := run_converged h hstatus
  exact (loop_lastPass _ _ _ _ _ hloop).2

theorem exists_of_status {r : Progress × Except Fault Report}
    (h : r.2.toOption.map (·.status) = some .converged) :
    ∃ p report, r = (p, .ok report) ∧ report.status = .converged := by
  match r with
  | (p, .error f) => cases h
  | (p, .ok report) => exact ⟨p, report, rfl, Option.some.inj h⟩

end Unravel.Fixpoint
