import Unravel.Fixpoint
import Unravel.Proofs.Pass.Endless

/-! When every pass ends. With inlining off, a pass ends on every tree, so a run ends after at most as
many passes as it may make. With inlining on there is a tree on which a pass does not end, and the
limit on passes is of no help. -/

namespace Unravel.Fixpoint

open Node Pass

variable {fuel : Nat} {rules : List Rule} {settings : Settings}

/-- Given enough fuel a pass does not run out of it. -/
def PassEnds (rules : List Rule) (settings : Settings) (tree : Node) (facts : Facts)
    (next : Nat) : Prop :=
  ∃ bound, ∀ fuel, bound ≤ fuel →
    (Pass.run fuel rules settings tree facts next).2.fault ≠ some .outOfFuel

/-- Given enough fuel a run returns or raises something else than that it ran out of it, and a run
that returns has made no more passes than it may. -/
def RunEnds (rules : List Rule) (settings : Settings) (tree : Node) (facts : Facts)
    (next : Nat) : Prop :=
  ∃ bound, ∀ fuel, bound ≤ fuel →
    (run fuel rules settings tree facts next).2 ≠ .error .outOfFuel ∧
    ∀ report, (run fuel rules settings tree facts next).2 = .ok report →
      report.passes.length ≤ settings.passLimit

theorem loop_ends (hrules : Rule.catalog settings = .ok rules)
    (hoff : Rule.inlining ∈ settings.disabledRules) (limit : Nat) :
    ∀ (done : List Stats) (p : Progress), p.tree.weigh 1 ≤ fuel →
      (∀ f, (loop fuel rules settings limit done p).2 = .error f → f.isLimit = false) ∧
      ∀ status passes, (loop fuel rules settings limit done p).2 = .ok (status, passes) →
        passes.length ≤ done.length + limit := by
  induction limit with
  | zero =>
    intro done p _
    refine ⟨fun f hf => ?_, fun status passes hok => ?_⟩
    · cases hf
    · cases hok
      simp
  | succ limit ih =>
    intro done p hfuel
    rw [loop]
    generalize hrun : Pass.run fuel rules settings p.tree p.facts p.next = r
    obtain ⟨tree, st⟩ := r
    have hunlimited := run_unlimited hrules hoff hfuel hrun
    have hdepth : tree.weigh 1 + st.changes ≤ p.tree.weigh 1 := (run_spends hrules hoff hrun).weigh
    dsimp only
    cases hfault : st.fault with
    | some f =>
      refine ⟨fun g hg => ?_, fun status passes hok => ?_⟩
      · cases hg
        exact hunlimited f hfault
      · cases hok
    | none =>
      dsimp only
      split
      · refine ⟨fun f hf => ?_, fun status passes hok => ?_⟩
        · cases hf
        · cases hok
          simp
      · obtain ⟨herror, hok⟩ := ih (stats st.log :: done)
          ⟨tree, st.facts, st.next, st.log ++ p.log⟩ (by dsimp only; omega)
        refine ⟨herror, fun status passes h => ?_⟩
        have hlen := hok status passes h
        simp only [List.length_cons] at hlen
        omega

theorem runEnds_of_inlining_disabled {tree : Node} {facts : Facts} {next : Nat}
    (hrules : Rule.catalog settings = .ok rules)
    (hoff : Rule.inlining ∈ settings.disabledRules) : RunEnds rules settings tree facts next := by
  refine ⟨tree.weigh 1, fun fuel hfuel => ?_⟩
  obtain ⟨herror, hok⟩ := loop_ends hrules hoff settings.passLimit [] { tree, facts, next } hfuel
  unfold run
  cases hsupported : tree.supported with
  | error f =>
    have hlimit := unlimited_supported tree f hsupported
    refine ⟨fun hf => ?_, nofun⟩
    cases hf
    cases hlimit
  | ok =>
    dsimp only
    generalize loop fuel rules settings settings.passLimit [] { tree, facts, next } = r at herror hok
    obtain ⟨p, result⟩ := r
    match result with
    | .error f =>
      refine ⟨fun hf => ?_, nofun⟩
      cases hf
      cases herror .outOfFuel rfl
    | .ok (status, passes) =>
      have hlen := hok status passes rfl
      dsimp only
      split
      · exact ⟨nofun, nofun⟩
      · refine ⟨nofun, fun report hr => ?_⟩
        cases hr
        simpa using hlen

theorem run_outOfFuel {tree : Node} {facts : Facts} {next : Nat} (hsupported : tree.supported = .ok ())
    (hlimit : 0 < settings.passLimit)
    (h : (Pass.run fuel rules settings tree facts next).2.fault = some .outOfFuel) :
    (run fuel rules settings tree facts next).2 = .error .outOfFuel := by
  obtain ⟨limit, hlimit⟩ : ∃ limit, settings.passLimit = limit + 1 :=
    ⟨settings.passLimit - 1, by omega⟩
  simp only [run, hsupported, hlimit, loop, h]

/-- Every pass ends, and with it every run, exactly when inlining is off. -/
theorem ends_iff_inlining_disabled (hrules : Rule.catalog settings = .ok rules) :
    (∀ tree facts next, tree.kind = .program →
      PassEnds rules settings tree facts next ∧ RunEnds rules settings tree facts next) ↔
    Rule.inlining ∈ settings.disabledRules := by
  constructor
  · intro hends
    refine Decidable.byContradiction fun hon => ?_
    obtain ⟨bound, hbound⟩ := (hends throwFeed feederKnown 0 rfl).1
    exact hbound bound (Nat.le_refl _) (run_throwFeed_outOfFuel hrules hon bound 0)
  · intro hoff tree facts next _
    refine ⟨⟨tree.weigh 1, fun fuel hfuel hout => ?_⟩, runEnds_of_inlining_disabled hrules hoff⟩
    have hlimit := run_unlimited hrules hoff hfuel rfl .outOfFuel hout
    cases hlimit

abbrev marked (i : Nat) : Tag := ⟨some i, none⟩

def declareFeeder : Node :=
  .variableDeclaration (marked 1) "var"
    [some (.variableDeclarator (marked 2) (some (.identifier (marked 3) "w"))
      (some (feeder fun i => marked (4 + i))))]

/-- `var w = function (x) { return [x(x)]; }; w(w);` -/
def selfApplication : Node :=
  .program (marked 0)
    [some declareFeeder,
      some (.expressionStatement (marked 12) (feed (marked 13) (marked 14) (marked 15)))]

theorem selfApplication_ends_of_inlining_disabled :
    ∃ rules, Rule.catalog { disabledRules := [Rule.inlining] } = .ok rules ∧
      PassEnds rules { disabledRules := [Rule.inlining] } selfApplication {} 16 ∧
      RunEnds rules { disabledRules := [Rule.inlining] } selfApplication {} 16 :=
  ⟨_, rfl, (ends_iff_inlining_disabled rfl).mpr (by decide) selfApplication {} 16 rfl⟩

theorem visit_declareFeeder (trail : Trail) (log : List Event) :
    ∃ log', ∀ fuel,
      (visit ⟨Rule.standard, {}, []⟩ fuel trail declareFeeder ⟨{}, 16, log, none⟩).2.fault =
        some .outOfFuel ∨
      visit ⟨Rule.standard, {}, []⟩ fuel trail declareFeeder ⟨{}, 16, log, none⟩ =
        (.kept declareFeeder,
          ⟨{ functions := [("w", feeder fun i => marked (4 + i))] }, 16, log', none⟩) := by
  obtain ⟨log', hend⟩ :
      ∃ log', visit ⟨Rule.standard, {}, []⟩ 23 trail declareFeeder ⟨{}, 16, log, none⟩ =
        (.kept declareFeeder,
          ⟨{ functions := [("w", feeder fun i => marked (4 + i))] }, 16, log', none⟩) :=
    ⟨_, rfl⟩
  refine ⟨log', fun fuel => ?_⟩
  rw [← hend]
  exact visit_outOfFuel_or (by simp [hend]) fuel

theorem run_selfApplication_outOfFuel (fuel : Nat) :
    (Pass.run fuel Rule.standard {} selfApplication {} 16).2.fault = some .outOfFuel := by
  have hwritten : written {} selfApplication = .ok [] := rfl
  rw [fault_run hwritten]
  refine visit_outOfFuel rfl rfl rfl fun i _ => ?_
  refine visitSlots_outOfFuel_many fun j _ => ?_
  -- the declaration is walked to its end, and then comes the call
  obtain ⟨log', hdeclare⟩ := visit_declareFeeder _ _
  refine visitItems_outOfFuel_later (fun k _ => hdeclare k) rfl fun k _ => ?_
  refine visitItems_outOfFuel fun l _ => visit_outOfFuel rfl rfl rfl fun m _ => ?_
  refine visitSlots_outOfFuel_one fun o _ => ?_
  refine visit_feed_outOfFuel (fun i => marked (4 + i)) rfl (by decide) List.not_mem_nil o rfl rfl
    fun mark hm => ?_
  cases hm
  exact ⟨rfl, (by decide : 4 + 0 < 16)⟩

theorem selfApplication_endless :
    ¬ PassEnds Rule.standard {} selfApplication {} 16 ∧
      ¬ RunEnds Rule.standard {} selfApplication {} 16 := by
  constructor
  · rintro ⟨bound, hbound⟩
    exact hbound bound (Nat.le_refl _) (run_selfApplication_outOfFuel bound)
  · rintro ⟨bound, hbound⟩
    exact (hbound bound (Nat.le_refl _)).1
      (run_outOfFuel rfl (by decide) (run_selfApplication_outOfFuel bound))

end Unravel.Fixpoint
