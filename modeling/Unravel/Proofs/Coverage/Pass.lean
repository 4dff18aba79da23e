import Unravel.Proofs.Coverage.Seen

/-! One pass covers the whole tree: on a tree in which each node stands at one position, a pass that
ends without a fault has visited every node of the tree that it leaves, and went down from each of
them exactly once. -/

namespace Unravel.Pass

open Node

variable {env : Env} {fuel next : Nat} {rules : List Rule} {settings : Settings} {tree tree' : Node}
  {facts : Facts} {st : State}

theorem Step.tree_eq {a b : Node × State} (h : Step env a b) (hchanges : b.2.changes ≤ a.2.changes) :
    b.1 = a.1 := by
  cases h with
  | note => rfl
  | fail => rfl
  | learn => rfl
  | leave => rfl
  | @edit trail n st i o l =>
    rw [State.changes_install, State.changes_note] at hchanges
    exact absurd hchanges (Nat.not_succ_le_self _)

theorem Steps.tree_eq {a b : Node × State} (h : Steps env a b)
    (hchanges : b.2.changes ≤ a.2.changes) : b.1 = a.1 := by
  induction h with
  | refl => rfl
  | tail hsteps hstep ih =>
    have hfirst := Steps.changes_le hsteps
    have hlast := hstep.changes_le
    exact (hstep.tree_eq (by omega)).trans (ih (by omega))

theorem run_seen (hrules : Rule.catalog settings = .ok rules) (hplaced : tree.Every (Placed next))
    (honce : tree.marks.Nodup) (h : run fuel rules settings tree facts next = (tree', st))
    (hfault : st.fault = none) :
    ∃ seen, runSeen fuel rules settings tree facts next = (tree', st, seen) ∧
      tree'.marks ⊆ seen := by
  rcases run_cases h with ⟨f, -, -, rfl⟩ | ⟨mutated, hwritten, hvisit⟩
  · cases hfault
  · have hstandard : Env.Standard ⟨rules, settings, mutated⟩ := hrules
    have hawaits : Awaits { facts, next } [] tree.marks :=
      ⟨(every_placed_iff.mp hplaced).2, honce, List.forall_mem_nil _, fun _ _ => List.not_mem_nil⟩
    obtain ⟨seen, hrun, new, rfl, -, hdone⟩ := visit_seen hstandard fuel hvisit hawaits
    refine ⟨new ++ [], ?_, List.subset_append_of_subset_left _ (hdone hfault)⟩
    unfold runSeen
    rw [hwritten]
    dsimp only
    rw [hrun]

/-- A pass visits every node that it leaves: the node is supported, and its children are walked exactly
once. No node has its children walked twice, and a pass without a change enters each node of the tree
once and leaves the tree as it is. -/
theorem pass_covers_tree (hrules : Rule.catalog settings = .ok rules)
    (hplaced : tree.Every (Placed next)) (honce : tree.marks.Nodup)
    (h : run fuel rules settings tree facts next = (tree', st)) (hfault : st.fault = none) :
    (∃ seen, runSeen fuel rules settings tree facts next = (tree', st, seen) ∧
      ∀ c ∈ tree'.walk, ∃ m ∈ seen, c.mark = some m ∧ c.supported = .ok () ∧
        st.log.count (.descended (some m)) = 1) ∧
    (∀ mark, st.log.count (.descended mark) ≤ 1) ∧
    ((stats st.log).changes = 0 → tree' = tree ∧ (stats st.log).visited = tree.walk.length) := by
  obtain ⟨seen, hrun, hsubset⟩ := run_seen hrules hplaced honce h hfault
  rcases run_cases h with ⟨f, -, -, rfl⟩ | ⟨mutated, -, hvisit⟩
  · cases hfault
  have hstandard : Env.Standard ⟨rules, settings, mutated⟩ := hrules
  have haccounts : Accounts { facts, next } st tree'.walk := visit_accounts fuel hvisit hfault
  have hsteps := (visit_steps fuel hvisit).1
  obtain ⟨hplaced', hreuses⟩ := hsteps.placed hstandard hplaced
  have hmarked := (every_placed_iff.mp hplaced').1
  -- every node is marked, so the walk went down from the marks of the tree
  have hwalk : tree'.walk.map mark = tree'.marks.map some := map_mark_walk hmarked
  have hcount (mark : Option Nat) :
      st.log.count (.descended mark) = (tree'.marks.map some).count mark := by
    rw [count_descended, haccounts.descents, hwalk, List.count_append, List.count_reverse]
    rfl
  have honce' : ∀ mark, (tree'.marks.map some).count mark ≤ 1 := List.nodup_iff_count_le_one.mp
    ((hreuses.nodup honce).map fun _ _ h => Option.some.inj h)
  refine ⟨⟨seen, hrun, fun c hc => ?_⟩, fun mark => ?_, fun hchanges => ?_⟩
  · obtain ⟨m, hm⟩ := Option.isSome_iff_exists.mp (hmarked c hc)
    have hmem : m ∈ tree'.marks := mem_marks.mpr ⟨c, hc, hm⟩
    refine ⟨m, hsubset hmem, hm, haccounts.supported c hc, ?_⟩
    have hpos := List.count_pos_iff.mpr (List.mem_map_of_mem (f := some) hmem)
    have hone := honce' (some m)
    rw [hcount]
    omega
  · rw [hcount]
    exact honce' mark
  · have hsame : tree' = tree := hsteps.tree_eq (Nat.le_of_eq hchanges)
    subst hsame
    have henough := haccounts.enough
    have hlimited := haccounts.limited
    have hnone : st.changes = 0 := hchanges
    have hstart : State.entries { facts, next } = 0 := rfl
    have hstart' : State.changes { facts, next } = 0 := rfl
    refine ⟨rfl, ?_⟩
    change st.entries = tree'.walk.length
    omega

/-- `x = x; if (true) { f(); g(); } h();` -/
def shiftedStatements : Node :=
  let name (x : String) : Node := .identifier (.fresh none) x
  let call (x : String) : Option Node :=
    some (.expressionStatement (.fresh none) (.callExpression (.fresh none) (name x) []))
  .program (.fresh none)
    [some (.expressionStatement (.fresh none)
      (.assignmentExpression (.fresh none) "=" (name "x") (name "x"))),
    some (.mk (.fresh none) .ifStatement
      [.one (some (.literal (.fresh none) (.bool true))),
      .one (some (.blockStatement (.fresh none) [call "f", call "g"])), .one none]),
    call "h"]

theorem pass_covers_shiftedStatements :
    let tree := (shiftedStatements.number 0).1
    let r := run 40 Rule.standard {} tree {} (shiftedStatements.number 0).2
    (stats r.2.log).changes = 2 ∧
    (∃ seen, runSeen 40 Rule.standard {} tree {} (shiftedStatements.number 0).2 =
        (r.1, r.2, seen) ∧
      ∀ c ∈ r.1.walk, ∃ m ∈ seen, c.mark = some m ∧ c.supported = .ok () ∧
        r.2.log.count (.descended (some m)) = 1) ∧
    (∀ mark, r.2.log.count (.descended mark) ≤ 1) ∧
    ((stats r.2.log).changes = 0 → r.1 = tree ∧ (stats r.2.log).visited = tree.walk.length) := by
  have hrules : Rule.catalog {} = .ok Rule.standard := rfl
  have hplaced : (shiftedStatements.number 0).1.Every (Placed (shiftedStatements.number 0).2) := by
    decide +kernel
  refine ⟨by decide +kernel, ?_⟩
  exact pass_covers_tree hrules hplaced (by decide +kernel) rfl (by decide +kernel)

end Unravel.Pass
