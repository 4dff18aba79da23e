import Unravel.Proofs.Fixpoint.LastPass
import Unravel.Proofs.Rule.KnownNames

/-! Running again from a converged result. The facts are now those of the end of the last pass, not
those that its rules found on the way, and a call may be inlined that was not before: one of a name
whose function the walk has not recorded again when it comes to the call. Nothing else can happen. -/

namespace Unravel

open Node

namespace Pass

variable {settings : Settings} {rules : List Rule} {mutated : List String} {env : Env}
  {a b : Facts} {before : List Stop} {s : Stop}

def Records (env : Env) (name : String) : Stop → Prop
  | .consult r trail n => ∃ fn, answer env {} r trail n = .ok (some (.learn (.function name fn)))
  | _ => False

def Asks (env : Env) (s : Stop) : Prop := ∀ r trail n, s = .consult r trail n → r ∈ env.rules

theorem learn_answer (hrules : env.Standard) {r : Rule} (hr : r ∈ env.rules) {trail : Trail}
    {n : Node} {fact : Fact} (h : answer env a r trail n = .ok (some (.learn fact))) (b : Facts) :
    answer env b r trail n = .ok (some (.learn fact)) := by
  obtain ⟨s, hs, rfl⟩ := Rule.mem_catalog hrules hr
  unfold answer at h ⊢
  split at h
  · rename_i happlies
    rw [if_pos happlies]
    exact Rule.learn_transform hs h b
  · cases h

/-- Facts of two passes at the same stop: they know the same names, and the same functions for the
names recorded since the passes began. -/
structure Matches (env : Env) (before : List Stop) (a b : Facts) : Prop where
  names : a.SameNames b
  functions : ∀ name, (∃ s ∈ before, Records env name s) →
    a.functions.get? name = b.functions.get? name

theorem Matches.listen (hrules : env.Standard) (hs : Asks env s) (h : Matches env before a b)
    (ha : Quiet env a s) (hb : Quiet env b s) :
    Matches env (before ++ [s]) (listen env a s) (listen env b s) := by
  refine ⟨(sameNames_listen ha).symm.trans (h.names.trans (sameNames_listen hb)), ?_⟩
  rintro name ⟨s', hmem, hrecords⟩
  rw [List.mem_append, List.mem_singleton] at hmem
  cases s with
  | enter n =>
    rcases hmem with hmem | rfl
    · exact h.functions name ⟨s', hmem, hrecords⟩
    · cases hrecords
  | leave n =>
    rcases hmem with hmem | rfl
    · have hsame := h.functions name ⟨s', hmem, hrecords⟩
      simp only [Pass.listen]
      split
      · rw [Facts.update, Facts.update, Facts.get?_refresh, Facts.get?_refresh, hsame]
      · exact hsame
    · cases hrecords
  | consult r trail n =>
    have hr := hs r trail n rfl
    by_cases hlearn : ∃ fact, answer env a r trail n = .ok (some (.learn fact))
    · obtain ⟨fact, hfact⟩ := hlearn
      have hfact' := learn_answer hrules hr hfact b
      simp only [Pass.listen, hfact, hfact']
      have hhere (hrecords : Records env name (.consult r trail n)) :
          ∃ fn, fact = .function name fn := by
        obtain ⟨fn, hfn⟩ := hrecords
        rw [learn_answer hrules hr hfact {}] at hfn
        cases hfn
        exact ⟨fn, rfl⟩
      cases fact with
      | constant other value =>
        rcases hmem with hmem | rfl
        · exact h.functions name ⟨s', hmem, hrecords⟩
        · obtain ⟨fn, hfn⟩ := hhere hrecords
          cases hfn
      | array other values =>
        rcases hmem with hmem | rfl
        · exact h.functions name ⟨s', hmem, hrecords⟩
        · obtain ⟨fn, hfn⟩ := hhere hrecords
          cases hfn
      | function other fn =>
        simp only [Facts.learn, Table.get?_set]
        rcases hmem with hmem | rfl
        · rw [h.functions name ⟨s', hmem, hrecords⟩]
        · obtain ⟨fn', hfn⟩ := hhere hrecords
          cases hfn
          simp
    · have hkeep (c : Facts) : Pass.listen env c (.consult r trail n) = c := by
        simp only [Pass.listen]
        split
        · rename_i fact hfact
          exact absurd ⟨fact, learn_answer hrules hr hfact a⟩ hlearn
        · rfl
      rw [hkeep a, hkeep b]
      rcases hmem with hmem | rfl
      · exact h.functions name ⟨s', hmem, hrecords⟩
      · obtain ⟨fn, hfn⟩ := hrecords
        exact absurd ⟨_, learn_answer hrules hr hfn a⟩ hlearn

/-- A stop that was quiet is quiet again, unless it calls a name that is not yet recorded again. -/
theorem quiet_again (hrules : env.Standard) (hs : Asks env s) (h : Matches env before a b)
    (hlate : ∀ r trail t callee name args,
      s = .consult r trail (.callExpression t callee args) → r.name = Rule.inlining →
      callee.head = .identifier name → (∀ s ∈ before, ¬ Records env name s) →
      answer env b r trail (.callExpression t callee args) = .ok none)
    (ha : Quiet env a s) : Quiet env b s := by
  cases s with
  | enter n => exact ha
  | leave n => trivial
  | consult r trail n =>
    obtain ⟨s, hstandard, rfl⟩ := Rule.mem_catalog hrules (hs r trail n rfl)
    by_cases hcall : ∃ t callee args name, s.name = Rule.inlining ∧
        n = .callExpression t callee args ∧ callee.head = .identifier name ∧
        ∀ s ∈ before, ¬ Records env name s
    · obtain ⟨t, callee, args, name, hname, rfl, hhead, hnew⟩ := hcall
      simp only [Quiet]
      rw [hlate _ trail t callee name args rfl hname hhead hnew]
      trivial
    · simp only [Quiet, answer] at ha ⊢
      split
      · rename_i happlies
        rw [if_pos happlies] at ha
        refine Rule.idle_of_alike ?_ h.names ha
        by_cases hname : s.name = Rule.inlining
        · rw [Rule.transform_of_inlining hstandard hname]
          refine .inl (Rule.inlineReturn_congr fun t callee args name hn hhead => ?_)
          refine h.functions name (Classical.byContradiction fun hnew => hcall ?_)
          exact ⟨t, callee, args, name, hname, hn, hhead, fun s hmem hrec => hnew ⟨s, hmem, hrec⟩⟩
        · exact Rule.alike_transform hstandard hname h.names
      · trivial

theorem quietAlong_again (hrules : env.Standard) (stops : List Stop) :
    ∀ {before : List Stop} {a b : Facts}, (∀ s ∈ stops, Asks env s) → Matches env before a b →
      QuietAlong env a stops →
      (∀ mid after r trail t callee name args,
        stops = mid ++ .consult r trail (.callExpression t callee args) :: after →
        r.name = Rule.inlining → callee.head = .identifier name →
        (∀ s ∈ before ++ mid, ¬ Records env name s) →
        answer env (mid.foldl (listen env) b) r trail (.callExpression t callee args) = .ok none) →
      QuietAlong env b stops := by
  induction stops with
  | nil => intros; trivial
  | cons s stops ih =>
    intro before a b hasks h ha hlate
    have hs := hasks s (List.mem_cons_self ..)
    have hb : Quiet env b s := by
      refine quiet_again hrules hs h (fun r trail t callee name args hcall hname hhead hnew => ?_) ha.1
      subst hcall
      exact hlate [] stops r trail t callee name args rfl hname hhead (by simpa using hnew)
    refine ⟨hb, ih (fun s hs => hasks s (List.mem_cons_of_mem _ hs)) (h.listen hrules hs ha.1 hb)
      ha.2 fun mid after r trail t callee name args hsplit hname hhead hnew => ?_⟩
    rw [List.append_assoc, List.singleton_append] at hnew
    exact hlate (s :: mid) after r trail t callee name args (by rw [hsplit]; rfl) hname hhead hnew

end Pass
namespace Fixpoint

open Pass

variable {fuel : Nat} {rules : List Rule} {settings : Settings} {tree : Node} {facts : Facts}
  {next : Nat} {p : Progress} {report : Report} {mutated : List String}

/-- A further run makes one pass, changes nothing, learns nothing and leaves the tree as it is. -/
def Settles (fuel : Nat) (rules : List Rule) (settings : Settings) (p : Progress) : Prop :=
  ∃ p' report, run fuel rules settings p.tree p.facts p.next = (p', .ok report) ∧
    report.status = .converged ∧ report.passes.length = 1 ∧ report.totalChanges = 0 ∧
    report.factsLearned = 0 ∧ p'.tree = p.tree

/-- Where the walk comes to a call of a name that it has not recorded on its way, the facts that it
has there do not let the call be inlined. -/
def NoLateInlining (env : Env) (tree : Node) (facts : Facts) : Prop :=
  ∀ before after r trail t callee name args,
    tree.tour env.rules [] = before ++ .consult r trail (.callExpression t callee args) :: after →
    r.name = Rule.inlining → callee.head = .identifier name →
    (∀ s ∈ before, ¬ Records env name s) →
    answer env (before.foldl (listen env) facts) r trail (.callExpression t callee args) = .ok none

theorem settles_iff_quietAlong (hlimit : 0 < settings.passLimit)
    (hwritten : written settings p.tree = .ok mutated) (hnest : p.tree.nesting ≤ fuel) :
    Settles fuel rules settings p ↔
      QuietAlong ⟨rules, settings, mutated⟩ p.facts (p.tree.tour rules []) := by
  constructor
  · rintro ⟨p', report, hrun, hstatus, hone, -, -, -⟩
    obtain ⟨-, hloop⟩ := run_converged hrun hstatus
    obtain ⟨limit, hlimit⟩ : ∃ limit, settings.passLimit = limit + 1 :=
      ⟨settings.passLimit - 1, by omega⟩
    rw [hlimit, loop] at hloop
    generalize hpass : Pass.run fuel rules settings p.tree p.facts p.next = r at hloop
    obtain ⟨tree', st⟩ := r
    dsimp only at hloop
    cases hfault : st.fault with
    | some f =>
      rw [hfault] at hloop
      cases hloop
    | none =>
      rw [hfault] at hloop
      dsimp only at hloop
      split at hloop
      · rename_i hcalm
        simp only [Bool.and_eq_true, decide_eq_true_eq] at hcalm
        obtain ⟨rfl, mutated', hlast⟩ := lastPass_of_run
          (p := ⟨tree', st.facts, st.next, st.log⟩) hpass rfl hfault hcalm
        have hsame := hlast.written
        rw [hwritten] at hsame
        cases hsame
        exact hlast.quiet
      · have hlen := (loop_lastPass _ _ _ _ _ hloop).1
        rw [hone] at hlen
        simp at hlen
  · intro hquiet
    have hsupported : p.tree.supported = .ok () := by
      cases htree : p.tree with
      | mk t h ss =>
        rw [htree, tour] at hquiet
        exact hquiet.1
    obtain ⟨st, hvisit, -, hrests⟩ : ∃ st, visit ⟨rules, settings, mutated⟩ fuel [] p.tree
        { facts := p.facts, next := p.next } = (.kept p.tree, st) ∧ _ ∧
        Rests { facts := p.facts, next := p.next } st := visit_quiet fuel hnest rfl ⟨hquiet, rfl⟩
    have hpass : Pass.run fuel rules settings p.tree p.facts p.next = (p.tree, st) := by
      unfold written at hwritten
      simp only [Pass.run, hwritten, hvisit]
    have hfault : st.fault = none := hrests.fault
    have hchanges : (stats st.log).changes = 0 := hrests.changes
    have hlessons : (stats st.log).facts = 0 := hrests.lessons
    obtain ⟨limit, hlimit⟩ : ∃ limit, settings.passLimit = limit + 1 :=
      ⟨settings.passLimit - 1, by omega⟩
    have hloop : loop fuel rules settings settings.passLimit [] ⟨p.tree, p.facts, p.next, []⟩ =
        (⟨p.tree, st.facts, st.next, st.log ++ []⟩, .ok (.converged, [stats st.log])) := by
      simp only [hlimit, loop, hpass, hfault, hchanges, hlessons, decide_true, Bool.and_self,
        if_true, List.reverse_cons, List.reverse_nil, List.nil_append]
    refine ⟨⟨p.tree, st.facts, st.next, st.log ++ []⟩, ⟨.converged, [stats st.log],
      applications rules.length (st.log ++ [])⟩, ?_, rfl, rfl, ?_, ?_, rfl⟩
    · simp only [run, hsupported, hloop]
      rfl
    · simpa [Report.totalChanges, Report.total] using hchanges
    · simpa [Report.factsLearned, Report.total] using hlessons

theorem none_of_idle_inlining {r : Rule} {trail : Trail} {n : Node}
    (hrules : Rule.catalog settings = .ok rules) (hr : r ∈ rules) (hname : r.name = Rule.inlining)
    (hbelow : trail ≠ [])
    (h : Quiet ⟨rules, settings, mutated⟩ facts (.consult r trail n)) :
    answer ⟨rules, settings, mutated⟩ facts r trail n = .ok none := by
  obtain ⟨s, hs, rfl⟩ := Rule.mem_catalog hrules hr
  change Idle facts trail (answer ⟨rules, settings, mutated⟩ facts _ trail n) at h
  unfold answer at h ⊢
  rw [Rule.transform_of_inlining hs hname] at h ⊢
  split
  · rename_i happlies
    rw [if_pos happlies] at h
    cases hx : Rule.inlineReturn ⟨trail, facts, settings, mutated⟩ n with
    | error f =>
      rw [hx] at h
      cases h
    | ok o =>
      cases o with
      | none => rfl
      | some o =>
        rw [hx] at h
        obtain ⟨m, rfl⟩ := Rule.replace_of_inlineReturn hx
        cases trail with
        | nil => exact absurd rfl hbelow
        | cons f fs => cases h
  · rfl

/-- After a run that converged, a further run settles exactly when no call is left that only the final
facts would let it inline. -/
theorem settles_iff_noLateInlining (hrules : Rule.catalog settings = .ok rules)
    (hroot : tree.kind = .program)
    (h : run fuel rules settings tree facts next = (p, .ok report))
    (hstatus : report.status = .converged) :
    ∃ mutated, written settings p.tree = .ok mutated ∧
      (Settles fuel rules settings p ↔ NoLateInlining ⟨rules, settings, mutated⟩ p.tree p.facts) := by
  obtain ⟨hhead, mutated, earlier, hlast⟩ := exists_lastPass h hstatus
  have hlimit : 0 < settings.passLimit := by
    have hloop := (run_converged h hstatus).2
    cases hl : settings.passLimit with
    | zero =>
      rw [hl] at hloop
      cases hloop
    | succ limit => exact Nat.succ_pos limit
  have hstandard : Env.Standard ⟨rules, settings, mutated⟩ := hrules
  have hasks : ∀ s ∈ p.tree.tour rules [], Asks ⟨rules, settings, mutated⟩ s := by
    rintro _ hs r trail n rfl
    exact (position_of_mem_tour p.tree hs).1
  refine ⟨mutated, hlast.written, ?_⟩
  rw [settles_iff_quietAlong hlimit hlast.written hlast.nesting]
  constructor
  · intro hquiet before after r trail t callee name args hsplit hname hhead' hnew
    have hmem : Stop.consult r trail (.callExpression t callee args) ∈ p.tree.tour rules [] := by
      rw [hsplit]
      exact List.mem_append_right _ (List.mem_cons_self ..)
    obtain ⟨hr, hpos⟩ := position_of_mem_tour p.tree hmem
    rw [hsplit, quietAlong_append] at hquiet
    refine none_of_idle_inlining hrules hr hname ?_ hquiet.2.1
    rintro rfl
    rw [Trail.plug_nil, Trail.plug_nil] at hpos
    have hkind : p.tree.kind = .program := by
      rw [← hroot, Node.kind, Node.kind, hhead]
    rw [← hpos] at hkind
    cases hkind
  · intro hlate
    have hmatches : Matches ⟨rules, settings, mutated⟩ [] earlier p.facts := by
      refine ⟨?_, ?_⟩
      · rw [hlast.facts_eq]
        exact sameNames_foldl hlast.quiet
      · rintro name ⟨s, hs, -⟩
        cases hs
    exact quietAlong_again hstandard _ hasks hmatches hlast.quiet hlate

/-- `f(); function f() { return this; } function f() { if (true) return false; }` -/
def overwrittenFunction : Node :=
  (Node.program (.fresh none)
    [some (.expressionStatement (.fresh none)
      (.callExpression (.fresh none) (.identifier (.fresh none) "f") [])),
    some (.functionDeclaration (.fresh none) (some (.identifier (.fresh none) "f")) []
      (some (.blockStatement (.fresh none)
        [some (.returnStatement (.fresh none) (some (.mk (.fresh none) .thisExpression [])))]))),
    some (.functionDeclaration (.fresh none) (some (.identifier (.fresh none) "f")) []
      (some (.blockStatement (.fresh none)
        [some (.mk (.fresh none) .ifStatement
          [.one (some (.literal (.fresh none) (.bool true))),
          .one (some (.returnStatement (.fresh none) (some (.literal (.fresh none) (.bool false))))),
          .one none])])))]).number 0 |>.1

theorem overwrittenFunction_converges :
    (run 40 Rule.standard {} overwrittenFunction {} 16).2.toOption.map (·.status) =
      some .converged := by
  decide +kernel

theorem overwrittenFunction_settles_iff :
    ∃ p report mutated, run 40 Rule.standard {} overwrittenFunction {} 16 = (p, .ok report) ∧
      report.status = .converged ∧ written {} p.tree = .ok mutated ∧
      (Settles 40 Rule.standard {} p ↔ NoLateInlining ⟨Rule.standard, {}, mutated⟩ p.tree p.facts) := by
  obtain ⟨p, report, hrun, hstatus⟩ := exists_of_status overwrittenFunction_converges
  obtain ⟨mutated, hwritten, hiff⟩ := settles_iff_noLateInlining rfl rfl hrun hstatus
  exact ⟨p, report, mutated, hrun, hstatus, hwritten, hiff⟩

/-- The last pass knows the first `f` where it comes to the call, and a further run the second, whose
value it can put there. -/
theorem not_settles_overwrittenFunction :
    ∃ p report, run 40 Rule.standard {} overwrittenFunction {} 16 = (p, .ok report) ∧
      report.status = .converged ∧ ¬ Settles 40 Rule.standard {} p := by
  obtain ⟨p, report, hrun, hstatus⟩ := exists_of_status overwrittenFunction_converges
  refine ⟨p, report, hrun, hstatus, ?_⟩
  have hagain : (fun p : Progress =>
      (run 40 Rule.standard {} p.tree p.facts p.next).2.toOption.map (·.changesHistory))
      (run 40 Rule.standard {} overwrittenFunction {} 16).1 = some [1, 0] := by
    decide +kernel
  rw [hrun] at hagain
  rintro ⟨p', report', hrun', -, hone, -⟩
  dsimp only at hagain
  rw [hrun'] at hagain
  have hlen := congrArg List.length (Option.some.inj hagain)
  simp [Report.changesHistory, hone] at hlen

end Fixpoint
end Unravel
