import Mathlib.Algebra.GroupWithZero.Nat
import Mathlib.Data.List.Nodup
import Unravel.Fixpoint
import Unravel.Proofs.Pass.Run

/-! The counters of a report agree with what the passes did. Every event that counts names one of the
rules, the tables gain one name for each lesson and lose none, and the loop stops with the first pass
that neither changed nor learned anything, or with the limit. -/

namespace Unravel

namespace Table

variable {α : Type} {t t' t'' : Table α} {new new' : List String}

def names (t : Table α) : List String := t.map (·.1)

theorem mem_names {x : String} : x ∈ t.names ↔ t.has x = true := by
  simp [names, has]

theorem names_set {name : String} {a : α} :
    (t.set name a).names = if t.has name then t.names else t.names ++ [name] := by
  unfold set names
  split
  · rw [List.map_map]
    refine List.map_congr_left fun e _ => ?_
    by_cases he : e.1 = name <;> simp [he]
  · simp

structure Gains (t t' : Table α) (new : List String) : Prop where
  names_eq : t'.names = t.names ++ new
  nodup : new.Nodup
  fresh : ∀ x ∈ new, x ∉ t.names

theorem Gains.of_names_eq (h : t'.names = t.names) : t.Gains t' [] := by
  refine ⟨?_, List.nodup_nil, List.forall_mem_nil _⟩
  rw [h, List.append_nil]

theorem Gains.trans (h : t.Gains t' new) (h' : t'.Gains t'' new') : t.Gains t'' (new ++ new') := by
  have hlater : ∀ x ∈ new', x ∉ t.names ∧ x ∉ new := by
    intro x hx
    have hfresh := h'.fresh x hx
    rw [h.names_eq, List.mem_append, not_or] at hfresh
    exact hfresh
  refine ⟨?_, ?_, ?_⟩
  · rw [h'.names_eq, h.names_eq, List.append_assoc]
  · refine List.nodup_append'.mpr ⟨h.nodup, h'.nodup, ?_⟩
    intro x hx hx'
    exact (hlater x hx').2 hx
  · intro x hx
    rcases List.mem_append.mp hx with hx | hx
    · exact h.fresh x hx
    · exact (hlater x hx).1

theorem gains_set (t : Table α) (name : String) (a : α) :
    t.Gains (t.set name a) (if t.has name then [] else [name]) := by
  have hnames : (t.set name a).names = _ := names_set
  split at hnames
  · rename_i hknown
    rw [if_pos hknown]
    exact .of_names_eq hnames
  · rename_i hknown
    rw [if_neg hknown]
    refine ⟨hnames, List.nodup_singleton name, List.forall_mem_singleton.mpr ?_⟩
    rwa [mem_names]

end Table

namespace Facts

variable {a b c : Facts} {k l : Nat}

/-- No name is lost from the earlier facts to the later ones, and `k` names are new. -/
def Gains (a b : Facts) (k : Nat) : Prop :=
  ∃ constants arrays functions, a.constants.Gains b.constants constants ∧
    a.arrays.Gains b.arrays arrays ∧ a.functions.Gains b.functions functions ∧
    constants.length + arrays.length + functions.length = k

theorem Gains.refl (a : Facts) : a.Gains a 0 :=
  ⟨[], [], [], .of_names_eq rfl, .of_names_eq rfl, .of_names_eq rfl, rfl⟩

theorem Gains.trans (h : a.Gains b k) (h' : b.Gains c l) : a.Gains c (k + l) := by
  obtain ⟨cs, as, fs, hcs, has, hfs, rfl⟩ := h
  obtain ⟨cs', as', fs', hcs', has', hfs', rfl⟩ := h'
  refine ⟨cs ++ cs', as ++ as', fs ++ fs', hcs.trans hcs', has.trans has', hfs.trans hfs', ?_⟩
  simp only [List.length_append]
  omega

theorem gains_learn (facts : Facts) (fact : Fact) :
    facts.Gains (facts.learn fact).1 (if (facts.learn fact).2 then 1 else 0) := by
  have hcount (known : Bool) (name : String) :
      (if known then [] else [name]).length = if !known then 1 else 0 := by
    cases known <;> rfl
  cases fact with
  | constant name value =>
    refine ⟨_, [], [], Table.gains_set _ name value, .of_names_eq rfl, .of_names_eq rfl, ?_⟩
    exact hcount _ name
  | array name values =>
    refine ⟨[], _, [], .of_names_eq rfl, Table.gains_set _ name values, .of_names_eq rfl, ?_⟩
    rw [hcount, List.length_nil, Nat.zero_add]
    rfl
  | function name fn =>
    refine ⟨[], [], _, .of_names_eq rfl, .of_names_eq rfl, Table.gains_set _ name fn, ?_⟩
    rw [hcount, List.length_nil, Nat.zero_add]
    rfl

theorem gains_update (facts : Facts) (n : Node) : facts.Gains (facts.update n) 0 := by
  refine ⟨[], [], [], .of_names_eq rfl, .of_names_eq rfl, .of_names_eq ?_, rfl⟩
  rw [update, refresh, Table.names, Table.names, List.map_map]
  rfl

end Facts

namespace Event

def rule? : Event → Option Nat
  | .changed r | .learned r => some r
  | _ => none

theorem isSome_rule? (e : Event) : e.rule?.isSome = (e.isChange || e.isLesson) := by
  cases e <;> rfl

def Counted (count : Nat) (e : Event) : Prop := ∀ r, e.rule? = some r → r < count

theorem counted_of_idle {count : Nat} {e : Event} (hchange : e.isChange = false)
    (hlesson : e.isLesson = false) : e.Counted count := by
  intro r hr
  have hnone := e.isSome_rule?
  rw [hr, hchange, hlesson] at hnone
  cases hnone

theorem countP_isApplication {count : Nat} {e : Event} (h : e.Counted count) :
    (List.range count).countP (fun i => e.isApplication i) =
      (if e.isChange then 1 else 0) + if e.isLesson then 1 else 0 := by
  have hone {r : Nat} (hr : r < count) : (List.range count).countP (fun i => r == i) = 1 := by
    have hcount := List.count_eq_one_of_mem List.nodup_range (List.mem_range.mpr hr)
    rw [← hcount, List.count]
    refine List.countP_congr fun i _ => ?_
    rw [beq_iff_eq, beq_iff_eq, eq_comm]
  have hnone : (List.range count).countP (fun _ => false) = 0 := by simp
  cases e with
  | changed r => exact hone (h r rfl)
  | learned r => exact hone (h r rfl)
  | entered | descended | skipped => exact hnone

end Event

namespace Fixpoint

theorem sum_applications_cons (count : Nat) (e : Event) (log : List Event) :
    (applications count (e :: log)).sum =
      (applications count log).sum + (List.range count).countP (fun i => e.isApplication i) := by
  unfold applications
  induction List.range count with
  | nil => rfl
  | cons i is ih =>
    simp only [List.map_cons, List.sum_cons, List.countP_cons] at ih ⊢
    omega

theorem sum_applications {count : Nat} {log : List Event} (h : ∀ e ∈ log, e.Counted count) :
    (applications count log).sum = log.countP Event.isChange + log.countP Event.isLesson := by
  induction log with
  | nil => simp [applications, List.map_const']
  | cons e log ih =>
    obtain ⟨he, hlog⟩ := List.forall_mem_cons.mp h
    have hself := Event.countP_isApplication he
    have hrest := ih hlog
    rw [sum_applications_cons, List.countP_cons, List.countP_cons]
    omega

end Fixpoint

namespace Pass

variable {env : Env} {a b : Node × State}

structure Tallies (env : Env) (st st' : State) : Prop where
  counted : (∀ e ∈ st.log, e.Counted env.rules.length) → ∀ e ∈ st'.log, e.Counted env.rules.length
  gains : ∃ k, st'.lessons = st.lessons + k ∧ st.facts.Gains st'.facts k

theorem lt_of_answers {i : Nat} {trail : Trail} {facts : Facts} {n : Node} {o : Outcome}
    (h : Answers env i trail facts n o) : i < env.rules.length := by
  obtain ⟨r, hr, -⟩ := h
  exact (List.getElem?_eq_some_iff.mp hr).1

theorem Step.tallies (h : Step env a b) : Tallies env a.2 b.2 := by
  cases h with
  | @note tree st e hchange hlesson =>
    refine ⟨fun hlog => List.forall_mem_cons.mpr ⟨Event.counted_of_idle hchange hlesson, hlog⟩, 0, ?_,
      .refl _⟩
    simp [State.lessons_note, hlesson]
  | fail => exact ⟨id, 0, rfl, .refl _⟩
  | @learn trail n st i fact hanswers =>
    refine ⟨fun hlog => ?_, _, st.lessons_learn i fact, ?_⟩
    · have hrule : (Event.learned i).Counted env.rules.length := by
        rintro _ ⟨⟩
        exact lt_of_answers hanswers
      rw [State.learn_eq]
      dsimp only
      split
      · exact List.forall_mem_cons.mpr ⟨hrule, hlog⟩
      · exact hlog
    · rw [State.facts_learn]
      exact st.facts.gains_learn fact
  | @edit trail n st i o l hanswers =>
    refine ⟨fun hlog => ?_, 0, ?_, ?_⟩
    · have hrule : (Event.changed i).Counted env.rules.length := by
        rintro _ ⟨⟩
        exact lt_of_answers hanswers
      rw [State.install_snd]
      exact List.forall_mem_cons.mpr ⟨hrule, hlog⟩
    · rw [State.lessons_install, State.lessons_note]
      rfl
    · rw [State.facts_install, State.facts_note]
      exact .refl _
  | @leave trail n st =>
    rw [State.leave_eq]
    refine ⟨id, 0, rfl, ?_⟩
    dsimp only
    split
    · exact st.facts.gains_update n
    · exact .refl _

theorem Steps.tallies (h : Steps env a b) : Tallies env a.2 b.2 := by
  induction h with
  | refl => exact ⟨id, 0, rfl, .refl _⟩
  | tail _ hstep ih =>
    have hlast := hstep.tallies
    obtain ⟨k, hk, hgains⟩ := ih.gains
    obtain ⟨l, hl, hgains'⟩ := hlast.gains
    refine ⟨fun hlog => hlast.counted (ih.counted hlog), k + l, ?_, hgains.trans hgains'⟩
    omega

theorem run_tallies {fuel next : Nat} {rules : List Rule} {settings : Settings} {tree tree' : Node}
    {facts : Facts} {st : State} (h : run fuel rules settings tree facts next = (tree', st)) :
    (∀ e ∈ st.log, e.Counted rules.length) ∧ facts.Gains st.facts (stats st.log).facts := by
  rcases run_cases h with ⟨f, -, -, rfl⟩ | ⟨mutated, -, hvisit⟩
  · exact ⟨List.forall_mem_nil _, .refl _⟩
  · have htallies := (visit_steps fuel hvisit).1.tallies
    obtain ⟨k, hk, hgains⟩ := htallies.gains
    have hlessons : (stats st.log).facts = k := hk.trans (Nat.zero_add k)
    refine ⟨htallies.counted (List.forall_mem_nil _), ?_⟩
    rw [hlessons]
    exact hgains

def Stats.Idle (s : Stats) : Prop := s.changes = 0 ∧ s.facts = 0

end Pass

namespace Fixpoint

open Pass

variable {fuel : Nat} {rules : List Rule} {settings : Settings}

/-- How the passes of a loop end: every pass before the last one did something, and the loop converged
with an idle pass or ran all passes that it was allowed. -/
structure Stops (limit : Nat) (status : Status) (passes : List Stats) : Prop where
  busy : ∀ s ∈ passes.dropLast, ¬s.Idle
  converged_iff : status = .converged ↔ ∃ s, passes.getLast? = some s ∧ s.Idle
  exhausted : status ≠ .converged → passes.length = limit

theorem stops_idle {s : Stats} (hs : s.Idle) (limit : Nat) : Stops limit .converged [s] :=
  ⟨List.forall_mem_nil _, ⟨fun _ => ⟨s, rfl, hs⟩, fun _ => rfl⟩, fun h => absurd rfl h⟩

theorem Stops.cons {limit : Nat} {status : Status} {s : Stats} {passes : List Stats} (hs : ¬s.Idle)
    (h : Stops limit status passes) : Stops (limit + 1) status (s :: passes) := by
  have hlength (hstatus : status ≠ .converged) : (s :: passes).length = limit + 1 := by
    rw [List.length_cons, h.exhausted hstatus]
  cases passes with
  | nil =>
    refine ⟨List.forall_mem_nil _, ⟨fun hstatus => ?_, ?_⟩, hlength⟩
    · obtain ⟨_, hlast, -⟩ := h.converged_iff.mp hstatus
      cases hlast
    · rintro ⟨_, ⟨⟩, hidle⟩
      exact absurd hidle hs
  | cons p ps =>
    refine ⟨List.forall_mem_cons.mpr ⟨hs, h.busy⟩, ?_, hlength⟩
    rw [List.getLast?_cons_cons]
    exact h.converged_iff

structure Ledger (count : Nat) (p p' : Progress) (passes : List Stats) : Prop where
  log : ∃ log, p'.log = log ++ p.log ∧ (∀ e ∈ log, e.Counted count) ∧
    log.countP Event.isChange = (passes.map (·.changes)).sum ∧
    log.countP Event.isLesson = (passes.map (·.facts)).sum
  gains : p.facts.Gains p'.facts (passes.map (·.facts)).sum

theorem Ledger.nil (count : Nat) (p : Progress) : Ledger count p p [] :=
  ⟨⟨[], rfl, List.forall_mem_nil _, rfl, rfl⟩, .refl _⟩

theorem Ledger.cons {p p' : Progress} {tree : Node} {st : State} {passes : List Stats}
    (hrun : Pass.run fuel rules settings p.tree p.facts p.next = (tree, st))
    (h : Ledger rules.length ⟨tree, st.facts, st.next, st.log ++ p.log⟩ p' passes) :
    Ledger rules.length p p' (stats st.log :: passes) := by
  obtain ⟨hcounted, hgains⟩ := run_tallies hrun
  obtain ⟨log, hlog, hlater, hchanges, hlessons⟩ := h.log
  refine ⟨⟨log ++ st.log, ?_, ?_, ?_, ?_⟩, ?_⟩
  · rw [hlog, List.append_assoc]
  · exact List.forall_mem_append.mpr ⟨hlater, hcounted⟩
  · rw [List.countP_append, hchanges, List.map_cons, List.sum_cons, Nat.add_comm]
    rfl
  · rw [List.countP_append, hlessons, List.map_cons, List.sum_cons, Nat.add_comm]
    rfl
  · rw [List.map_cons, List.sum_cons]
    exact hgains.trans h.gains

theorem loop_ledger (limit : Nat) : ∀ (done : List Stats) (p p' : Progress) (status : Status)
    (passes : List Stats), loop fuel rules settings limit done p = (p', .ok (status, passes)) →
    ∃ new, passes = done.reverse ++ new ∧ Stops limit status new ∧
      Ledger rules.length p p' new := by
  induction limit with
  | zero =>
    intro done p p' status passes h
    cases h
    refine ⟨[], (List.append_nil _).symm, ⟨List.forall_mem_nil _, ?_, fun _ => rfl⟩, .nil _ _⟩
    exact ⟨nofun, fun ⟨_, hlast, _⟩ => nomatch hlast⟩
  | succ limit ih =>
    intro done p p' status passes h
    rw [loop] at h
    generalize hrun : Pass.run fuel rules settings p.tree p.facts p.next = r at h
    obtain ⟨tree, st⟩ := r
    dsimp only at h
    cases hfault : st.fault with
    | some f =>
      rw [hfault] at h
      cases h
    | none =>
      rw [hfault] at h
      dsimp only at h
      split at h
      · rename_i hidle
        cases h
        rw [Bool.and_eq_true, decide_eq_true_eq, decide_eq_true_eq] at hidle
        exact ⟨[stats st.log], List.reverse_cons, stops_idle hidle _, .cons hrun (.nil _ _)⟩
      · rename_i hbusy
        rw [Bool.and_eq_true, decide_eq_true_eq, decide_eq_true_eq] at hbusy
        obtain ⟨new, hpasses, hstops, hledger⟩ := ih _ _ _ _ _ h
        refine ⟨stats st.log :: new, ?_, hstops.cons hbusy, hledger.cons hrun⟩
        rw [hpasses, List.reverse_cons, List.append_assoc]
        rfl

theorem Report.total_eq_sum (r : Report) (count : Stats → Nat) :
    r.total count = (r.passes.map count).sum := by
  rw [Report.total, List.sum_eq_foldl, List.foldl_map]

/-- When a run ends with a report, the applications of the rules sum up to its changes and lessons, the
tables have gained one name for each lesson and lost none, every pass but the last did something, and
the run converged exactly when the last pass did nothing, or else used all its passes. -/
theorem report_agrees {tree : Node} {facts : Facts} {next : Nat} {p : Progress} {report : Report}
    (h : run fuel rules settings tree facts next = (p, .ok report)) :
    report.applications.sum = report.totalChanges + report.factsLearned ∧
    facts.Gains p.facts report.factsLearned ∧
    (∀ s ∈ report.passes.dropLast, 0 < s.changes ∨ 0 < s.facts) ∧
    (report.status = .converged ↔
      ∃ s, report.passes.getLast? = some s ∧ s.changes = 0 ∧ s.facts = 0) ∧
    (report.status ≠ .converged → report.passes.length = settings.passLimit) := by
  have hloop : loop fuel rules settings settings.passLimit [] { tree, facts, next } =
        (p, .ok (report.status, report.passes)) ∧
      report.applications = applications rules.length p.log := by
    unfold run at h
    dsimp only at h
    split at h
    · cases h
    · split at h
      · cases h
      · rename_i hloop
        split at h
        · cases h
        · cases h
          exact ⟨hloop, rfl⟩
  obtain ⟨hloop, happlications⟩ := hloop
  obtain ⟨new, hnew, hstops, hledger⟩ := loop_ledger _ _ _ _ _ _ hloop
  rw [List.reverse_nil, List.nil_append] at hnew
  subst hnew
  obtain ⟨log, hlog, hcounted, hchanges, hlessons⟩ := hledger.log
  rw [List.append_nil] at hlog
  refine ⟨?_, ?_, fun s hs => ?_, hstops.converged_iff, hstops.exhausted⟩
  · rw [happlications, hlog, sum_applications hcounted, hchanges, hlessons, Report.totalChanges,
      Report.factsLearned, Report.total_eq_sum, Report.total_eq_sum]
  · rw [Report.factsLearned, Report.total_eq_sum]
    exact hledger.gains
  · have hbusy := hstops.busy s hs
    unfold Stats.Idle at hbusy
    omega

/-- `var a = [1]; function f(x) { return x; } f(a[0]);` -/
def readThroughCall : Node :=
  let name (x : String) : Node := .identifier (.fresh none) x
  (Node.program (.fresh none)
    [some (.variableDeclaration (.fresh none) "var"
      [some (.variableDeclarator (.fresh none) (some (name "a"))
        (some (.arrayExpression (.fresh none) [some (.literal (.fresh none) (.int 1))])))]),
    some (.functionDeclaration (.fresh none) (some (name "f")) [some (name "x")]
      (some (.blockStatement (.fresh none) [some (.returnStatement (.fresh none) (some (name "x")))]))),
    some (.expressionStatement (.fresh none)
      (.callExpression (.fresh none) (name "f")
        [some (.memberExpression (.fresh none) true (name "a")
          (.literal (.fresh none) (.int 0)))]))]).number 0 |>.1

theorem readThroughCall_report_agrees :
    ∃ p report, run 40 Rule.standard {} readThroughCall {} 18 = (p, .ok report) ∧
      report.totalChanges = 2 ∧ report.factsLearned = 2 ∧
      report.applications.sum = report.totalChanges + report.factsLearned ∧
      Facts.Gains {} p.facts report.factsLearned ∧
      (∀ s ∈ report.passes.dropLast, 0 < s.changes ∨ 0 < s.facts) ∧
      (report.status = .converged ↔
        ∃ s, report.passes.getLast? = some s ∧ s.changes = 0 ∧ s.facts = 0) ∧
      (report.status ≠ .converged → report.passes.length = Settings.passLimit {}) := by
  have hcounts : ((run 40 Rule.standard {} readThroughCall {} 18).2.toOption.map
      fun r => (r.totalChanges, r.factsLearned)) = some (2, 2) := by decide +kernel
  generalize hrun : run 40 Rule.standard {} readThroughCall {} 18 = r at hcounts
  obtain ⟨p, result⟩ := r
  cases result with
  | error f => cases hcounts
  | ok report =>
    obtain ⟨hchanges, hfacts⟩ := Prod.mk.inj (Option.some.inj hcounts)
    exact ⟨p, report, rfl, hchanges, hfacts, report_agrees hrun⟩

end Fixpoint
end Unravel
