import Unravel.Proofs.Pass.Ends
import Unravel.Proofs.Pass.Tour

/-! A pass with inlining on need not end. `w` stands for `function (x) { return [x(x)]; }`, so `w(w)`
becomes `[w(w)]`, in which the walk comes to `w(w)` again, one level deeper. The function does not
mention its own name, which is all that inlining looks out for. -/

namespace Unravel.Pass

open Node

variable {env : Env} {fuel : Nat} {trail : Trail} {t : Tag} {hd : Head}
  {before after ss : List (Slot Node)} {left items : List (Option Node)} {n c : Node} {st st' : State}

/-! A visit runs out of fuel when one below it does. -/

theorem visitItems_succ_outOfFuel {k : Nat}
    (h : (visit env k (⟨t, hd, before, .item left items, after⟩ :: trail) c st).2.fault =
      some .outOfFuel) :
    (visitItems env (k + 1) trail t hd before after left (some c :: items) st).2.fault =
      some .outOfFuel := by
  rw [visitItems_succ_iff.mpr (.failed rfl (by simp [h]))]
  exact h

theorem visitItems_outOfFuel
    (h : ∀ k < fuel,
      (visit env k (⟨t, hd, before, .item left items, after⟩ :: trail) c st).2.fault =
        some .outOfFuel) :
    (visitItems env fuel trail t hd before after left (some c :: items) st).2.fault =
      some .outOfFuel := by
  cases fuel with
  | zero => rfl
  | succ k => exact visitItems_succ_outOfFuel (h k (Nat.lt_succ_self k))

theorem visitItems_outOfFuel_later
    (h : ∀ k < fuel,
      (visit env k (⟨t, hd, before, .item left items, after⟩ :: trail) c st).2.fault =
        some .outOfFuel ∨
      visit env k (⟨t, hd, before, .item left items, after⟩ :: trail) c st = (.kept c, st'))
    (hsound : st'.fault = none)
    (hlater : ∀ k < fuel,
      (visitItems env k trail t hd before after (some c :: left) items st').2.fault =
        some .outOfFuel) :
    (visitItems env fuel trail t hd before after left (some c :: items) st).2.fault =
      some .outOfFuel := by
  cases fuel with
  | zero => rfl
  | succ k =>
    rcases h k (Nat.lt_succ_self k) with hout | hend
    · exact visitItems_succ_outOfFuel hout
    · rw [visitItems_succ_iff.mpr (.kept hend hsound rfl)]
      exact hlater k (Nat.lt_succ_self k)

theorem visitSlots_outOfFuel_many
    (h : ∀ k < fuel, (visitItems env k trail t hd before ss [] items st).2.fault =
      some .outOfFuel) :
    (visitSlots env fuel trail t hd before (.many items :: ss) st).2.fault = some .outOfFuel := by
  cases fuel with
  | zero => rfl
  | succ k =>
    have hitems := h k (Nat.lt_succ_self k)
    rw [visitSlots_succ_iff.mpr (.failed (visitSlot_iff.mpr (.items rfl)) (by simp [hitems]))]
    exact hitems

theorem visitSlots_outOfFuel_one
    (h : ∀ k < fuel,
      (visit env k (⟨t, hd, before, .single, ss⟩ :: trail) c st).2.fault = some .outOfFuel) :
    (visitSlots env fuel trail t hd before (.one (some c) :: ss) st).2.fault =
      some .outOfFuel := by
  cases fuel with
  | zero => rfl
  | succ k =>
    obtain ⟨s', st₁, hs⟩ : ∃ s' st₁,
        visitSlot env k trail t hd before ss (.one (some c)) st = (s', st₁) := ⟨_, _, rfl⟩
    cases visitSlot_iff.mp hs with
    | node hvisit =>
      have hfault : st₁.fault = some .outOfFuel := by simpa only [hvisit] using h k (Nat.lt_succ_self k)
      rw [visitSlots_succ_iff.mpr (.failed hs (by simp [hfault]))]
      exact hfault

theorem visit_outOfFuel (hsupported : n.supported = .ok ())
    (hsettle : settle env trail env.rules 0 n (st.note .entered) = (.kept (.mk t hd ss), st'))
    (hsound : st'.fault = none)
    (h : ∀ k < fuel, (visitSlots env k trail t hd [] ss (st'.note (.descended t.mark))).2.fault =
      some .outOfFuel) :
    (visit env fuel trail n st).2.fault = some .outOfFuel := by
  cases fuel with
  | zero => rfl
  | succ k =>
    rw [visit_succ_iff.mpr (.kept hsupported hsettle hsound rfl), State.fault_leave]
    exact h k (Nat.lt_succ_self k)

/-! The function and its calls. -/

/-- `function (x) { return [x(x)]; }` -/
def feeder (tag : Nat → Tag) : Node :=
  .functionExpression (tag 0) none [some (.identifier (tag 1) "x")]
    (some (.blockStatement (tag 2) [some (.returnStatement (tag 3) (some
      (.arrayExpression (tag 4) [some (.callExpression (tag 5) (.identifier (tag 6) "x")
        [some (.identifier (tag 7) "x")])])))]))

abbrev feed (t u v : Tag) : Node :=
  .callExpression t (.identifier u "w") [some (.identifier v "w")]

theorem expand_feeder (tag : Nat → Tag) (v : Tag) :
    Rule.expand (feeder tag) [some (.identifier v "w")] =
      .ok (some (.arrayExpression (.fresh (tag 4).loc)
        [some (feed (.fresh (tag 5).loc) (.fresh v.loc) (.fresh v.loc))])) := rfl

theorem inlineReturn_feed {facts : Facts} {settings : Settings} {mutated : List String}
    {tag : Nat → Tag} {u v : Tag} (hw : "w" ∉ mutated)
    (hfn : facts.functions.get? "w" = some (feeder tag))
    (hout : ∀ mark, (tag 0).mark = some mark → trail.passes mark = false) :
    Rule.inlineReturn ⟨trail, facts, settings, mutated⟩ (feed t u v) =
      .ok (some (.replace (.arrayExpression (.fresh (tag 4).loc)
        [some (feed (.fresh (tag 5).loc) (.fresh v.loc) (.fresh v.loc))]))) := by
  have hfunction : Site.function? ⟨trail, facts, settings, mutated⟩ (feed t u v) "w" =
      some (feeder tag) := by
    unfold Site.function?
    rw [hfn, Option.map_some]
    cases hmark : (tag 0).mark with
    | none => simp [feeder, Node.mark, Node.tag, hmark]
    | some mark => simp [feeder, Node.mark, Node.tag, hmark, hout mark hmark]
  have hcalled : Rule.called? ⟨trail, facts, settings, mutated⟩ (feed t u v) (.identifier u "w") =
      some (feeder tag) := by
    simp [Rule.called?, Node.head, Site.isConstantName, hw, hfunction]
  simp only [Rule.inlineReturn, hcalled, expand_feeder]
  rfl

theorem rules_eq (hrules : Rule.catalog env.settings = .ok env.rules) :
    env.rules = (Rule.standard.take 8).map (switched env) ++
      switched env ⟨Rule.inlining, [.callExpression], Rule.inlineReturn, true⟩ ::
        (Rule.standard.drop 9).map (switched env) :=
  Rule.catalog_eq hrules

section
variable (tag : Nat → Tag) (hrules : Rule.catalog env.settings = .ok env.rules)
  (hon : Rule.inlining ∉ env.settings.disabledRules) (hw : "w" ∉ env.mutated)
include hrules hon hw

theorem settle_feed {f : Frame} {fs : Trail} (u v : Tag)
    (hfn : st.facts.functions.get? "w" = some (feeder tag))
    (hout : ∀ mark, (tag 0).mark = some mark → Trail.passes (f :: fs) mark = false) :
    ∃ a b c d st', settle env (f :: fs) env.rules 0 (feed t u v) st =
        (.kept (.arrayExpression a [some (feed b c d)]), st') ∧
      st'.facts = st.facts ∧ st'.fault = st.fault ∧ st'.next = st.next + 4 ∧
      a.mark = some st.next := by
  rw [rules_eq hrules, settle_append]
  · refine ⟨⟨some st.next, (tag 4).loc⟩, ⟨some (st.next + 1), (tag 5).loc⟩,
      ⟨some (st.next + 2), v.loc⟩, ⟨some (st.next + 3), v.loc⟩,
      { st.note (.changed 8) with next := st.next + 4 }, ?_, rfl, rfl, rfl, rfl⟩
    have happlies : (switched env ⟨Rule.inlining, [.callExpression], Rule.inlineReturn,
        true⟩).applies (feed t u v) = true := by
      simp [Rule.applies, hon, Node.kind, Node.head, Head.kind]
    rw [settle]
    simp only [happlies, inlineReturn_feed hw hfn hout, Bool.not_true, Bool.false_eq_true, if_false]
    exact settle_none (answer_of_kind (k := .arrayExpression) rfl rfl)
  · exact answer_of_kind (k := .callExpression) rfl rfl

/-- Wherever the walk comes to `w(w)`, it does not come back. -/
theorem visit_feed_outOfFuel (fuel : Nat) : ∀ {f : Frame} {fs : Trail} {t u v : Tag} {st : State},
    st.fault = none → st.facts.functions.get? "w" = some (feeder tag) →
    (∀ mark, (tag 0).mark = some mark → Trail.passes (f :: fs) mark = false ∧ mark < st.next) →
    (visit env fuel (f :: fs) (feed t u v) st).2.fault = some .outOfFuel := by
  induction fuel using Nat.strongRecOn with
  | _ fuel ih =>
    intro f fs t u v st hst hfn hout
    have hfn' : (st.note .entered).facts.functions.get? "w" = some (feeder tag) := hfn
    obtain ⟨a, b, c, d, st₁, hsettle, hfacts, hfault, hnext, hmark⟩ :=
      settle_feed tag hrules hon hw u v hfn' fun mark hm => (hout mark hm).1
    refine visit_outOfFuel rfl hsettle (hfault.trans hst) fun i hi => ?_
    refine visitSlots_outOfFuel_many fun j hj => ?_
    refine visitItems_outOfFuel fun k hk => ?_
    refine ih k (by omega) (hfault.trans hst) (hfacts ▸ hfn) fun mark hm => ?_
    -- the new level has a mark that was free
    obtain ⟨hpass, hless⟩ := hout mark hm
    simp only [State.next_note] at hnext hmark ⊢
    refine ⟨?_, by omega⟩
    simp only [Trail.passes, List.any_cons, hmark] at hpass ⊢
    simp only [hpass, Bool.or_false, beq_eq_false_iff_ne, ne_eq, Option.some.injEq]
    omega

end

theorem fault_run {rules : List Rule} {settings : Settings} {tree : Node} {facts : Facts}
    {next : Nat} {mutated : List String} (h : written settings tree = .ok mutated) :
    (run fuel rules settings tree facts next).2.fault =
      (visit ⟨rules, settings, mutated⟩ fuel [] tree { facts, next }).2.fault := by
  unfold written at h
  simp only [run, h]
  generalize visit ⟨rules, settings, mutated⟩ fuel [] tree { facts, next } = r
  obtain ⟨l, st⟩ := r
  cases l <;> rfl

/-- `throw w(w);` -/
def throwFeed : Node :=
  .program (.fresh none)
    [some (.mk (.fresh none) .throwStatement
      [.one (some (feed (.fresh none) (.fresh none) (.fresh none)))])]

def feederKnown : Facts := { functions := [("w", feeder fun _ => .fresh none)] }

/-- With inlining on, a pass over `throw w(w);` runs out of any fuel. -/
theorem run_throwFeed_outOfFuel {settings : Settings} {rules : List Rule}
    (hrules : Rule.catalog settings = .ok rules) (hon : Rule.inlining ∉ settings.disabledRules)
    (fuel next : Nat) :
    (run fuel rules settings throwFeed feederKnown next).2.fault = some .outOfFuel := by
  have hwritten : written settings throwFeed = .ok [] := by
    unfold written
    split <;> rfl
  have hnone {k : Kind} {trail : Trail} {n : Node} {st : State} (hk : n.kind = k)
      (hall : Rule.standard.all (fun r => !r.kinds.contains k) = true) :
      settle ⟨rules, settings, []⟩ trail rules 0 n st = (.kept n, st) := by
    have hanswer : ∀ r ∈ Rule.standard.map (switched ⟨rules, settings, []⟩),
        answer ⟨rules, settings, []⟩ st.facts r trail n = .ok none := answer_of_kind hk hall
    rw [Rule.catalog_eq hrules]
    exact settle_none hanswer
  rw [fault_run hwritten]
  refine visit_outOfFuel rfl (hnone (k := .program) rfl rfl) rfl fun i _ => ?_
  refine visitSlots_outOfFuel_many fun j _ => visitItems_outOfFuel fun k _ => ?_
  refine visit_outOfFuel rfl (hnone (k := .throwStatement) rfl rfl) rfl fun l _ => ?_
  refine visitSlots_outOfFuel_one fun m _ => ?_
  exact visit_feed_outOfFuel (fun _ => .fresh none) hrules hon List.not_mem_nil m rfl rfl
    fun mark hm => by cases hm

end Unravel.Pass
