import Unravel.Proofs.Pass.Keeps

/-! How a pass ends on a given tree, whatever the session is set to. A visit ends with a property when
it gives such a result without a fault as soon as there is fuel enough; there is one rule for each
thing that the walk may do next. -/

namespace Unravel.Pass

open Node

variable {env : Env} {trail : Trail} {n m : Node} {st : State} {facts : Facts} {t : Tag} {h : Head}
  {before after ss : List (Slot Node)} {left items : List (Option Node)}

/-! Rules that answer nothing are passed over. -/

theorem settle_append {rs rs' : List Rule} {i : Nat}
    (h : ∀ r ∈ rs, answer env st.facts r trail n = .ok none) :
    settle env trail (rs ++ rs') i n st = settle env trail rs' (i + rs.length) n st := by
  induction rs generalizing i with
  | nil => rfl
  | cons r rs ih =>
    have hr := h r (List.mem_cons_self ..)
    have hrest := ih (i := i + 1) fun r hr => h r (List.mem_cons_of_mem _ hr)
    rw [List.cons_append, settle_cons, hr, List.length_cons, ← Nat.add_assoc, Nat.add_right_comm]
    exact hrest

theorem settle_none {rs : List Rule} {i : Nat}
    (h : ∀ r ∈ rs, answer env st.facts r trail n = .ok none) :
    settle env trail rs i n st = (.kept n, st) := by
  have happend : settle env trail (rs ++ []) i n st = settle env trail [] (i + rs.length) n st :=
    settle_append h
  rwa [List.append_nil] at happend

abbrev switched (env : Env) (r : Rule) : Rule :=
  { r with enabled := !env.settings.disabledRules.contains r.name }

theorem answer_of_kind {facts : Facts} {rs : List Rule} {k : Kind} (hk : n.kind = k)
    (hrs : rs.all (fun r => !r.kinds.contains k) = true) :
    ∀ r ∈ rs.map (switched env), answer env facts r trail n = .ok none := by
  intro r hr
  obtain ⟨s, hs, rfl⟩ := List.mem_map.mp hr
  have hkind : s.kinds.contains n.kind = false := by simpa [hk] using List.all_eq_true.mp hrs s hs
  simp only [answer, Rule.applies, hkind, Bool.and_false, Bool.false_eq_true, if_false]

theorem supported_of_kind (hknown : n.kind.isForeign = false) : n.supported = .ok () := by
  obtain ⟨t, h, ss⟩ := n
  cases h <;> first | rfl | cases hknown

theorem answer_of_transform {r : Rule}
    (hanswer : r.kinds.contains n.kind = true →
      r.transform ⟨trail, facts, env.settings, env.mutated⟩ n = .ok none) :
    answer env facts (switched env r) trail n = .ok none := by
  unfold answer
  split
  · rename_i happlies
    simp only [Rule.applies, Bool.and_eq_true] at happlies
    exact hanswer happlies.2
  · rfl

theorem answer_of_on {r : Rule} (hon : r.name ∉ env.settings.disabledRules)
    (hkind : r.kinds.contains n.kind = true) : answer env facts (switched env r) trail n =
      r.transform ⟨trail, facts, env.settings, env.mutated⟩ n := by
  refine if_pos ?_
  simp only [Rule.applies, hkind, Bool.and_true, Bool.not_eq_true', List.contains_eq_mem,
    decide_eq_false_iff_not]
  exact hon

/-! Rules at one node. -/

def Settles (env : Env) (trail : Trail) (rs : List Rule) (n : Node) (facts : Facts)
    (Q : Landing → Facts → Prop) : Prop :=
  ∀ (i : Nat) (st : State), st.facts = facts → st.fault = none →
    ∃ l st', settle env trail rs i n st = (l, st') ∧ st'.fault = none ∧ Q l st'.facts

namespace Settles

variable {Q : Landing → Facts → Prop} {r : Rule} {rs rs' : List Rule} {o : Outcome}

theorem pass (hidle : ∀ r ∈ rs, answer env facts r trail n = .ok none)
    (hrest : Settles env trail rs' n facts Q) : Settles env trail (rs ++ rs') n facts Q := by
  rintro i st rfl hsound
  rw [settle_append hidle]
  exact hrest _ st rfl hsound

theorem idle (hidle : ∀ r ∈ rs, answer env facts r trail n = .ok none) (h : Q (.kept n) facts) :
    Settles env trail rs n facts Q := by
  rintro i st rfl hsound
  exact ⟨.kept n, st, settle_none hidle, hsound, h⟩

theorem learn {fact : Fact} (hanswer : answer env facts r trail n = .ok (some (.learn fact)))
    (hrest : Settles env trail rs n (facts.learn fact).1 Q) :
    Settles env trail (r :: rs) n facts Q := by
  rintro i st rfl hsound
  obtain ⟨happlies, htransform⟩ := applies_of_answer hanswer
  simp only [settle, happlies, htransform, Bool.not_true, Bool.false_eq_true, if_false]
  exact hrest (i + 1) (st.learn i fact) (State.facts_learn ..) (by simpa using hsound)

theorem skip (hanswer : answer env facts r trail n = .ok (some o)) (hedit : ∀ fact, o ≠ .learn fact)
    (hland : land trail o = none) (hrest : Settles env trail rs n facts Q) :
    Settles env trail (r :: rs) n facts Q := by
  rintro i st rfl hsound
  obtain ⟨happlies, htransform⟩ := applies_of_answer hanswer
  have hstep : settle env trail (r :: rs) i n st =
      settle env trail rs (i + 1) n (st.note (.skipped i)) := by
    cases o with
    | learn fact => exact absurd rfl (hedit fact)
    | _ => simp only [settle, happlies, htransform, hland, Bool.not_true, Bool.false_eq_true, if_false]
  rw [hstep]
  exact hrest (i + 1) (st.note (.skipped i)) rfl hsound

theorem splice (ns : List Node)
    (hanswer : answer env facts r trail n = .ok (some (.splice ns)))
    (hland : land trail (.splice ns) = some (.left ns))
    (h : ∀ st : State, Q (.left (st.placeAll ns).1) facts) :
    Settles env trail (r :: rs) n facts Q := by
  rintro i st rfl hsound
  obtain ⟨happlies, htransform⟩ := applies_of_answer hanswer
  simp only [settle, happlies, htransform, hland, Bool.not_true, Bool.false_eq_true, if_false]
  have hfacts : ((st.note (.changed i)).placeAll ns).2.facts = st.facts :=
    State.facts_install _ (.left ns)
  have hfault : ((st.note (.changed i)).placeAll ns).2.fault = st.fault :=
    State.fault_install _ (.left ns)
  refine ⟨_, _, rfl, hfault.trans hsound, ?_⟩
  rw [hfacts]
  exact h _

theorem replace (hanswer : answer env facts r trail n = .ok (some (.replace m)))
    (hland : land trail (.replace m) = some (.kept m)) (hknown : m.kind.isForeign = false)
    (hrest : ∀ next, Settles env trail rs (m.number next).1 facts Q) :
    Settles env trail (r :: rs) n facts Q := by
  rintro i st rfl hsound
  obtain ⟨happlies, htransform⟩ := applies_of_answer hanswer
  have hnumbered : (m.number st.next).1.supported = .ok () := by
    refine supported_of_kind ?_
    rwa [kind, head_number]
  simp only [settle, happlies, htransform, hland, Bool.not_true, Bool.false_eq_true, if_false,
    State.place, State.next_note, hnumbered]
  exact hrest st.next (i + 1) _ rfl hsound

end Settles

/-! Visits. -/

def Ends (env : Env) (trail : Trail) (n : Node) (facts : Facts) (Q : Landing → Facts → Prop) :
    Prop :=
  ∀ st : State, st.facts = facts → st.fault = none →
    ∃ bound l st', st'.fault = none ∧ Q l st'.facts ∧
      ∀ fuel, bound ≤ fuel → visit env fuel trail n st = (l, st')

def EndsSlots (env : Env) (trail : Trail) (t : Tag) (h : Head) (before ss : List (Slot Node))
    (facts : Facts) (Q : List (Slot Node) → Facts → Prop) : Prop :=
  ∀ st : State, st.facts = facts → st.fault = none →
    ∃ bound ss' st', st'.fault = none ∧ Q ss' st'.facts ∧
      ∀ fuel, bound ≤ fuel → visitSlots env fuel trail t h before ss st = (ss', st')

def EndsItems (env : Env) (trail : Trail) (t : Tag) (h : Head) (before after : List (Slot Node))
    (left items : List (Option Node)) (facts : Facts) (Q : List (Option Node) → Facts → Prop) :
    Prop :=
  ∀ st : State, st.facts = facts → st.fault = none →
    ∃ bound items' st', st'.fault = none ∧ Q items' st'.facts ∧
      ∀ fuel, bound ≤ fuel →
        visitItems env fuel trail t h before after left items st = (items', st')

theorem Ends.mono {Q Q' : Landing → Facts → Prop} (h : Ends env trail n facts Q)
    (hQ : ∀ l facts, Q l facts → Q' l facts) : Ends env trail n facts Q' := by
  intro st hfacts hsound
  obtain ⟨bound, l, st', hsound', hl, hrun⟩ := h st hfacts hsound
  exact ⟨bound, l, st', hsound', hQ l st'.facts hl, hrun⟩

/-- The children of what the rules leave are visited, unless statements took the place. -/
theorem Ends.of_settles {Q : Landing → Facts → Prop} (hknown : n.kind.isForeign = false)
    (hsettles : Settles env trail env.rules n facts fun l facts => match l with
      | .left ns => Q (.left ns) facts
      | .kept (.mk t h ss) => h.kind.isFunction = false ∧
        EndsSlots env trail t h [] ss facts fun ss facts => Q (.kept (.mk t h ss)) facts) :
    Ends env trail n facts Q := by
  rintro st rfl hsound
  have hsupported := supported_of_kind hknown
  obtain ⟨l, st₁, hsettle, hsound₁, hl⟩ := hsettles 0 (st.note .entered) rfl hsound
  match l with
  | .left ns =>
    refine ⟨1, .left ns, st₁, hsound₁, hl, fun fuel hfuel => ?_⟩
    obtain ⟨k, rfl⟩ := Nat.exists_eq_add_of_le' hfuel
    exact visit_succ_iff.mpr (.left hsupported hsettle)
  | .kept (.mk t h ss) =>
    obtain ⟨hfunction, hslots⟩ := hl
    obtain ⟨bound, ss', st₂, hsound₂, hss', hrun⟩ :=
      hslots (st₁.note (.descended t.mark)) rfl hsound₁
    have hleave : st₂.leave (.mk t h ss') = st₂ := if_neg (by simp [isFunction, kind, head, hfunction])
    refine ⟨bound + 1, .kept (.mk t h ss'), st₂, hsound₂, hss', fun fuel hfuel => ?_⟩
    obtain ⟨k, rfl⟩ := Nat.exists_eq_add_of_le' (Nat.le_trans (Nat.le_add_left 1 bound) hfuel)
    have hvisit := visit_succ_iff.mpr
      (.kept hsupported hsettle hsound₁ (hrun k (Nat.le_of_succ_le_succ hfuel)))
    rwa [hleave] at hvisit

namespace EndsSlots

variable {Q : List (Slot Node) → Facts → Prop}

theorem nil (h' : Q [] facts) : EndsSlots env trail t h before [] facts Q := by
  rintro st rfl hsound
  exact ⟨0, [], st, hsound, h', fun fuel _ => visitSlots_nil⟩

theorem cons {s : Slot Node}
    (hslot : ∀ st : State, st.facts = facts → st.fault = none →
      ∃ bound s' st', st'.fault = none ∧
        EndsSlots env trail t h (s' :: before) ss st'.facts (fun ss => Q (s' :: ss)) ∧
        ∀ fuel, bound ≤ fuel → visitSlot env fuel trail t h before ss s st = (s', st')) :
    EndsSlots env trail t h before (s :: ss) facts Q := by
  rintro st rfl hsound
  obtain ⟨bound, s', st₁, hsound₁, hrest, hfirst⟩ := hslot st rfl hsound
  obtain ⟨bound', ss', st₂, hsound₂, hss', hlater⟩ := hrest st₁ rfl hsound₁
  refine ⟨max bound bound' + 1, s' :: ss', st₂, hsound₂, hss', fun fuel hfuel => ?_⟩
  obtain ⟨k, rfl⟩ := Nat.exists_eq_add_of_le' (Nat.le_trans (Nat.le_add_left 1 _) hfuel)
  have hk := Nat.max_le.mp (Nat.le_of_succ_le_succ hfuel)
  exact visitSlots_succ_iff.mpr (.next (hfirst k hk.1) hsound₁ (hlater k hk.2))

theorem empty (hrest : EndsSlots env trail t h (.one none :: before) ss facts
    fun ss => Q (.one none :: ss)) : EndsSlots env trail t h before (.one none :: ss) facts Q :=
  cons fun st hfacts hsound => ⟨0, .one none, st, hsound, hfacts ▸ hrest, fun _ _ => rfl⟩

theorem one {c : Node} (hc : Ends env (⟨t, h, before, .single, ss⟩ :: trail) c facts
    fun l facts => ∃ c', l = .kept c' ∧ EndsSlots env trail t h (.one (some c') :: before) ss facts
      fun ss => Q (.one (some c') :: ss)) :
    EndsSlots env trail t h before (.one (some c) :: ss) facts Q := by
  refine cons fun st hfacts hsound => ?_
  obtain ⟨bound, l, st', hsound', ⟨c', rfl, hrest⟩, hrun⟩ := hc st hfacts hsound
  exact ⟨bound, .one (some c'), st', hsound', hrest, fun fuel hfuel =>
    visitSlot_iff.mpr (.node (hrun fuel hfuel))⟩

theorem many (hitems : EndsItems env trail t h before ss [] items facts
    fun items facts => EndsSlots env trail t h (.many items :: before) ss facts
      fun ss => Q (.many items :: ss)) :
    EndsSlots env trail t h before (.many items :: ss) facts Q := by
  refine cons fun st hfacts hsound => ?_
  obtain ⟨bound, items', st', hsound', hrest, hrun⟩ := hitems st hfacts hsound
  exact ⟨bound, .many items', st', hsound', hrest, fun fuel hfuel =>
    visitSlot_iff.mpr (.items (hrun fuel hfuel))⟩

end EndsSlots

namespace EndsItems

variable {Q : List (Option Node) → Facts → Prop}

theorem nil (h' : Q [] facts) : EndsItems env trail t h before after left [] facts Q := by
  rintro st rfl hsound
  exact ⟨0, [], st, hsound, h', fun fuel _ => visitItems_nil⟩

theorem cons {c : Node} (hc : Ends env (⟨t, h, before, .item left items, after⟩ :: trail) c facts
    fun l facts => match l with
      | .kept c' => EndsItems env trail t h before after (some c' :: left) items facts
        fun items => Q (some c' :: items)
      | .left ns => EndsItems env trail t h before after left (ns.map some ++ items) facts Q) :
    EndsItems env trail t h before after left (some c :: items) facts Q := by
  rintro st rfl hsound
  obtain ⟨bound, l, st₁, hsound₁, hrest, hfirst⟩ := hc st rfl hsound
  match l with
  | .kept c' =>
    obtain ⟨bound', items', st₂, hsound₂, hitems', hlater⟩ := hrest st₁ rfl hsound₁
    refine ⟨max bound bound' + 1, some c' :: items', st₂, hsound₂, hitems', fun fuel hfuel => ?_⟩
    obtain ⟨k, rfl⟩ := Nat.exists_eq_add_of_le' (Nat.le_trans (Nat.le_add_left 1 _) hfuel)
    have hk := Nat.max_le.mp (Nat.le_of_succ_le_succ hfuel)
    exact visitItems_succ_iff.mpr (.kept (hfirst k hk.1) hsound₁ (hlater k hk.2))
  | .left ns =>
    obtain ⟨bound', items', st₂, hsound₂, hitems', hlater⟩ := hrest st₁ rfl hsound₁
    refine ⟨max bound bound' + 1, items', st₂, hsound₂, hitems', fun fuel hfuel => ?_⟩
    obtain ⟨k, rfl⟩ := Nat.exists_eq_add_of_le' (Nat.le_trans (Nat.le_add_left 1 _) hfuel)
    have hk := Nat.max_le.mp (Nat.le_of_succ_le_succ hfuel)
    exact visitItems_succ_iff.mpr (.left (hfirst k hk.1) hsound₁ (hlater k hk.2))

end EndsItems

/-! The standard rules. -/

theorem Settles.rest {Q : Landing → Facts → Prop} (j : Nat)
    (hidle : ∀ r ∈ (Rule.standard.drop j).filter (·.kinds.contains n.kind),
      r.transform ⟨trail, facts, env.settings, env.mutated⟩ n = .ok none) (h : Q (.kept n) facts) :
    Settles env trail ((Rule.standard.drop j).map (switched env)) n facts Q := by
  refine .idle (fun r hr => ?_) h
  obtain ⟨s, hs, rfl⟩ := List.mem_map.mp hr
  exact answer_of_transform fun hkind => hidle s (List.mem_filter.mpr ⟨hs, hkind⟩)

theorem Settles.declaration {Q : Landing → Facts → Prop} {t u v : Tag} {kind x : String}
    {init : Option Node} (hstays : trail.inSequence = false ∨ x ∉ env.settings.prunedNames)
    (h : Q (.kept (.variableDeclaration t kind
      [some (.variableDeclarator u (some (.identifier v x)) init)])) facts) :
    Settles env trail ((Rule.standard.drop 12).map (switched env)) (.variableDeclaration t kind
      [some (.variableDeclarator u (some (.identifier v x)) init)]) facts Q := by
  have hanswer : Rule.pruneNamed ⟨trail, facts, env.settings, env.mutated⟩
      (.variableDeclaration t kind [some (.variableDeclarator u (some (.identifier v x)) init)]) =
      .ok (if x ∈ env.settings.prunedNames then some .remove else none) := by
    cases hnames : env.settings.prunedNames with
    | nil => simp [Rule.pruneNamed, hnames]
    | cons y ys => simp [Rule.pruneNamed, hnames, declaredName, bind, Except.bind, pure, Except.pure]
  by_cases hpruned : x ∈ env.settings.prunedNames
  · have hsingle := hstays.resolve_right (not_not_intro hpruned)
    by_cases hon : "prune_named" ∈ env.settings.disabledRules
    · refine .idle (List.forall_mem_singleton.mpr ?_) h
      simp [answer, Rule.applies, hon]
    · have hland : land trail .remove = none := by
        cases trail with
        | nil => rfl
        | cons f fs =>
          have hf : f.inSequence = false := hsingle
          simp [land, hf]
      refine .skip (o := .remove) ?_ (fun _ hlearn => ?_) hland (.idle (List.forall_mem_nil _) h)
      · rw [answer_of_on hon rfl]
        simpa [hpruned] using hanswer
      · cases hlearn
  · refine .rest 12 (List.forall_mem_singleton.mpr ?_) h
    simpa [hpruned] using hanswer

section
variable {Q : Landing → Facts → Prop} (hstandard : env.Standard)
include hstandard

theorem Settles.skip_to (j : Nat)
    (hidle : ∀ r ∈ (Rule.standard.take j).filter (·.kinds.contains n.kind),
      r.transform ⟨trail, facts, env.settings, env.mutated⟩ n = .ok none)
    (hrest : Settles env trail ((Rule.standard.drop j).map (switched env)) n facts Q) :
    Settles env trail env.rules n facts Q := by
  have hrules : env.rules = (Rule.standard.take j).map (switched env) ++
      (Rule.standard.drop j).map (switched env) := by
    rw [← List.map_append, List.take_append_drop]
    exact Rule.catalog_eq hstandard
  rw [hrules]
  refine .pass (fun r hr => ?_) hrest
  obtain ⟨s, hs, rfl⟩ := List.mem_map.mp hr
  exact answer_of_transform fun hkind => hidle s (List.mem_filter.mpr ⟨hs, hkind⟩)

theorem Ends.idle (hknown : h.kind.isForeign = false)
    (hidle : ∀ r ∈ Rule.standard.filter (·.kinds.contains h.kind),
      r.transform ⟨trail, facts, env.settings, env.mutated⟩ (.mk t h ss) = .ok none)
    (hfunction : h.kind.isFunction = false)
    (hslots : EndsSlots env trail t h [] ss facts fun ss facts => Q (.kept (.mk t h ss)) facts) :
    Ends env trail (.mk t h ss) facts Q :=
  .of_settles hknown (.skip_to hstandard 13 hidle (.idle nofun ⟨hfunction, hslots⟩))

end

end Unravel.Pass

namespace Unravel.Fixpoint

theorem exists_passTo_of_ends {rules : List Rule} {settings : Settings} {mutated : List String}
    {p : Progress} {Q : Node → Facts → Prop} (hwritten : Pass.written settings p.tree = .ok mutated)
    (h : Pass.Ends ⟨rules, settings, mutated⟩ [] p.tree p.facts fun l facts =>
      ∃ tree, l = .kept tree ∧ Q tree facts) :
    ∃ q, PassTo rules settings p q ∧ Q q.tree q.facts := by
  obtain ⟨bound, l, st, hsound, ⟨tree, rfl, hq⟩, hrun⟩ := h { facts := p.facts, next := p.next } rfl rfl
  refine ⟨{ tree, facts := st.facts, next := st.next }, ⟨bound, st, ?_, hsound, rfl, rfl⟩, hq⟩
  unfold Pass.written at hwritten
  simp only [Pass.run, hwritten, hrun bound (Nat.le_refl bound)]

end Unravel.Fixpoint
