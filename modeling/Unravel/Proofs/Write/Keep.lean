import Unravel.Proofs.Write.Aspect

/-! What is recorded stays unwritten where nothing is recorded, or where no expression is computed. A
computed expression may show what was hidden before: the target of a write, or the method of an array
that is called. The other rules move statements, and what those write they wrote before. -/

namespace Unravel

open Node

namespace Rule

abbrev capturing : String := "capture_declarator"

abbrev computing : List String :=
  ["substitute_identifier", "fold_binary_plus", "simplify_conditional", inlining,
    "fold_array_member"]

abbrev computed : List Kind :=
  [.identifier, .binaryExpression, .ifStatement, .conditionalExpression, .callExpression,
    .memberExpression]

theorem name_mem_computing {r : Rule} (hr : r ∈ standard) {k : Kind} (hk : k ∈ r.kinds)
    (hcomputed : k ∈ computed) : r.name ∈ computing := by
  have hall : ∀ r ∈ standard, ∀ k ∈ r.kinds, k ∈ computed → r.name ∈ computing := by decide
  exact hall r hr k hk hcomputed

variable {site : Site} {n : Node} {o : Outcome}

theorem name_of_record {r : Rule} (hr : r ∈ standard) {fact : Fact}
    (hmove : Move site n (.learn fact)) (hfact : ∀ name fn, fact ≠ .function name fn)
    (hkind : r.kinds.contains n.kind = true) (h : r.transform site n = .ok (some (.learn fact))) :
    r.name = capturing := by
  have hother (hn : n.kind = .variableDeclarator) (hnone : captureFunction site n = .ok none) :
      r.name = capturing := by
    rw [hn] at hkind
    simp only [standard, List.mem_cons, List.not_mem_nil, or_false] at hr
    rcases hr with rfl | rfl | rfl | rfl | rfl | rfl | rfl | rfl | rfl | rfl | rfl | rfl | rfl <;>
      first | rfl | cases hkind
    cases hnone.symm.trans h
  cases hmove with
  | recordConstant => exact hother rfl rfl
  | recordArray => exact hother rfl rfl
  | recordDeclaration => exact absurd rfl (hfact _ _)
  | recordExpression => exact absurd rfl (hfact _ _)

theorem Move.isConstantName {fact : Fact} (hmove : Move site n (.learn fact)) :
    site.isConstantName fact.name = true := by
  cases hmove <;> assumption

theorem Move.aspect_or_statement (hmove : Move site n o) (hedit : ∀ fact, o ≠ .learn fact)
    (hn : n.kind ∉ computed) :
    (∃ m, o = .replace m ∧ m.aspect = n.aspect) ∨
      n.kind.isStatement = true ∧ n.kind ≠ .blockStatement ∧
        (n.kind = .variableDeclaration → o = .remove) := by
  cases hmove with
  | recordConstant => exact absurd rfl (hedit _)
  | recordArray => exact absurd rfl (hedit _)
  | recordDeclaration => exact absurd rfl (hedit _)
  | recordExpression => exact absurd rfl (hedit _)
  | expandAnd => exact .inl ⟨_, rfl, rfl⟩
  | expandOr => exact .inl ⟨_, rfl, rfl⟩
  | readConstant => exact absurd (by simp [kind, head, Head.kind]) hn
  | addLiterals => exact absurd (by simp [kind, head, Head.kind]) hn
  | readElement => exact absurd (by simp [kind, head, Head.kind]) hn
  | chooseOperand => exact absurd (by simp [kind, head, Head.kind]) hn
  | chooseNothing => exact absurd (by simp [kind, head, Head.kind]) hn
  | chooseBranch => exact absurd (by simp [kind, head, Head.kind]) hn
  | dissolveBranch => exact absurd (by simp [kind, head, Head.kind]) hn
  | pruneDeclaration => exact .inr ⟨rfl, nofun, fun _ => rfl⟩
  | _ => exact .inr ⟨rfl, nofun, nofun⟩

theorem Made.targets_eq {c : Node} (h : Made site n c) : c.targets = [] := by
  cases h <;> rfl

theorem Move.every_targets (hmove : Move site n o) {names : List String}
    (hn : n.Every (·.targets ⊆ names)) : ∀ c ∈ o.walk, c.targets ⊆ names := by
  intro c hc
  rcases hmove.old_or_made hc with hold | hmade
  · exact hn c hold
  · rw [hmade.targets_eq]
    exact List.nil_subset _

end Rule

theorem Frame.role_of_declaration {f : Frame} {n : Node} {d : Demand} (hf : f.inSequence = true)
    (hconforms : (f.plug n).Conforms) (hd : f.demand? = some d) (hn : n.kind = .variableDeclaration) :
    d.role = .statement := by
  obtain ⟨t, h, before, hole, after⟩ := f
  obtain ⟨e, he, hslot⟩ := exists_of_forall₂_append hconforms
  rw [List.length_reverse] at he
  cases Option.some.inj (hd.symm.trans he)
  cases hole with
  | single => cases hf
  | item left right =>
    have hadmits : d.role.admits n.kind = true := Demand.role_of_admits_many hslot (by simp)
    have hlists : h.demands.all (fun d => match d with
        | .many r | .sparse r => r != .start && r != .loopTarget
        | _ => true) = true := by
      cases h <;> rfl
    have hlist := List.all_eq_true.mp hlists d (List.mem_of_getElem? he)
    rw [hn] at hadmits
    cases d with
    | one | maybe => cases hslot
    | many r | sparse r =>
      revert hadmits hlist
      cases r <;> decide

namespace Facts

def Avoids (facts : Facts) (names : List String) : Prop :=
  ∀ x ∈ names, facts.constants.get? x = none ∧ facts.arrays.get? x = none

instance (facts : Facts) (names : List String) : Decidable (facts.Avoids names) :=
  inferInstanceAs (Decidable (∀ x ∈ names,
    facts.constants.get? x = none ∧ facts.arrays.get? x = none))

theorem Avoids.learn {facts : Facts} {names : List String} (h : facts.Avoids names) {fact : Fact}
    (hfact : fact.name ∉ names) : (facts.learn fact).1.Avoids names := by
  intro x hx
  have hne : fact.name ≠ x := fun heq => hfact (heq ▸ hx)
  cases fact with
  | constant name value =>
    have hname : name ≠ x := hne
    exact ⟨by simp [Facts.learn, hname, h x hx], (h x hx).2⟩
  | array name values =>
    have hname : name ≠ x := hne
    exact ⟨(h x hx).1, by simp [Facts.learn, hname, h x hx]⟩
  | function name fn => exact h x hx

end Facts

structure Guarded (names : List String) (tree : Node) (facts : Facts) : Prop where
  formed : Formed tree facts
  writes : tree.Every (·.targets ⊆ names)
  avoids : facts.Avoids names

/-- What is recorded as a constant or an array is not written in the tree. -/
def Unwritten (tree : Node) (facts : Facts) : Prop :=
  ∃ names, tree.mutatedNames = .ok names ∧ facts.Avoids names

instance (tree : Node) (facts : Facts) : Decidable (Unwritten tree facts) :=
  match h : tree.mutatedNames with
  | .ok names => decidable_of_iff (facts.Avoids names) (by simp [Unwritten, h])
  | .error f => .isFalse (by simp [Unwritten, h])

theorem Guarded.unwritten {names : List String} {tree : Node} {facts : Facts}
    (h : Guarded names tree facts) : Unwritten tree facts := by
  have hnames := mutatedNames_eq h.formed.tree
  refine ⟨_, hnames, fun x hx => h.avoids x ?_⟩
  obtain ⟨c, hc, hx⟩ := (mem_mutatedNames h.formed.tree hnames).mp hx
  exact h.writes c hc hx

namespace Pass

variable {env : Env} {trail fs : Trail} {f : Frame} {n : Node} {facts : Facts} {o : Outcome}
  {l : Landing} {i : Nat}

theorem Lands.aspect_or_statement {site : Site} (h : Lands f o l) (hmove : Rule.Move site n o)
    (hn : n.kind ∉ Rule.computed) (hconforms : (f.plug n).Conforms) :
    (∃ m, l = .kept m ∧ n.aspect = m.aspect) ∨ ∃ d, f.demand? = some d ∧ d.role = .statement := by
  obtain ⟨d, hd, hadmits⟩ := Frame.exists_demand hconforms
  rcases hmove.aspect_or_statement h.not_learn hn with
    ⟨m, rfl, hm⟩ | ⟨hstatement, hblock, hremove⟩
  · cases h
    exact .inl ⟨m, rfl, hm.symm⟩
  refine .inr ⟨d, hd, ?_⟩
  by_cases hdecl : n.kind = .variableDeclaration
  · cases hremove hdecl
    cases h with
    | remove hf => exact Frame.role_of_declaration hf hconforms hd hdecl
  · exact Role.eq_statement hadmits hstatement hblock hdecl

theorem Lands.every_targets {names : List String} (h : Lands f o l)
    (hwalk : ∀ c ∈ o.walk, c.targets ⊆ names) : ∀ m ∈ l.nodes, m.Every (·.targets ⊆ names) := by
  intro m hm c hc
  rcases h.mem_walk hm hc with hold | rfl | ⟨ns, rfl, rfl⟩
  · exact hwalk c hold
  · exact List.nil_subset _
  · exact List.nil_subset _

theorem install_same (st : State) (hconforms : (f.plug n).Conforms)
    (hexchange : (∃ m, l = .kept m ∧ n.aspect = m.aspect) ∨
      ∃ d, f.demand? = some d ∧ d.role = .statement) :
    (f.plug n).aspect = (f.plugAll (st.install l).1.nodes).aspect ∧
      (f.plug n).targets = (f.plugAll (st.install l).1.nodes).targets := by
  rcases hexchange with ⟨m, rfl, hm⟩ | ⟨d, hd, hrole⟩
  · have hcopy : n.aspect = (m.number st.next).1.aspect :=
      hm.trans (view_relabel numbering_keepsHeads isView_aspect none _ m).symm
    change _ = (f.plugAll [(m.number st.next).1]).aspect ∧
      _ = (f.plugAll [(m.number st.next).1]).targets
    rw [Frame.plugAll_singleton]
    exact ⟨isView_aspect _ _ _ _ _ (f.view_plug hcopy), targets_congr (f.view_plug hcopy)⟩
  · exact ⟨Frame.aspect_plugAll hd hrole, Frame.targets_plugAll hconforms hd hrole⟩

section
variable (hstandard : env.Standard)
include hstandard

theorem move_of_answers (hoff : ∀ name ∈ Rule.computing, name ∈ env.settings.disabledRules)
    (hanswer : Answers env i trail facts n o) : n.kind ∉ Rule.computed ∧
      Rule.Move ⟨trail, facts, env.settings, env.mutated⟩ n o := by
  obtain ⟨r, hr, hon, hkind, -⟩ := hstandard.rule_of_answers hanswer
  have hn : n.kind ∉ Rule.computed := fun hn =>
    hon (hoff _ (Rule.name_mem_computing hr (by simpa using hkind) hn))
  refine ⟨hn, (hstandard.answers_cases hanswer).resolve_right fun hinline => ?_⟩
  obtain ⟨t, callee, arguments, fn, m, rfl, -⟩ := Rule.expands_of_inlineReturn hinline
  exact hn (by simp [kind, head, Head.kind])

/-- A pass that computes no expression keeps to the names that it found written. -/
theorem keeps_guarded (hoff : ∀ name ∈ Rule.computing, name ∈ env.settings.disabledRules)
    (htrack : env.settings.trackMutations = true) : env.Keeps (Guarded env.mutated) where
  learn hanswer hguarded := by
    refine ⟨hstandard.keeps_formed.learn hanswer hguarded.formed, hguarded.writes,
      hguarded.avoids.learn ?_⟩
    simpa [Site.isConstantName, htrack] using (hstandard.learn_move hanswer).isConstantName
  leave hfunction hguarded :=
    ⟨hstandard.keeps_formed.leave hfunction hguarded.formed, hguarded.writes, hguarded.avoids⟩
  edit := by
    intro trail n facts i o l st hanswer hland hguarded
    refine ⟨hstandard.keeps_formed.edit st hanswer hland hguarded.formed, ?_, hguarded.avoids⟩
    obtain ⟨f, fs, rfl, hlands, htakes, heq⟩ := edit_cases st hland
    obtain ⟨hn, hmove⟩ := move_of_answers hstandard hoff hanswer
    have hconforms := (Frame.every_plug.mp (Trail.every_of_plug fs hguarded.formed.tree)).1
    obtain ⟨hsame, htargets⟩ :=
      install_same st hconforms (hlands.aspect_or_statement hmove hn hconforms)
    have hwalk := hmove.every_targets (Trail.every_of_plug (f :: fs) hguarded.writes)
    rw [heq]
    refine Trail.every_exchange aspect (fun f c c' hcc => isView_aspect _ _ _ _ _ (f.view_plug hcc))
      ?_ htakes hsame (fun hself => htargets ▸ hself) ?_ hguarded.writes
    · intro f c c' hcc hself
      have htargets : (f.plug c).targets = (f.plug c').targets := targets_congr (f.view_plug hcc)
      exact htargets ▸ hself
    · intro m hm
      obtain ⟨k, hk, next, rfl⟩ := exists_of_mem_install hm
      exact every_number (targets_relabel numbering_keepsHeads env.mutated)
        (hlands.every_targets hwalk k hk) next

theorem keeps_bare (hoff : Rule.capturing ∈ env.settings.disabledRules) :
    env.Keeps fun tree facts => Formed tree facts ∧ facts.constants = [] ∧ facts.arrays = [] where
  learn hanswer hbare := by
    refine ⟨hstandard.keeps_formed.learn hanswer hbare.1, ?_⟩
    have hmove := hstandard.learn_move hanswer
    obtain ⟨r, hr, hon, hkind, htransform⟩ := hstandard.rule_of_answers hanswer
    rename_i fact
    have hname (hfact : ∀ name fn, fact ≠ .function name fn) : False :=
      hon (Rule.name_of_record hr hmove hfact hkind htransform ▸ hoff)
    cases fact with
    | constant => exact (hname nofun).elim
    | array => exact (hname nofun).elim
    | function => exact hbare.2
  leave hfunction hbare := ⟨hstandard.keeps_formed.leave hfunction hbare.1, hbare.2⟩
  edit st hanswer hland hbare :=
    ⟨hstandard.keeps_formed.edit st hanswer hland hbare.1, hbare.2⟩

end

end Pass

namespace Fixpoint

variable {rules : List Rule} {settings : Settings} {p q : Progress}

section
variable (hrules : Rule.catalog settings = .ok rules)
include hrules

theorem unwritten_of_not_capturing (hoff : Rule.capturing ∈ settings.disabledRules)
    (hpasses : Passes rules settings p q) (hwell : p.tree.WellKinded) (hfresh : p.facts = {}) :
    Unwritten q.tree q.facts := by
  have hstandard (mutated : List String) : Pass.Env.Standard ⟨rules, settings, mutated⟩ := hrules
  have hformed : Formed p.tree p.facts := ⟨hwell, by rw [hfresh]; exact nofun⟩
  obtain ⟨hq, hconstants, harrays⟩ := hpasses.keeps
    (fun mutated => Pass.keeps_bare (hstandard mutated) hoff) ⟨hformed, by rw [hfresh], by rw [hfresh]⟩
  refine ⟨_, mutatedNames_eq hq.tree, fun x _ => ?_⟩
  rw [hconstants, harrays]
  exact ⟨rfl, rfl⟩

theorem PassTo.unwritten (hoff : ∀ name ∈ Rule.computing, name ∈ settings.disabledRules)
    (htrack : settings.trackMutations = true) (hpass : PassTo rules settings p q)
    (hformed : Formed p.tree p.facts) (hunwritten : Unwritten p.tree p.facts) :
    Formed q.tree q.facts ∧ Unwritten q.tree q.facts := by
  obtain ⟨names, hnames, havoids⟩ := hunwritten
  obtain ⟨fuel, st, hrun, -, hfacts, -⟩ := hpass
  have hwritten : Pass.written settings p.tree = .ok names := by simp [Pass.written, htrack, hnames]
  rcases Pass.run_cases hrun with ⟨f, hfault, -⟩ | ⟨mutated, hmutated, hvisit⟩
  · cases hwritten.symm.trans hfault
  · cases hwritten.symm.trans hmutated
    have hstart : Guarded names p.tree p.facts :=
      ⟨hformed, fun c hc x hx => (mem_mutatedNames hformed.tree hnames).mpr ⟨c, hc, hx⟩, havoids⟩
    have hstandard : Pass.Env.Standard ⟨rules, settings, names⟩ := hrules
    have hend : Guarded names q.tree st.facts :=
      (Pass.visit_steps fuel hvisit).1.keeps (Pass.keeps_guarded hstandard hoff htrack) hstart
    rw [hfacts]
    exact ⟨hend.formed, hend.unwritten⟩

theorem unwritten_of_not_computing (hoff : ∀ name ∈ Rule.computing, name ∈ settings.disabledRules)
    (htrack : settings.trackMutations = true) (hpasses : Passes rules settings p q)
    (hwell : p.tree.WellKinded) (hfresh : p.facts = {}) : Unwritten q.tree q.facts := by
  have hall : Formed q.tree q.facts ∧ Unwritten q.tree q.facts := by
    induction hpasses with
    | refl =>
      rw [hfresh]
      exact ⟨⟨hwell, nofun⟩, _, mutatedNames_eq hwell, fun _ _ => ⟨rfl, rfl⟩⟩
    | tail _ hpass ih => exact hpass.unwritten hrules hoff htrack ih.1 ih.2
  exact hall.2

end

end Fixpoint
end Unravel
