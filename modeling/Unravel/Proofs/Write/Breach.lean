import Unravel.Proofs.Pass.Ends
import Unravel.Proofs.Write.Keep

/-! What is recorded stays unwritten exactly where constants and arrays are not recorded, or where no
expression is computed. Each rule that computes an expression can make a write out of what was none
when the written names were collected: `a = a` becomes `a = 1`, and a call of the method that `a[e]`
names becomes one of `a["push"]`. -/

namespace Unravel

open Node

abbrev declaring (v : Node) : Node :=
  .variableDeclarator (.fresh none) (some (.identifier (.fresh none) "a")) (some v)

def stepping (v e : Node) : Node :=
  .program (.fresh none) [some (.mk (.fresh none) .forStatement
    [.one (some (.variableDeclaration (.fresh none) "var" [some (declaring v)])), .one none,
      .one (some e), .one (some (.emptyStatement (.fresh none)))])]

abbrev assigning (e : Node) : Node :=
  .assignmentExpression (.fresh none) "=" (.identifier (.fresh none) "a") e

abbrev calling (e : Node) : Node :=
  .callExpression (.fresh none)
    (.memberExpression (.fresh none) true (.identifier (.fresh none) "a") e) []

abbrev methods : Node := .arrayExpression (.fresh none) [some (.literal (.fresh none) (.str "push"))]

theorem Site.isConstantName_nil (trail : Trail) (facts : Facts) (settings : Settings) (x : String) :
    Site.isConstantName ⟨trail, facts, settings, []⟩ x = true := by
  simp [isConstantName]

namespace Pass

variable {env : Env} {trail : Trail} {facts : Facts}

section
variable (hstandard : env.Standard)
include hstandard

theorem ends_literal {Q : Landing → Facts → Prop} {t : Tag} {v : Value}
    (h : Q (.kept (.literal t v)) facts) : Ends env trail (.literal t v) facts Q :=
  .idle hstandard rfl nofun rfl (.nil h)

theorem ends_methods {Q : Landing → Facts → Prop} (h : Q (.kept methods) facts) :
    Ends env trail methods facts Q :=
  .idle hstandard rfl nofun rfl (.many (.cons (ends_literal hstandard (.nil (.nil h)))))

theorem ends_identifier {Q : Landing → Facts → Prop} {t : Tag} {x : String}
    (hstays : isReference trail.seat? = false ∨ isWriteTarget trail.seat? = true ∨
      facts.constants.get? x = none) (h : Q (.kept (.identifier t x)) facts) :
    Ends env trail (.identifier t x) facts Q := by
  refine .idle hstandard rfl (List.forall_mem_singleton.mpr ?_) rfl (.nil h)
  simp only [Rule.substituteIdentifier, Site.seat?]
  rcases hstays with hname | hwrite | hunknown
  · simp [hname]
  · simp [hwrite]
  · simp [hunknown]

theorem ends_stepping {v e : Node} {fact : Fact} {Q : Node → Facts → Prop}
    (hon : Rule.capturing ∉ env.settings.disabledRules)
    (hcapture : ∀ trail, Rule.captureDeclarator ⟨trail, {}, env.settings, env.mutated⟩ (declaring v) =
      .ok (some (.learn fact)))
    (hfunction : ∀ site, Rule.captureFunction site (declaring v) = .ok none)
    (hv : ∀ {trail facts Q}, Q (.kept v) facts → Ends env trail v facts Q)
    (he : ∀ trail, Ends env trail e (({} : Facts).learn fact).1 fun l facts =>
      ∃ e', l = .kept e' ∧ Q (stepping v e') facts) :
    Ends env [] (stepping v e) {} fun l facts => ∃ tree, l = .kept tree ∧ Q tree facts := by
  refine .idle hstandard rfl nofun rfl (.many (.cons ?_))
  refine .idle hstandard rfl (List.forall_mem_singleton.mpr rfl) rfl (.one ?_)
  refine .of_settles rfl
    (.skip_to hstandard 12 nofun (.declaration (.inl rfl) ⟨rfl, .many (.cons ?_)⟩))
  refine .of_settles rfl (.skip_to hstandard 2 nofun
    (.learn ((answer_of_on hon rfl).trans (hcapture _)) (.rest 3 ?_ ⟨rfl, .one ?_⟩)))
  · exact List.forall_mem_singleton.mpr (hfunction _)
  refine ends_identifier hstandard (.inl rfl) ⟨_, rfl, .one (hv ⟨_, rfl, .nil ?_⟩)⟩
  refine .nil (.nil ⟨_, rfl, .empty (.one ?_)⟩)
  refine (he _).mono ?_
  rintro l facts ⟨e', rfl, hq⟩
  refine ⟨e', rfl, .one (.idle hstandard rfl nofun rfl (.nil ⟨_, rfl, ?_⟩))⟩
  exact .nil (.nil (.nil ⟨_, rfl, hq⟩))

theorem ends_computed {n : Node} {f : Frame} {v : Value} {r : Rule} (j : Nat)
    (hr : Rule.standard.drop j = r :: Rule.standard.drop (j + 1))
    (hon : r.name ∉ env.settings.disabledRules) (hkind : r.kinds.contains n.kind = true)
    (hidle : (Rule.standard.take j).filter (·.kinds.contains n.kind) = [])
    (hanswer : r.transform ⟨f :: trail, facts, env.settings, env.mutated⟩ n =
      .ok (some (.replace (.literal (.fresh none) v)))) (hknown : n.kind.isForeign = false) :
    Ends env (f :: trail) n facts fun l facts' =>
      ∃ t, l = .kept (.literal t v) ∧ facts' = facts := by
  refine .of_settles hknown (.skip_to hstandard j (by rw [hidle]; exact nofun) ?_)
  rw [hr]
  refine .replace ((answer_of_on hon hkind).trans hanswer) rfl rfl fun next => .rest (j + 1) ?_ ?_
  · have hnone : ∀ r ∈ Rule.standard, r.kinds.contains .literal = false := by decide
    intro r hr
    obtain ⟨hmem, hliteral⟩ := List.mem_filter.mp hr
    have hliteral : r.kinds.contains .literal = true := hliteral
    cases hliteral.symm.trans (hnone r (List.mem_of_mem_drop hmem))
  · exact ⟨rfl, .nil ⟨_, rfl, rfl⟩⟩

theorem ends_assigning {Q : Landing → Facts → Prop} {v : Value}
    (hon : "substitute_identifier" ∉ env.settings.disabledRules) (hmutated : env.mutated = [])
    (hfacts : facts.constants.get? "a" = some v)
    (h : ∀ t, Q (.kept (assigning (.literal t v))) facts) :
    Ends env trail (assigning (.identifier (.fresh none) "a")) facts Q := by
  refine .idle hstandard rfl nofun rfl
    (.one (ends_identifier hstandard (.inr (.inl rfl)) ⟨_, rfl, .one ?_⟩))
  refine (ends_computed (v := v) hstandard 3 rfl hon rfl rfl ?_ rfl).mono ?_
  · simp only [Rule.substituteIdentifier, hmutated, Site.isConstantName_nil, hfacts]
    rfl
  · rintro l _ ⟨t, rfl, rfl⟩
    exact ⟨_, rfl, .nil (h t)⟩

abbrev methodFrame : Frame :=
  ⟨.fresh none, .memberExpression true, [.one (some (.identifier (.fresh none) "a"))], .single, []⟩

theorem ends_calling {Q : Landing → Facts → Prop} {e : Node}
    (hopen : ∀ site, Rule.foldArrayMember site (.memberExpression (.fresh none) true
      (.identifier (.fresh none) "a") e) = .ok none) (hfacts : facts.constants.get? "a" = none)
    (he : ∀ trail, Ends env (methodFrame :: trail) e facts fun l facts' =>
      ∃ t, l = .kept (.literal t (.str "push")) ∧ facts' = facts)
    (h : ∀ t, Q (.kept (calling (.literal t (.str "push")))) facts) :
    Ends env trail (calling e) facts Q := by
  refine .idle hstandard rfl (List.forall_mem_singleton.mpr rfl) rfl (.one ?_)
  refine .idle hstandard rfl (List.forall_mem_singleton.mpr (hopen _)) rfl
    (.one (ends_identifier hstandard (.inr (.inr hfacts)) ⟨_, rfl, .one ((he _).mono ?_)⟩))
  rintro l _ ⟨t, rfl, rfl⟩
  exact ⟨_, rfl, .nil ⟨_, rfl, .many (.nil (.nil (h t)))⟩⟩

end

end Pass

theorem wellKinded_stepping {v e : Node} (hv : v.WellKinded) (hv' : v.kind.isExpression = true)
    (he : e.WellKinded) (he' : e.kind.isExpression = true) : (stepping v e).WellKinded := by
  simp only [stepping, every_mk, everySlots_one, everySlots_none, everySlots_many, everyItems_some,
    everyItems_nil, everySlots_nil, hv, he, and_true, true_and]
  exact ⟨.cons rfl .nil, .cons rfl (.cons rfl (.cons he' (.cons rfl .nil))), ⟨.cons rfl .nil,
    .cons rfl (.cons hv' .nil), .nil⟩, .nil⟩

theorem wellKinded_calling {e : Node} (he : e.WellKinded) (he' : e.kind.isExpression = true) :
    (calling e).WellKinded := by
  simp only [every_mk, everySlots_one, everySlots_many, everyItems_nil, everySlots_nil, he, and_true]
  exact ⟨.cons rfl (.cons rfl .nil), .cons rfl (.cons he' .nil), .nil⟩

theorem not_unwritten_stepping {v e : Node} {facts : Facts} (hwell : (stepping v e).WellKinded)
    (he : "a" ∈ e.targets)
    (hfacts : (facts.constants.get? "a").isSome = true ∨ (facts.arrays.get? "a").isSome = true) :
    ¬ Unwritten (stepping v e) facts := by
  rintro ⟨names, hnames, havoids⟩
  have hmem : e ∈ (stepping v e).walk := by simp [stepping, walk, walkSlots, walkItems, self_mem_walk]
  obtain ⟨hconstant, harray⟩ := havoids "a" ((mem_mutatedNames hwell hnames).mpr ⟨e, hmem, he⟩)
  simp [hconstant, harray] at hfacts

/-! An expression that comes to `"push"` for each of the other rules. -/

abbrev pushSum : Node :=
  .binaryExpression (.fresh none) "+" (.literal (.fresh none) (.str "pu"))
    (.literal (.fresh none) (.str "sh"))

abbrev pushChoice : Node :=
  .conditionalExpression (.fresh none) (.literal (.fresh none) (.bool true))
    (.literal (.fresh none) (.str "push")) (.literal (.fresh none) (.str ""))

abbrev pushResult : Node :=
  .callExpression (.fresh none) (.functionExpression (.fresh none) none []
    (some (.blockStatement (.fresh none)
      [some (.returnStatement (.fresh none) (some (.literal (.fresh none) (.str "push"))))]))) []

abbrev pushElement : Node :=
  .memberExpression (.fresh none) true (.identifier (.fresh none) "a") (.literal (.fresh none) (.int 0))

namespace Fixpoint

variable {settings : Settings} {rules : List Rule}

def Breach (rules : List Rule) (settings : Settings) : Prop :=
  ∃ p q : Progress, p.tree.kind = .program ∧ p.tree.WellKinded ∧ p.facts = {} ∧
    PassTo rules settings p q ∧ ¬ Unwritten q.tree q.facts

section
variable (hrules : Rule.catalog settings = .ok rules) (htrack : settings.trackMutations = true)
  (hcapture : Rule.capturing ∉ settings.disabledRules)
include hrules htrack hcapture

theorem breach_of_ends (v e : Node) (fact : Fact) (hwell : (stepping v e).WellKinded)
    (hwritten : (stepping v e).mutatedNames = .ok [])
    (hfact : ∀ trail, Rule.captureDeclarator ⟨trail, {}, settings, []⟩ (declaring v) =
      .ok (some (.learn fact)))
    (hfunction : ∀ site, Rule.captureFunction site (declaring v) = .ok none)
    (hv : ∀ {trail facts Q}, Q (.kept v) facts → Pass.Ends ⟨rules, settings, []⟩ trail v facts Q)
    (he : ∀ trail, Pass.Ends ⟨rules, settings, []⟩ trail e (({} : Facts).learn fact).1 fun l facts =>
      ∃ e', l = .kept e' ∧ ¬ Unwritten (stepping v e') facts) : Breach rules settings := by
  have hstandard : Pass.Env.Standard ⟨rules, settings, []⟩ := hrules
  have hends := Pass.ends_stepping (Q := fun tree facts => ¬ Unwritten tree facts) hstandard hcapture
    hfact hfunction hv he
  have hnames : Pass.written settings (stepping v e) = .ok [] := by
    rw [Pass.written, htrack]
    exact hwritten
  obtain ⟨q, hpass, hq⟩ :=
    exists_passTo_of_ends (p := { tree := stepping v e, facts := {}, next := 0 }) hnames hends
  exact ⟨_, q, rfl, hwell, rfl, hpass, hq⟩

theorem breach_assigning (hon : "substitute_identifier" ∉ settings.disabledRules) :
    Breach rules settings := by
  have hstandard : Pass.Env.Standard ⟨rules, settings, []⟩ := hrules
  refine breach_of_ends hrules htrack hcapture (.literal (.fresh none) (.int 1))
    (assigning (.identifier (.fresh none) "a")) (.constant "a" (.int 1)) (by decide) rfl ?_
    (fun _ => rfl) (Pass.ends_literal hstandard) fun trail => ?_
  · intro trail
    simp only [Rule.captureDeclarator, Rule.nameOf, bind, Except.bind, Site.isConstantName_nil]
    rfl
  · refine Pass.ends_assigning (v := .int 1) hstandard hon rfl rfl fun t => ⟨_, rfl, ?_⟩
    refine not_unwritten_stepping (wellKinded_stepping (by decide) rfl ?_ rfl) ?_ (.inl rfl)
    · simp [Conforms, Head.demands, head, slots, Demand.admits, Role.admits, kind, Head.kind,
        Kind.isExpression]
    · exact List.mem_singleton.mpr rfl

theorem breach_calling {e : Node} (hwell : e.WellKinded) (hexpression : e.kind.isExpression = true)
    (hwritten : (stepping methods (calling e)).mutatedNames = .ok [])
    (hopen : ∀ site, Rule.foldArrayMember site (.memberExpression (.fresh none) true
      (.identifier (.fresh none) "a") e) = .ok none)
    (he : ∀ trail, Pass.Ends ⟨rules, settings, []⟩ (Pass.methodFrame :: trail) e
      { arrays := [("a", [.str "push"])] } fun l facts =>
        ∃ t, l = .kept (.literal t (.str "push")) ∧ facts = { arrays := [("a", [.str "push"])] }) :
    Breach rules settings := by
  have hstandard : Pass.Env.Standard ⟨rules, settings, []⟩ := hrules
  refine breach_of_ends hrules htrack hcapture methods (calling e) (.array "a" [.str "push"])
    (wellKinded_stepping (by decide) rfl (wellKinded_calling hwell hexpression) rfl) hwritten ?_
    (fun _ => rfl) (Pass.ends_methods hstandard) fun trail => ?_
  · intro trail
    simp only [Rule.captureDeclarator, Rule.nameOf, bind, Except.bind, Site.isConstantName_nil]
    rfl
  · refine Pass.ends_calling hstandard hopen rfl he fun t => ⟨_, rfl, ?_⟩
    have hliteral : (Node.literal t (.str "push")).WellKinded := every_mk.mpr ⟨.nil, everySlots_nil⟩
    refine not_unwritten_stepping (wellKinded_stepping (by decide) rfl
      (wellKinded_calling hliteral rfl) rfl) ?_ (.inr rfl)
    exact List.mem_singleton.mpr rfl

theorem breach_of_computing {name : String} (hname : name ∈ Rule.computing)
    (hon : name ∉ settings.disabledRules) : Breach rules settings := by
  have hstandard : Pass.Env.Standard ⟨rules, settings, []⟩ := hrules
  simp only [Rule.computing, List.mem_cons, List.not_mem_nil, or_false] at hname
  rcases hname with rfl | rfl | rfl | rfl | rfl
  · exact breach_assigning hrules htrack hcapture hon
  · exact breach_calling (e := pushSum) hrules htrack hcapture (by decide) rfl rfl (fun _ => rfl)
      fun trail => Pass.ends_computed hstandard 4 rfl hon rfl rfl rfl rfl
  · exact breach_calling (e := pushChoice) hrules htrack hcapture (by decide) rfl rfl (fun _ => rfl)
      fun trail => Pass.ends_computed hstandard 5 rfl hon rfl rfl rfl rfl
  · exact breach_calling (e := pushResult) hrules htrack hcapture (by decide) rfl rfl (fun _ => rfl)
      fun trail => Pass.ends_computed hstandard 8 rfl hon rfl rfl rfl rfl
  · refine breach_calling (e := pushElement) hrules htrack hcapture (by decide) rfl rfl (fun _ => rfl)
      fun trail => Pass.ends_computed hstandard 9 rfl hon rfl rfl ?_ rfl
    simp only [Rule.foldArrayMember, Site.isConstantName_nil]
    rfl

end

/-- Every pass from a fresh start leaves the recorded constants and arrays unwritten, exactly if none
are recorded or no expression is computed. -/
theorem unwritten_iff_not_captured_or_not_computed (hrules : Rule.catalog settings = .ok rules)
    (htrack : settings.trackMutations = true) :
    (∀ p q : Progress, p.tree.kind = .program → p.tree.WellKinded → p.facts = {} →
      Passes rules settings p q → Unwritten q.tree q.facts) ↔
    Rule.capturing ∈ settings.disabledRules ∨
      ∀ name ∈ Rule.computing, name ∈ settings.disabledRules := by
  constructor
  · intro hkept
    by_contra hon
    obtain ⟨hcapture, hcompute⟩ := not_or.mp hon
    simp only [not_forall] at hcompute
    obtain ⟨name, hname, hcompute⟩ := hcompute
    obtain ⟨p, q, hroot, hwell, hfresh, hpass, hq⟩ :=
      breach_of_computing hrules htrack hcapture hname hcompute
    exact hq (hkept p q hroot hwell hfresh (.single hpass))
  · rintro (hoff | hoff) p q - hwell hfresh hpasses
    · exact unwritten_of_not_capturing hrules hoff hpasses hwell hfresh
    · exact unwritten_of_not_computing hrules hoff htrack hpasses hwell hfresh

theorem unwritten_of_computing_disabled :
    ∃ rules, Rule.catalog { disabledRules := Rule.computing } = .ok rules ∧
      ∀ p q : Progress, p.tree.kind = .program → p.tree.WellKinded → p.facts = {} →
        Passes rules { disabledRules := Rule.computing } p q → Unwritten q.tree q.facts := by
  refine ⟨_, rfl, ?_⟩
  exact (unwritten_iff_not_captured_or_not_computed rfl rfl).mpr (.inr fun _ hname => hname)

/-- `function f(p) { return p[0] = 5; } var a = [1]; f(a); g(a[0]);` -/
def inlinedWrite : Node :=
  .program (.fresh none)
    [some (.functionDeclaration (.fresh none) (some (.identifier (.fresh none) "f"))
      [some (.identifier (.fresh none) "p")] (some (.blockStatement (.fresh none)
        [some (.returnStatement (.fresh none) (some (.assignmentExpression (.fresh none) "="
          (.memberExpression (.fresh none) true (.identifier (.fresh none) "p")
            (.literal (.fresh none) (.int 0)))
          (.literal (.fresh none) (.int 5)))))]))),
    some (.variableDeclaration (.fresh none) "var" [some (.variableDeclarator (.fresh none)
      (some (.identifier (.fresh none) "a"))
      (some (.arrayExpression (.fresh none) [some (.literal (.fresh none) (.int 1))])))]),
    some (.expressionStatement (.fresh none) (.callExpression (.fresh none)
      (.identifier (.fresh none) "f") [some (.identifier (.fresh none) "a")])),
    some (.expressionStatement (.fresh none) (.callExpression (.fresh none)
      (.identifier (.fresh none) "g") [some (.memberExpression (.fresh none) true
        (.identifier (.fresh none) "a") (.literal (.fresh none) (.int 0)))]))]

theorem inlinedWrite_recorded :
    ((inlinedWrite.number 0).1.kind = .program ∧ (inlinedWrite.number 0).1.WellKinded) ∧
    ∃ q, PassTo Rule.standard {}
        { tree := (inlinedWrite.number 0).1, facts := {}, next := (inlinedWrite.number 0).2 } q ∧
      ¬ Unwritten q.tree q.facts := by
  refine ⟨⟨rfl, by decide +kernel⟩, ?_⟩
  obtain ⟨q, hpass, htree, hfacts⟩ := exists_passTo 60 Rule.standard {}
    { tree := (inlinedWrite.number 0).1, facts := {}, next := (inlinedWrite.number 0).2 }
    (by decide +kernel)
  refine ⟨q, hpass, ?_⟩
  rw [htree, hfacts]
  decide +kernel

end Fixpoint
end Unravel
