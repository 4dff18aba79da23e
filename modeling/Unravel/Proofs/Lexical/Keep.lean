import Unravel.Proofs.Grammar.Inert
import Unravel.Proofs.Grammar.Pass
import Unravel.Proofs.Lexical.Separate

/-! Where no function and no loop is taken off its statements, passes keep lexical declarations in
their blocks. The other rules that dissolve a block look for such declarations first. -/

namespace Unravel

open Node

namespace Rule

abbrev callUnwrapping : String := "unwrap_iife"

abbrev loopUnwrapping : String := "unwrap_single_pass_loop"

end Rule

def Node.isCalledFunction : Node → Bool
  | .mk _ .expressionStatement
      [.one (some (.mk _ .callExpression (.one (some (.mk _ .functionExpression _)) :: _)))] => true
  | _ => false

namespace Rule

variable {site : Site} {n : Node} {o : Outcome}

theorem exists_of_isCalledFunction (h : n.isCalledFunction = true) : ∃ t u v ss rest,
    n = .mk t .expressionStatement [.one (some (.mk u .callExpression
      (.one (some (.mk v .functionExpression ss)) :: rest)))] := by
  unfold isCalledFunction at h
  split at h
  · exact ⟨_, _, _, _, _, rfl⟩
  · cases h

theorem name_of_answer {r : Rule} (hr : r ∈ standard) (hkind : r.kinds.contains n.kind = true)
    (h : r.transform site n = .ok (some o)) :
    (n.kind.isLoop = true → r.name = loopUnwrapping) ∧
      (n.isCalledFunction = true → r.name = callUnwrapping) := by
  constructor
  · intro hloop
    have hone : ∀ r ∈ standard, r.kinds.any Kind.isLoop = true → r.name = loopUnwrapping := by decide
    exact hone r hr (List.any_eq_true.mpr ⟨n.kind, by simpa using hkind, hloop⟩)
  · intro hcalled
    obtain ⟨t, u, v, ss, rest, rfl⟩ := exists_of_isCalledFunction hcalled
    simp only [standard, List.mem_cons, List.not_mem_nil, or_false] at hr
    rcases hr with rfl | rfl | rfl | rfl | rfl | rfl | rfl | rfl | rfl | rfl | rfl | rfl | rfl <;>
      first | rfl | cases hkind
    · simp [selfAssignment] at h
    · simp [inlineTimer] at h
    · simp only [pruneNamed] at h
      split at h <;> cases h

theorem not_lexical_of_expression {m : Node} (hm : m.kind.isExpression = true) :
    m.head.isLexical = false := by
  obtain ⟨t, h, ss⟩ := m
  cases h <;> first | rfl | cases hm

/-- Nothing lexical takes the place of a node that is neither a loop nor a called function. -/
theorem Move.not_lexical (hmove : Move site n o) (hwell : n.WellKinded) (hn : n.Separate)
    (hloop : n.kind.isLoop = false) (hcalled : n.isCalledFunction = false) :
    ∀ m ∈ o.nodes, m.head.isLexical = false := by
  cases hmove with
  | recordConstant => exact nofun
  | recordArray => exact nofun
  | recordDeclaration => exact nofun
  | recordExpression => exact nofun
  | dropSelfAssignment => exact nofun
  | dropTimer => exact nofun
  | dropCall => exact nofun
  | pruneDeclaration => exact nofun
  | pruneCall => exact nofun
  | expandAnd => exact List.forall_mem_singleton.mpr rfl
  | expandOr => exact List.forall_mem_singleton.mpr rfl
  | readConstant => exact List.forall_mem_singleton.mpr rfl
  | addLiterals => exact List.forall_mem_singleton.mpr rfl
  | readElement => exact List.forall_mem_singleton.mpr rfl
  | chooseNothing => exact List.forall_mem_singleton.mpr rfl
  | chooseOperand _ hm =>
    obtain _ | ⟨-, _ | ⟨hc, _ | ⟨ha, -⟩⟩⟩ := hwell.self
    have hkind := kind_of_branch hm (maybe_of_one hc) (maybe_of_one ha)
    exact List.forall_mem_singleton.mpr (not_lexical_of_expression hkind)
  | @chooseBranch _ _ _ _ _ b _ _ hm =>
    obtain _ | ⟨-, _ | ⟨hc, _ | ⟨ha, -⟩⟩⟩ := hn
    refine List.forall_mem_singleton.mpr ?_
    cases b with
    | true => exact hc rfl _ hm
    | false => exact ha rfl _ hm
  | dissolveBranch _ _ _ _ hlexical =>
    rw [declaresLexical_eq, List.any_eq_false] at hlexical
    exact fun m hm => Bool.eq_false_iff.mpr (hlexical m hm)
  | spliceTimer _ _ _ _ _ _ hlexical =>
    rw [declaresLexical_eq, List.any_eq_false] at hlexical
    exact fun m hm => Bool.eq_false_iff.mpr (hlexical m hm)
  | @bareTimer t u v w x callee self body =>
    have hfn : (Node.functionExpression w self [] (some body)).Conforms :=
      hwell _ (by simp [walk, walkSlots, walkItems])
    obtain _ | ⟨-, _ | ⟨-, _ | ⟨hbody, -⟩⟩⟩ := hfn
    have hkind : body.kind = .blockStatement := beq_iff_eq.mp hbody
    obtain ⟨y, h, ss⟩ := body
    refine List.forall_mem_singleton.mpr ?_
    cases h <;> first | rfl | cases hkind
  | spliceCall => cases hcalled
  | unwrapDo => cases hloop
  | unwrapFor => cases hloop
  | unwrapBareFor => cases hloop

theorem Move.not_declarator (hmove : Move site n o) (hedit : ∀ fact, o ≠ .learn fact) :
    n.kind ≠ .variableDeclarator := by
  cases hmove with
  | recordConstant => exact absurd rfl (hedit _)
  | recordArray => exact absurd rfl (hedit _)
  | recordDeclaration => exact absurd rfl (hedit _)
  | recordExpression => exact absurd rfl (hedit _)
  | _ => exact nofun

end Rule

namespace Node

theorem separate_of_conforms {n : Node} (hn : n.Conforms)
    (hroles : ∀ d ∈ n.head.demands, d.role ≠ .statement) : n.Separate := by
  unfold Conforms at hn
  unfold Separate
  generalize n.head.demands = ds at hn hroles ⊢
  generalize n.slots = ss at hn ⊢
  induction hn with
  | nil => exact .nil
  | cons _ _ ih =>
    obtain ⟨hfirst, hrest⟩ := List.forall_mem_cons.mp hroles
    exact .cons (fun hrole => absurd hrole hfirst) (ih hrest)

theorem Bare.no_statement {n : Node} (hn : n.Bare) : ∀ d ∈ n.head.demands, d.role ≠ .statement := by
  intro d hd hrole
  have hinert := Head.isInert_demands hn.inert hn.outside d hd
  rw [hrole] at hinert
  cases hinert

end Node

namespace Rule

variable {site : Site} {n : Node} {o : Outcome}

theorem Made.separate {c : Node} (h : Made site n c) (hn : n.Conforms) : c.Separate := by
  refine separate_of_conforms (h.conforms hn) ?_
  cases h <;> simp [head, Head.demands, Demand.role, asStatement]

theorem Move.every_separate (hmove : Move site n o) (hwell : n.WellKinded)
    (hn : n.Every Separate) : ∀ c ∈ o.walk, c.Separate := by
  intro c hc
  rcases hmove.old_or_made hc with hold | hmade
  · exact hn c hold
  · exact hmade.separate hwell.self

theorem Expands.every_separate {arguments : List (Option Node)} {fn m : Node} {t : Tag}
    {callee : Node} (h : Expands arguments fn m) (hfn : fn.WellKinded)
    (hcall : (Node.callExpression t callee arguments).WellKinded)
    (hn : (Node.callExpression t callee arguments).Every Separate) : m.Every Separate := by
  have hm : m.WellKinded := (h.wellKinded hfn hcall).1
  -- each node is a copy of one of an argument, or it has no statements below it
  have hcases : m.Every fun c => c.Separate ∨ ∀ d ∈ c.head.demands, d.role ≠ .statement := by
    cases h with
    | mk hbody hblocks =>
      refine every_substitute (P := Bare) ?_ ?_ ?_ none _ (returned_bare hbody hblocks hfn)
      · intro p a ha
        have hcopy (a : Node) (ha : a.Every Separate) : a.unmarked.Every Separate :=
          every_relabel (separate_relabel unmarking_keepsHeads) none () a ha
        rcases (mem_bind ha).2 with hmem | rfl
        · have harg : some a ∈ arguments := by simpa using hmem
          exact (hcopy a (hn.below (mem_walk_of_argument harg))).mono fun _ hc => .inl hc
        · refine every_mk.mpr ⟨.inl .nil, everySlots_nil⟩
      · exact fun c hbare => .inr hbare.no_statement
      · exact fun t h ss hbare => .inr hbare.no_statement
  intro c hc
  rcases hcases c hc with hseparate | hroles
  · exact hseparate
  · exact separate_of_conforms (hm c hc) hroles

end Rule

structure Parted (tree : Node) (facts : Facts) : Prop where
  formed : Formed tree facts
  separate : tree.Every Separate

namespace Pass

variable {env : Env} {trail fs : Trail} {f : Frame} {n : Node} {facts : Facts} {o : Outcome}
  {l : Landing} {i : Nat}

structure Env.Wrapped (env : Env) : Prop where
  calls : Rule.callUnwrapping ∈ env.settings.disabledRules
  loops : Rule.loopUnwrapping ∈ env.settings.disabledRules

theorem Env.Wrapped.not_unwrapped (hwrapped : env.Wrapped) (hstandard : env.Standard)
    (hanswer : Answers env i trail facts n o) :
    n.kind.isLoop = false ∧ n.isCalledFunction = false := by
  obtain ⟨r, hr, hon, hkind, hanswer⟩ := hstandard.rule_of_answers hanswer
  obtain ⟨hloop, hcalled⟩ := Rule.name_of_answer hr hkind hanswer
  constructor
  · cases hn : n.kind.isLoop with
    | false => rfl
    | true => exact absurd hwrapped.loops (hloop hn ▸ hon)
  · cases hn : n.isCalledFunction with
    | false => rfl
    | true => exact absurd hwrapped.calls (hcalled hn ▸ hon)

theorem Env.Wrapped.answer_parted (hwrapped : env.Wrapped) (hstandard : env.Standard)
    (hanswer : Answers env i trail facts n o) (hedit : ∀ fact, o ≠ .learn fact)
    (hparted : Parted (trail.plug n) facts) :
    (∀ m ∈ o.nodes, m.head.isLexical = false) ∧ (∀ c ∈ o.walk, c.Separate) ∧
      n.kind ≠ .variableDeclarator := by
  have hwell : n.WellKinded := Trail.every_of_plug trail hparted.formed.tree
  have hn : n.Every Separate := Trail.every_of_plug trail hparted.separate
  obtain ⟨hloop, hcalled⟩ := hwrapped.not_unwrapped hstandard hanswer
  rcases hstandard.answers_cases hanswer with hmove | hinline
  · exact ⟨hmove.not_lexical hwell hn.self hloop hcalled, hmove.every_separate hwell hn,
      hmove.not_declarator hedit⟩
  · obtain ⟨t, callee, arguments, fn, m, rfl, hfn, hexpands, rfl⟩ :=
      Rule.expands_of_inlineReturn hinline
    have hcallee : callee ∈ (Node.callExpression t callee arguments).walk := by
      simp [walk, walkSlots, self_mem_walk]
    have hfn := Rule.every_called hfn hcallee hparted.formed.tree hparted.formed.recorded
    have hkind := (hexpands.wellKinded hfn hwell).2
    exact ⟨List.forall_mem_singleton.mpr (Rule.not_lexical_of_expression hkind),
      hexpands.every_separate hfn hwell hn, nofun⟩

theorem Lands.not_lexical (h : Lands f o l) (ho : ∀ m ∈ o.nodes, m.head.isLexical = false) :
    ∀ m ∈ l.nodes, m.head.isLexical = false := by
  cases h with
  | replace => exact ho
  | remove => exact nofun
  | splice => exact ho
  | lone => exact ho
  | nothing => exact List.forall_mem_singleton.mpr rfl
  | wrap => exact List.forall_mem_singleton.mpr rfl

theorem Lands.every_separate (h : Lands f o l) (ho : ∀ m ∈ o.nodes, m.head.isLexical = false)
    (hwalk : ∀ c ∈ o.walk, c.Separate) : ∀ m ∈ l.nodes, m.Every Separate := by
  intro m hm c hc
  rcases h.mem_walk hm hc with hold | rfl | ⟨ns, rfl, rfl⟩
  · exact hwalk c hold
  · exact .nil
  · have hempty : ns.flatMap lexicalNames = [] :=
      List.flatMap_eq_nil_iff.mpr fun m hm => lexicalNames_of_not (ho m hm)
    refine .cons (fun _ => ?_) .nil
    simp [Slot.Separate, List.filterMap_map, hempty]

theorem not_lexical_of_frame (hconforms : (f.plug n).Conforms)
    (hkind : n.kind ≠ .variableDeclarator) : f.head.isLexical = false := by
  obtain ⟨d, hd, hrole⟩ := Frame.exists_demand hconforms
  unfold Frame.demand? at hd
  generalize f.head = h at hd
  generalize f.before.length = j at hd
  cases h with
  | variableDeclaration kind =>
    have hd' : d = .many .declarator := by
      cases j with
      | zero => exact (Option.some.inj hd).symm
      | succ j => cases hd
    subst hd'
    exact absurd (beq_iff_eq.mp hrole) hkind
  | _ => rfl

theorem Env.Wrapped.keeps_parted (hwrapped : env.Wrapped) (hstandard : env.Standard) :
    env.Keeps Parted where
  learn hanswer hparted := ⟨hstandard.keeps_formed.learn hanswer hparted.formed, hparted.separate⟩
  leave hfunction hparted :=
    ⟨hstandard.keeps_formed.leave hfunction hparted.formed, hparted.separate⟩
  edit := by
    intro trail n facts i o l st hanswer hland hparted
    refine ⟨hstandard.keeps_formed.edit st hanswer hland hparted.formed, ?_⟩
    obtain ⟨f, fs, rfl, hlands, htakes, heq⟩ := edit_cases st hland
    obtain ⟨hlexical, hwalk, hkind⟩ :=
      hwrapped.answer_parted hstandard hanswer hlands.not_learn hparted
    have hconforms := (Frame.every_plug.mp (Trail.every_of_plug fs hparted.formed.tree)).1
    have hopen := hstandard.open_of_lands hanswer hlands hconforms
    rw [heq]
    refine Trail.every_exchange look (fun f c c' hcc => look_congr (f.view_plug hcc))
      (fun f c c' hcc => separate_congr (f.view_plug hcc)) htakes
      (Frame.look_plugAll hopen (not_lexical_of_frame hconforms hkind)) ?_ ?_ hparted.separate
    · refine Frame.separate_plugAll htakes fun m hm => ?_
      obtain ⟨k, hk, next, rfl⟩ := exists_of_mem_install hm
      rw [head_number]
      exact hlands.not_lexical hlexical k hk
    · intro m hm
      obtain ⟨k, hk, next, rfl⟩ := exists_of_mem_install hm
      exact every_number (separate_relabel numbering_keepsHeads)
        (hlands.every_separate hlexical hwalk k hk) next

end Pass
end Unravel
