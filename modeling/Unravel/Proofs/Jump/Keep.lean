import Unravel.Proofs.Grammar.Pass
import Unravel.Proofs.Jump.Context

/-! Passes keep every jump tied. Statements leave a function only without its `return`s, and a loop
only without jumps out of it; what is inlined is an expression and holds no jumps. -/

namespace Unravel

open Node

variable {s : Scope} {t : Tag} {h : Head} {ss : List (Slot Node)}

def Kind.isPlain (k : Kind) : Bool :=
  !k.isFunction && !k.isLoop && k != .labeledStatement && k != .switchStatement

namespace Scope

def clear (s : Scope) : Scope := { s with pending := [] }

theorem clear_le (s : Scope) : s.clear.Le s :=
  ⟨id, id, List.Subset.refl _, List.Subset.refl _, nofun⟩

theorem enter_plain (hplain : h.kind.isPlain = true) : s.enter h ss = s.clear := by
  simp only [Kind.isPlain, Bool.and_eq_true, Bool.not_eq_true', bne_iff_ne] at hplain
  obtain ⟨⟨⟨hfunction, hloop⟩, hlabel⟩, hswitch⟩ := hplain
  simp [enter, clear, hfunction, hloop, hlabel, hswitch]

end Scope

namespace Node

open Scope

theorem tied_leaf (hjump : isJump h.kind = false) : (Node.mk t h []).tied s = true :=
  tied_mk.mpr ⟨targets_of_not_jump hjump, nofun⟩

theorem tied_plain (hplain : h.kind.isPlain = true) (hjump : isJump h.kind = false) :
    (Node.mk t h ss).tied s = true ↔ ∀ c ∈ childrenOf ss, c.tied s.clear = true := by
  rw [tied_mk, enter_plain hplain, targets_of_not_jump hjump]
  exact and_iff_right rfl

theorem tied_of_clear {n : Node} (hn : n.tied s.clear = true) : n.tied s = true :=
  tied_of_le n s.clear_le (fun hin => .inl hin) hn

theorem tied_of_function {n c : Node} (hn : n.tied s = true) (hfunction : n.isFunction = true)
    (hc : c ∈ childrenOf n.slots) : c.tied { inFunction := true } = true := by
  have hchild := (tied_iff.mp hn).2 c hc
  rwa [enter_function hfunction] at hchild

theorem tied_of_no_return {c : Node} (hc : c.tied { inFunction := true } = true)
    (hreturn : ∀ d ∈ c.reach, d.kind ≠ .returnStatement) : c.tied s = true :=
  tied_of_le c ⟨by simp, by simp, List.nil_subset _, List.nil_subset _, List.nil_subset _⟩
    (fun _ => .inr hreturn) hc

theorem not_return_of_containsReturn {n : Node} (hn : n.containsReturn = false) :
    ∀ d ∈ reachSlots n.slots, d.kind ≠ .returnStatement := by
  simpa [containsReturn, scope] using hn

end Node

namespace Rule

open Scope

theorem tied_of_called {t u : Tag} {ss : List (Slot Node)} {c : Node}
    (hn : (Node.expressionStatement t (.mk u .callExpression ss)).tied s = true)
    (hc : c ∈ childrenOf ss) : c.tied s.clear = true := by
  rw [tied_plain rfl rfl] at hn
  have hcall := hn (.mk u .callExpression ss) (by simp [childrenOf_cons])
  rw [tied_plain rfl rfl] at hcall
  exact hcall c hc

theorem tied_statements {fn body : Node} {statements : List Node} (hfn : fn.tied s = true)
    (hfunction : fn.isFunction = true) (hbody : body ∈ childrenOf fn.slots)
    (hreturn : body.containsReturn = false) (hs : Node.statements (some body) = .ok statements) :
    ∀ m ∈ statements, ∀ s' : Scope, m.tied s' = true := by
  have hinside := tied_of_function hfn hfunction hbody
  have hnone := not_return_of_containsReturn hreturn
  obtain ⟨t, hd, items, hhead, rfl, rfl⟩ := statements_cases hs
  have hplain : hd.kind.isPlain = true := by
    rcases hhead with rfl | rfl <;> rfl
  intro m hm s'
  have hchild : m ∈ childrenOf [.many items] := by
    rw [childrenOf_cons, List.mem_append, Slot.mem_children_many]
    exact .inl (by simpa using hm)
  have hm' := (tied_mk.mp hinside).2 m hchild
  rw [enter_plain hplain] at hm'
  exact tied_of_no_return hm' fun d hd => hnone d (mem_reachSlots hchild hd)

theorem tied_unwrapped {t u : Tag} {h : Head} {ss : List (Slot Node)} {statement : Node}
    (hexit : (Node.blockStatement u [some statement]).hasLoopExit = false)
    (hfunction : h.kind.isFunction = false)
    (hblock : Node.blockStatement u [some statement] ∈ childrenOf ss)
    (hloop : (Node.mk t h ss).tied s = true) : statement.tied s.clear = true := by
  have hinside := (tied_mk.mp hloop).2 _ hblock
  rw [tied_plain rfl rfl] at hinside
  have hmem : statement ∈ childrenOf [.many [some statement]] := by simp [childrenOf_cons]
  refine tied_of_exits statement (exitsSlots_eq_false.mp hexit statement hmem) ⟨nofun, nofun⟩ ?_
    (hinside statement hmem)
  intro hin
  have hsame : (s.enter h ss).inFunction = s.inFunction := inFunction_enter hfunction
  exact .inl (hsame ▸ hin)

theorem tied_asStatement {e : Node} (hwell : e.WellKinded) (hinert : e.kind.isInert = true)
    {s' : Scope} (he : e.tied s = true) : (asStatement e).tied s' = true := by
  rw [asStatement, tied_plain rfl rfl]
  intro c hc
  simp only [childrenOf_cons, childrenOf_nil, List.append_nil, Slot.mem_children_one,
    Option.some.injEq] at hc
  subst hc
  exact tied_of_inert _ hwell hinert he

theorem tied_unrolled {t u : Tag} {statement : Node} {init update : Option Node} {test : Slot Node}
    (hexit : (Node.blockStatement u [some statement]).hasLoopExit = false)
    (hwell : (Node.mk t .forStatement [.one init, test, .one update,
      .one (some (.blockStatement u [some statement]))]).WellKinded)
    (hloop : (Node.mk t .forStatement [.one init, test, .one update,
      .one (some (.blockStatement u [some statement]))]).tied s = true) :
    ∀ m ∈ leadIn init ++ statement :: update.toList.map asStatement, m.tied s.clear = true := by
  intro m hm
  obtain _ | ⟨hinit, _ | ⟨-, _ | ⟨hupdate, -⟩⟩⟩ := hwell.self
  rw [List.mem_append, List.mem_cons] at hm
  rcases hm with hm | rfl | hm
  · cases init with
    | none => cases hm
    | some e =>
      have hmem : e ∈ childrenOf [.one (some e), test, .one update,
          .one (some (.blockStatement u [some statement]))] := by simp [childrenOf_cons]
      have he := (tied_mk.mp hloop).2 e hmem
      have hwell' : e.WellKinded := hwell.child hmem
      have hinert : e.kind.isInert = true := by
        have hstart : (Role.start).admits e.kind = true := hinit
        simp only [Role.admits, Bool.or_eq_true, beq_iff_eq] at hstart
        rcases hstart with hexpression | hdecl
        · exact Kind.isInert_of_isExpression hexpression
        · simp [Kind.isInert, hdecl]
      obtain ⟨hinit, -⟩ | ⟨e', hinit, ⟨-, hlead⟩ | ⟨-, hlead⟩⟩ := leadIn_cases (some e)
      · cases hinit
      · cases hinit
        rw [hlead, List.mem_singleton] at hm
        subst hm
        exact tied_of_inert _ hwell' hinert he
      · cases hinit
        rw [hlead, List.mem_singleton] at hm
        subst hm
        exact tied_asStatement hwell' hinert he
  · exact tied_unwrapped hexit rfl (by simp [childrenOf_cons]) hloop
  · obtain ⟨e, he, rfl⟩ := List.mem_map.mp hm
    cases Option.mem_toList.mp he
    have hmem : e ∈ childrenOf [.one init, test, .one (some e),
        .one (some (.blockStatement u [some statement]))] := by simp [childrenOf_cons]
    have hinert : e.kind.isInert = true := Kind.isInert_of_isExpression hupdate
    exact tied_asStatement (hwell.child hmem) hinert ((tied_mk.mp hloop).2 e hmem)

variable {site : Site} {n : Node} {o : Outcome}

theorem mem_childrenOf_branch {b : Bool} {consequent alternate : Option Node} {m : Node}
    (hm : (if b then consequent else alternate) = some m) (slot : Slot Node) :
    m ∈ childrenOf [slot, .one consequent, .one alternate] := by
  rcases branch_cases hm with rfl | rfl <;> simp [childrenOf_cons]

/-- What a move puts in the place of a tied node is tied there. -/
theorem Move.tied (hmove : Move site n o) (hwell : n.WellKinded) (hn : n.tied s = true) :
    ∀ m ∈ o.nodes, m.tied s.clear = true := by
  cases hmove with
  | recordConstant => exact nofun
  | recordArray => exact nofun
  | recordDeclaration => exact nofun
  | recordExpression => exact nofun
  | dropSelfAssignment => exact nofun
  | dropTimer => exact nofun
  | dropCall => exact nofun
  | pruneDeclaration => exact nofun
  | pruneCall => exact nofun
  | readConstant => exact List.forall_mem_singleton.mpr (tied_leaf rfl)
  | addLiterals => exact List.forall_mem_singleton.mpr (tied_leaf rfl)
  | readElement => exact List.forall_mem_singleton.mpr (tied_leaf rfl)
  | chooseNothing => exact List.forall_mem_singleton.mpr (tied_leaf rfl)
  | expandAnd =>
    rw [tied_plain rfl rfl] at hn
    refine List.forall_mem_singleton.mpr ((tied_plain rfl rfl).mpr fun c hc => ?_)
    simp only [childrenOf_cons, childrenOf_nil, List.mem_append] at hc hn
    rcases hc with hc | hc | hc | hc
    · exact hn c (.inl hc)
    · exact hn c (.inr (.inl hc))
    · cases Slot.mem_children_one.mp hc
      exact tied_leaf rfl
    · cases hc
  | expandOr =>
    rw [tied_plain rfl rfl] at hn
    refine List.forall_mem_singleton.mpr ((tied_plain rfl rfl).mpr fun c hc => ?_)
    simp only [childrenOf_cons, childrenOf_nil, List.mem_append] at hc hn
    rcases hc with hc | hc | hc | hc
    · exact hn c (.inl hc)
    · cases Slot.mem_children_one.mp hc
      exact tied_leaf rfl
    · exact hn c (.inr (.inl hc))
    · cases hc
  | chooseOperand _ hm =>
    rw [tied_plain rfl rfl] at hn
    exact List.forall_mem_singleton.mpr (hn _ (mem_childrenOf_branch hm _))
  | chooseBranch _ hm =>
    rw [tied_plain rfl rfl] at hn
    exact List.forall_mem_singleton.mpr (hn _ (mem_childrenOf_branch hm _))
  | dissolveBranch _ hm =>
    rw [tied_plain rfl rfl] at hn
    have hblock := hn _ (mem_childrenOf_branch hm _)
    rw [tied_plain rfl rfl] at hblock
    intro m hm
    refine hblock m ?_
    rw [childrenOf_cons, List.mem_append, Slot.mem_children_many]
    exact .inl (by simpa [Outcome.nodes] using hm)
  | @spliceTimer t u v w x callee self body delay statements _ _ hreturn _ _ hs =>
    have hfn : (Node.functionExpression w self [] (some body)).tied s.clear = true :=
      tied_of_called hn (by simp [childrenOf_cons])
    have hall := tied_statements hfn rfl (by simp [slots, childrenOf_cons]) hreturn hs
    exact fun m hm => hall m hm _
  | @bareTimer t u v w x callee self body delay _ _ hreturn =>
    have hfn : (Node.functionExpression w self [] (some body)).tied s.clear = true :=
      tied_of_called hn (by simp [childrenOf_cons])
    have hconforms : (Node.functionExpression w self [] (some body)).Conforms :=
      hwell _ (by simp [walk, walkSlots, walkItems])
    obtain _ | ⟨-, _ | ⟨-, _ | ⟨hkind, -⟩⟩⟩ := hconforms
    have hblock : body.kind = .blockStatement := beq_iff_eq.mp hkind
    refine List.forall_mem_singleton.mpr (tied_of_no_return
      (tied_of_function hfn rfl (by simp [slots, childrenOf_cons])) ?_)
    intro d hd
    obtain ⟨y, hd', ss⟩ := body
    rw [reach, List.mem_cons] at hd
    rcases hd with rfl | hd
    · rw [hblock]
      exact nofun
    · split at hd
      · cases hd
      · exact not_return_of_containsReturn hreturn d hd
  | @spliceCall t u w self body statements kept _ hreturn _ _ hs hkept =>
    have hfn : (Node.functionExpression w self [] (some body)).tied s.clear = true :=
      tied_of_called hn (by simp [childrenOf_cons])
    have hall := tied_statements hfn rfl (by simp [slots, childrenOf_cons]) hreturn hs
    have hless : kept ⊆ statements := hkept ▸ (List.dropWhile_sublist isDirective).subset
    exact fun m hm => hall m (hless hm) _
  | unwrapDo hexit =>
    refine List.forall_mem_singleton.mpr (tied_unwrapped hexit rfl ?_ hn)
    simp [childrenOf_cons]
  | unwrapFor hexit => exact tied_unrolled hexit hwell hn
  | unwrapBareFor hexit _ hone =>
    have hall := tied_unrolled hexit hwell hn
    rw [hone] at hall
    exact hall

/-! What is inlined holds no jumps. -/

theorem substitute_tied {b : Binding} (hb : ∀ p a, (p, a) ∈ b → ∀ s : Scope, a.tied s = true)
    (n : Node) : n.Every Bare →
    ∀ (seat : Option Seat) (s : Scope), (substitute b seat n).tied s = true := by
  induction n with
  | h t h ss ih =>
    intro hbare seat s
    rcases substitute_cases b seat (.mk t h ss) with ⟨name, a, -, -, ha, heq⟩ | ⟨-, heq⟩ |
      ⟨t', h', ss', hshape, heq⟩
    · rw [heq]
      exact tied_unmarked (hb name a (mem_of_get? ha) s)
    · rw [heq]
      exact tied_of_bare _ hbare s
    · cases hshape
      rw [heq]
      have hjump : isJump h.kind = false := Kind.isJump_of_isInert hbare.self.inert
      refine tied_mk.mpr ⟨targets_of_not_jump hjump, fun c hc => ?_⟩
      obtain ⟨d, hd, seat', rfl⟩ := mem_childrenOf_substituteSlots hc
      exact ih d hd (hbare.child hd) seat' _

theorem bind_tied {t : Tag} {callee : Node} {arguments : List (Option Node)} {names : List String}
    (hwell : (Node.callExpression t callee arguments).WellKinded)
    (hcall : (Node.callExpression t callee arguments).tied s = true) :
    ∀ p a, (p, a) ∈ bind names (arguments.filterMap id) → ∀ s' : Scope, a.tied s' = true := by
  intro p a ha s'
  obtain ⟨hexpression, hwell'⟩ := bind_wellKinded hwell p a ha
  rcases (mem_bind ha).2 with hmem | rfl
  · rw [tied_plain rfl rfl] at hcall
    have hitem : some a ∈ arguments := by simpa using hmem
    refine tied_of_inert a hwell' (Kind.isInert_of_isExpression hexpression) (hcall a ?_)
    simp [childrenOf_cons, hitem]
  · exact tied_leaf rfl

theorem Expands.tied {arguments : List (Option Node)} {fn m : Node} {t : Tag} {callee : Node}
    (h : Expands arguments fn m) (hfn : fn.WellKinded)
    (hwell : (Node.callExpression t callee arguments).WellKinded)
    (hcall : (Node.callExpression t callee arguments).tied s = true) (s' : Scope) :
    m.tied s' = true := by
  cases h with
  | @mk t' u hd self body result params name names hbody hblocks =>
    exact substitute_tied (bind_tied hwell hcall) _ (returned_bare hbody hblocks hfn) none s'

end Rule

structure Moored (tree : Node) (facts : Facts) : Prop where
  formed : Formed tree facts
  tied : tree.tied {} = true

namespace Pass

open Scope

variable {env : Env} {trail : Trail} {f : Frame} {fs : Trail} {n : Node} {facts : Facts}
  {o : Outcome} {l : Landing} {i : Nat}

theorem Env.Standard.answer_tied (hstandard : env.Standard)
    (hanswer : Answers env i trail facts n o) (hformed : Formed (trail.plug n) facts)
    (hn : n.tied s = true) : ∀ m ∈ o.nodes, m.tied s.clear = true := by
  have hwell : n.WellKinded := Trail.every_of_plug trail hformed.tree
  rcases hstandard.answers_cases hanswer with hmove | hinline
  · exact hmove.tied hwell hn
  · obtain ⟨t, callee, arguments, fn, m, rfl, hcalled, hexpands, rfl⟩ :=
      Rule.expands_of_inlineReturn hinline
    have hcallee : callee ∈ (Node.callExpression t callee arguments).walk := by
      simp [walk, walkSlots, self_mem_walk]
    have hfn := Rule.every_called hcalled hcallee hformed.tree hformed.recorded
    exact List.forall_mem_singleton.mpr (hexpands.tied hfn hwell hn _)

theorem Lands.tied (h : Lands f o l) (ho : ∀ m ∈ o.nodes, m.tied s.clear = true) :
    ∀ m ∈ l.nodes, m.tied s = true := by
  cases h with
  | replace => exact fun m hm => tied_of_clear (ho m hm)
  | remove => exact nofun
  | splice => exact fun m hm => tied_of_clear (ho m hm)
  | lone => exact fun m hm => tied_of_clear (ho m hm)
  | nothing => exact List.forall_mem_singleton.mpr (tied_leaf rfl)
  | wrap =>
    refine List.forall_mem_singleton.mpr ((tied_plain rfl rfl).mpr fun c hc => ho c ?_)
    simpa [childrenOf_cons, Outcome.nodes] using hc

theorem Env.Standard.keeps_moored (hstandard : env.Standard) : env.Keeps Moored where
  learn hanswer hmoored := ⟨hstandard.keeps_formed.learn hanswer hmoored.formed, hmoored.tied⟩
  leave hfunction hmoored := ⟨hstandard.keeps_formed.leave hfunction hmoored.formed, hmoored.tied⟩
  edit := by
    intro trail n facts i o l st hanswer hland hmoored
    refine ⟨hstandard.keeps_formed.edit st hanswer hland hmoored.formed, ?_⟩
    obtain ⟨f, fs, rfl, hlands, htakes, heq⟩ := edit_cases st hland
    have hconforms := (Frame.every_plug.mp (Trail.every_of_plug fs hmoored.formed.tree)).1
    have hopen := hstandard.open_of_lands hanswer hlands hconforms
    rw [heq]
    refine Trail.tied_plug fs (c := f.plug n) rfl (fun s hs => ?_) hmoored.tied
    refine hopen.tied_plugAll htakes (fun s hn m hm => ?_) hs
    obtain ⟨k, hk, next, rfl⟩ := exists_of_mem_install hm
    exact tied_number (hlands.tied (hstandard.answer_tied hanswer hmoored.formed hn) k hk) next

end Pass
end Unravel
