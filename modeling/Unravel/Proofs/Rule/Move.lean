import Unravel.Rule.Catalog

/-! Everything that the standard rules can do at a node, inlining apart, as one relation. What a
rule keeps or removes is argued by cases on it; the rules themselves are opened here only. -/

namespace Unravel

theorem bind_eq_ok {α β : Type} {x : Except Fault α} {f : α → Except Fault β} {b : β} :
    (x >>= f) = .ok b ↔ ∃ a, x = .ok a ∧ f a = .ok b := by
  cases x with
  | error e => simp [bind, Except.bind]
  | ok a => simp [bind, Except.bind]

theorem pure_eq_ok {α : Type} {a b : α} : (pure a : Except Fault α) = .ok b ↔ b = a := by
  simp only [pure, Except.pure, Except.ok.injEq, eq_comm]

namespace Rule

abbrev inlining : String := "inline_trivial_return"

/-- A rule other than inlining may answer with this outcome at this node. -/
inductive Move (site : Site) : Node → Outcome → Prop
  | dropSelfAssignment {t u v w : Tag} {name : String} :
    Move site (.expressionStatement t
      (.assignmentExpression u "=" (.identifier v name) (.identifier w name))) .remove
  | expandAnd {t : Tag} {left right : Slot Node} :
    Move site (.mk t (.logicalExpression "&&") [left, right])
      (.replace (.mk (.fresh t.loc) .conditionalExpression
        [left, right, .one (some (.literal (.fresh none) (.bool false)))]))
  | expandOr {t : Tag} {left right : Slot Node} :
    Move site (.mk t (.logicalExpression "||") [left, right])
      (.replace (.mk (.fresh t.loc) .conditionalExpression
        [left, .one (some (.literal (.fresh none) (.bool true))), right]))
  | recordConstant {t u w : Tag} {name : String} {ss ss' : List (Slot Node)} {v : Value} :
    site.isConstantName name = true →
    Move site (.variableDeclarator t (some (.mk u (.identifier name) ss))
      (some (.mk w (.literal v) ss'))) (.learn (.constant name v))
  | recordArray {t u w : Tag} {name : String} {ss : List (Slot Node)}
      {elements : List (Option Node)} {values : List Value} :
    site.isConstantName name = true →
    literalElements site.settings.partialArrays elements = some values →
    Move site (.variableDeclarator t (some (.mk u (.identifier name) ss))
      (some (.arrayExpression w elements))) (.learn (.array name values))
  | recordDeclaration {t u : Tag} {name : String} {ss : List (Slot Node)}
      {params : List (Option Node)} {body : Option Node} {result : Option Node} :
    site.isConstantName name = true →
    singleReturn? (.functionDeclaration t (some (.mk u (.identifier name) ss)) params body)
      = .ok (some result) →
    Move site (.functionDeclaration t (some (.mk u (.identifier name) ss)) params body)
      (.learn (.function name
        (.functionDeclaration t (some (.mk u (.identifier name) ss)) params body)))
  | recordExpression {t u w : Tag} {name : String} {ss : List (Slot Node)} {self : Option Node}
      {params : List (Option Node)} {body : Option Node} {result : Option Node} :
    site.isConstantName name = true →
    singleReturn? (.functionExpression w self params body) = .ok (some result) →
    Move site (.variableDeclarator t (some (.mk u (.identifier name) ss))
        (some (.functionExpression w self params body)))
      (.learn (.function name (.functionExpression w self params body)))
  | readConstant {t : Tag} {name : String} {v : Value} :
    isReference site.seat? = true → isWriteTarget site.seat? = false →
    site.isConstantName name = true → site.facts.constants.get? name = some v →
    Move site (.identifier t name) (.replace (.literal (.fresh t.loc) v))
  | addLiterals {t u w : Tag} {a b v : Value} :
    a.add b = .ok v →
    Move site (.binaryExpression t "+" (.literal u a) (.literal w b))
      (.replace (.literal (.fresh t.loc) v))
  | chooseOperand {t u : Tag} {test : Value} {consequent alternate : Option Node} {b : Bool}
      {m : Node} :
    test.truthy = .ok b → (if b then consequent else alternate) = some m →
    Move site (.mk t .conditionalExpression
      [.one (some (.literal u test)), .one consequent, .one alternate]) (.replace m)
  | chooseNothing {t u : Tag} {test : Value} {consequent alternate : Option Node} {b : Bool} :
    test.truthy = .ok b → (if b then consequent else alternate) = none →
    Move site (.mk t .ifStatement
      [.one (some (.literal u test)), .one consequent, .one alternate])
      (.replace (.emptyStatement (.fresh t.loc)))
  | chooseBranch {t u : Tag} {test : Value} {consequent alternate : Option Node} {b : Bool}
      {m : Node} :
    test.truthy = .ok b → (if b then consequent else alternate) = some m →
    Move site (.mk t .ifStatement
      [.one (some (.literal u test)), .one consequent, .one alternate]) (.replace m)
  | dissolveBranch {t u w : Tag} {test : Value} {consequent alternate : Option Node} {b : Bool}
      {body : List (Option Node)} :
    test.truthy = .ok b →
    (if b then consequent else alternate) = some (.blockStatement w body) →
    site.settings.spliceBlocks = true → site.inSequence = true →
    declaresLexical (body.filterMap id) = false →
    Move site (.mk t .ifStatement
      [.one (some (.literal u test)), .one consequent, .one alternate])
      (.splice (body.filterMap id))
  | spliceTimer {t u v w x : Tag} {callee : String} {self : Option Node} {body : Node}
      {delay : Number} {statements : List Node} :
    site.settings.deferredCallees.contains callee = true → delay.isZero = true →
    body.containsReturn = false → body.usesFunctionContext = false →
    site.inSequence = true → Node.statements (some body) = .ok statements →
    declaresLexical statements = false → statements ≠ [] →
    Move site (.expressionStatement t (.callExpression u (.identifier v callee)
      [some (.functionExpression w self [] (some body)), some (.literal x (.number delay))]))
      (.splice statements)
  | dropTimer {t u v w x : Tag} {callee : String} {self : Option Node} {body : Node}
      {delay : Number} :
    site.settings.deferredCallees.contains callee = true → delay.isZero = true →
    body.containsReturn = false → body.usesFunctionContext = false →
    site.inSequence = true → Node.statements (some body) = .ok [] →
    Move site (.expressionStatement t (.callExpression u (.identifier v callee)
      [some (.functionExpression w self [] (some body)), some (.literal x (.number delay))]))
      .remove
  | bareTimer {t u v w x : Tag} {callee : String} {self : Option Node} {body : Node}
      {delay : Number} :
    site.settings.deferredCallees.contains callee = true → delay.isZero = true →
    body.containsReturn = false → body.usesFunctionContext = false →
    (site.inSequence = true →
      ∃ statements, Node.statements (some body) = .ok statements ∧
        declaresLexical statements = true) →
    Move site (.expressionStatement t (.callExpression u (.identifier v callee)
      [some (.functionExpression w self [] (some body)), some (.literal x (.number delay))]))
      (.replace body)
  | readElement {t u w : Tag} {name : String} {index : Value} {values : List Value} {i : Int} :
    isWriteTarget site.seat? = false → site.isConstantName name = true →
    site.facts.arrays.get? name = some values → index.arrayIndex? = .ok (some i) →
    Move site (.memberExpression t true (.identifier u name) (.literal w index))
      (.replace (.literal (.fresh t.loc)
        (if 0 ≤ i then values.getD i.toNat .undefined else .undefined)))
  | spliceCall {t u w : Tag} {self : Option Node} {body : Node} {statements kept : List Node} :
    site.inSequence = true → body.containsReturn = false → body.usesFunctionContext = false →
    mentionsSelf self body = .ok false → Node.statements (some body) = .ok statements →
    statements.dropWhile isDirective = kept → kept ≠ [] →
    Move site (.expressionStatement t
      (.callExpression u (.functionExpression w self [] (some body)) [])) (.splice kept)
  | dropCall {t u w : Tag} {self : Option Node} {body : Node} {statements : List Node} :
    site.inSequence = true → body.containsReturn = false → body.usesFunctionContext = false →
    mentionsSelf self body = .ok false → Node.statements (some body) = .ok statements →
    statements.dropWhile isDirective = [] →
    Move site (.expressionStatement t
      (.callExpression u (.functionExpression w self [] (some body)) [])) .remove
  | unwrapDo {t u : Tag} {statement : Node} {test : Slot Node} :
    (Node.blockStatement u [some statement]).hasLoopExit = false →
    Loop.executesOnce (.mk t .doWhileStatement
      [.one (some (.blockStatement u [some statement])), test]) = .ok true →
    Move site (.mk t .doWhileStatement
      [.one (some (.blockStatement u [some statement])), test]) (.replace statement)
  | unwrapFor {t u : Tag} {statement : Node} {init update : Option Node} {test : Slot Node} :
    (Node.blockStatement u [some statement]).hasLoopExit = false →
    Loop.executesOnce (.mk t .forStatement [.one init, test, .one update,
      .one (some (.blockStatement u [some statement]))]) = .ok true →
    Move site (.mk t .forStatement [.one init, test, .one update,
      .one (some (.blockStatement u [some statement]))])
      (.splice (leadIn init ++ statement :: update.toList.map asStatement))
  | unwrapBareFor {t u : Tag} {statement m : Node} {init update : Option Node} {test : Slot Node} :
    (Node.blockStatement u [some statement]).hasLoopExit = false →
    Loop.executesOnce (.mk t .forStatement [.one init, test, .one update,
      .one (some (.blockStatement u [some statement]))]) = .ok true →
    leadIn init ++ statement :: update.toList.map asStatement = [m] →
    Move site (.mk t .forStatement [.one init, test, .one update,
      .one (some (.blockStatement u [some statement]))]) (.replace m)
  | pruneDeclaration {t : Tag} {kind name : String} {declarator : Option Node}
      {declarators : List (Option Node)} :
    Node.declaredName declarator = .ok name → site.settings.prunedNames.contains name = true →
    Move site (.variableDeclaration t kind (declarator :: declarators)) .remove
  | pruneCall {t u v : Tag} {callee : String} {ss : List (Slot Node)} :
    site.settings.prunedNames.contains callee = true →
    Move site (.expressionStatement t
      (.mk u .callExpression (.one (some (.identifier v callee)) :: ss))) .remove

variable {site : Site} {n : Node} {o : Outcome}

theorem nameOf_eq_ok {id : Option Node} {name : String} :
    nameOf id = .ok name ↔ ∃ u ss, id = some (.mk u (.identifier name) ss) := by
  unfold nameOf
  split
  · simp
  · rename_i h
    constructor
    · simp
    · rintro ⟨u, ss, rfl⟩
      exact absurd rfl (h _ _ _)

theorem move_of_selfAssignment (h : selfAssignment site n = .ok (some o)) : Move site n o := by
  unfold selfAssignment at h
  split at h
  · simp only [Except.ok.injEq, Option.ite_none_right_eq_some, beq_iff_eq, Option.some.injEq] at h
    obtain ⟨rfl, rfl⟩ := h
    exact .dropSelfAssignment
  · simp at h

theorem move_of_logicalToConditional (h : logicalToConditional site n = .ok (some o)) :
    Move site n o := by
  unfold logicalToConditional at h
  split at h
  · cases h
    exact .expandAnd
  · cases h
    exact .expandOr
  · cases h

theorem move_of_captureDeclarator (h : captureDeclarator site n = .ok (some o)) :
    Move site n o := by
  unfold captureDeclarator at h
  split at h
  · obtain ⟨name, hname, hrest⟩ := bind_eq_ok.mp h
    obtain ⟨u, ss, rfl⟩ := nameOf_eq_ok.mp hname
    clear h
    cases hconst : site.isConstantName name with
    | false =>
      rw [hconst] at hrest
      cases hrest
    | true =>
      rw [hconst] at hrest
      simp only [Bool.not_true, Bool.false_eq_true, if_false] at hrest
      split at hrest
      · cases hrest
        exact .recordConstant hconst
      · rename_i elements
        cases hv : literalElements site.settings.partialArrays elements with
        | none =>
          rw [hv] at hrest
          cases hrest
        | some values =>
          rw [hv] at hrest
          cases hrest
          exact .recordArray hconst hv
      · cases hrest
  · cases h

theorem move_of_substituteIdentifier (h : substituteIdentifier site n = .ok (some o)) :
    Move site n o := by
  unfold substituteIdentifier at h
  split at h
  · split at h
    · cases h
    · rename_i t name hguard
      cases hv : site.facts.constants.get? name with
      | none =>
        rw [hv] at h
        cases h
      | some v =>
        rw [hv] at h
        cases h
        simp only [Bool.or_eq_true, Bool.not_eq_true', not_or, Bool.not_eq_false,
          Bool.not_eq_true] at hguard
        exact .readConstant hguard.1.1 hguard.1.2 hguard.2 hv
  · cases h

theorem move_of_foldPlus (h : foldPlus site n = .ok (some o)) : Move site n o := by
  unfold foldPlus at h
  split at h
  · obtain ⟨v, hv, h⟩ := bind_eq_ok.mp h
    cases h
    exact .addLiterals hv
  · cases h

theorem move_of_simplifyConditional (h : simplifyConditional site n = .ok (some o)) :
    Move site n o := by
  unfold simplifyConditional at h
  split at h
  · rename_i t test consequent alternate
    obtain ⟨b, hb, hrest⟩ := bind_eq_ok.mp h
    generalize hm : (if b = true then consequent else alternate) = branch at hrest
    cases branch with
    | none => cases hrest
    | some m =>
      cases hrest
      exact .chooseOperand hb hm
  · rename_i t u test consequent alternate
    obtain ⟨b, hb, hrest⟩ := bind_eq_ok.mp h
    dsimp only at hrest
    generalize hm : (if b = true then consequent else alternate) = branch at hrest
    split at hrest
    · cases hrest
      exact .chooseNothing hb hm
    · split at hrest
      · rename_i hsplice
        cases hrest
        simp only [Bool.and_eq_true, Bool.not_eq_true'] at hsplice
        exact .dissolveBranch hb hm hsplice.1.1 hsplice.1.2 hsplice.2
      · cases hrest
        exact .chooseBranch hb hm
    · cases hrest
      exact .chooseBranch hb hm
  · cases h

theorem move_of_inlineTimer (h : inlineTimer site n = .ok (some o)) : Move site n o := by
  unfold inlineTimer at h
  split at h
  · split at h
    · cases h
    · rename_i hguard
      simp only [Bool.or_eq_true, Bool.not_eq_true', not_or, Bool.not_eq_false] at hguard
      split at h
      · split at h
        · cases h
        · rename_i body hscope
          simp only [Bool.or_eq_true, not_or, Bool.not_eq_true] at hscope
          cases hseq : site.inSequence with
          | false =>
            simp only [hseq] at h
            cases h
            refine .bareTimer hguard.1 hguard.2 hscope.1 hscope.2 ?_
            simp [hseq]
          | true =>
            simp only [hseq, if_true] at h
            obtain ⟨statements, hs, hrest⟩ := bind_eq_ok.mp h
            cases hlex : declaresLexical statements with
            | true =>
              simp only [hlex] at hrest
              cases hrest
              exact .bareTimer hguard.1 hguard.2 hscope.1 hscope.2 fun _ => ⟨statements, hs, hlex⟩
            | false =>
              simp only [hlex] at hrest
              cases statements with
              | nil =>
                cases hrest
                exact .dropTimer hguard.1 hguard.2 hscope.1 hscope.2 hseq hs
              | cons s ss =>
                cases hrest
                exact .spliceTimer hguard.1 hguard.2 hscope.1 hscope.2 hseq hs hlex
                  (List.cons_ne_nil s ss)
      · cases h
  · cases h

theorem move_of_captureFunction (h : captureFunction site n = .ok (some o)) : Move site n o := by
  have hcapture {name : String} {fn : Node}
      (h : captureFunction.capture site name fn = .ok (some o)) :
      site.isConstantName name = true ∧ (∃ result, singleReturn? fn = .ok (some result)) ∧
        o = .learn (.function name fn) := by
    unfold captureFunction.capture at h
    cases hconst : site.isConstantName name with
    | false =>
      rw [hconst] at h
      cases h
    | true =>
      rw [hconst] at h
      obtain ⟨result, hresult, hrest⟩ := bind_eq_ok.mp h
      cases result with
      | none => cases hrest
      | some result =>
        cases hrest
        exact ⟨rfl, ⟨result, hresult⟩, rfl⟩
  unfold captureFunction at h
  split at h
  · obtain ⟨name, hname, hrest⟩ := bind_eq_ok.mp h
    obtain ⟨u, ss, rfl⟩ := nameOf_eq_ok.mp hname
    obtain ⟨hconst, ⟨result, hresult⟩, rfl⟩ := hcapture hrest
    exact .recordDeclaration hconst hresult
  · obtain ⟨name, hname, hrest⟩ := bind_eq_ok.mp h
    obtain ⟨u, ss, rfl⟩ := nameOf_eq_ok.mp hname
    obtain ⟨hconst, ⟨result, hresult⟩, rfl⟩ := hcapture hrest
    exact .recordExpression hconst hresult
  · cases h

theorem move_of_foldArrayMember (h : foldArrayMember site n = .ok (some o)) : Move site n o := by
  unfold foldArrayMember at h
  split at h
  · split at h
    · cases h
    · rename_i hguard
      split at h
      · cases h
      · rename_i values hvalues
        obtain ⟨i, hi, hrest⟩ := bind_eq_ok.mp h
        cases i with
        | none => cases hrest
        | some i =>
          cases hrest
          simp only [Bool.or_eq_true, Bool.not_eq_true', not_or, Bool.not_eq_false,
            Bool.not_eq_true] at hguard
          exact .readElement hguard.1 hguard.2 hvalues hi
  · cases h

theorem move_of_unwrapCall (h : unwrapCall site n = .ok (some o)) : Move site n o := by
  unfold unwrapCall at h
  split at h
  · cases hseq : site.inSequence with
    | false =>
      rw [hseq] at h
      cases h
    | true =>
      rw [hseq] at h
      simp only [Bool.not_true, Bool.false_eq_true, if_false] at h
      split at h
      · split at h
        · cases h
        · rename_i body hscope
          simp only [Bool.or_eq_true, not_or, Bool.not_eq_true] at hscope
          obtain ⟨b, hb, hrest⟩ := bind_eq_ok.mp h
          cases b with
          | true => cases hrest
          | false =>
            obtain ⟨statements, hs, hlast⟩ := bind_eq_ok.mp hrest
            generalize hd : statements.dropWhile isDirective = kept at hlast
            cases kept with
            | nil =>
              cases hlast
              exact .dropCall hseq hscope.1 hscope.2 hb hs hd
            | cons s ss =>
              cases hlast
              exact .spliceCall hseq hscope.1 hscope.2 hb hs hd (List.cons_ne_nil s ss)
      · cases h
  · cases h

theorem move_of_unwrapLoop (h : unwrapLoop site n = .ok (some o)) : Move site n o := by
  unfold unwrapLoop at h
  split at h
  · dsimp only at h
    split at h
    · cases h
    · rename_i hexit
      obtain ⟨b, hb, hrest⟩ := bind_eq_ok.mp h
      cases b with
      | false => cases hrest
      | true =>
        cases hrest
        exact .unwrapDo (by simpa using hexit) hb
  · dsimp only at h
    split at h
    · cases h
    · rename_i hexit
      obtain ⟨b, hb, hrest⟩ := bind_eq_ok.mp h
      cases b with
      | false => cases hrest
      | true =>
        simp only [Bool.not_true, Bool.false_eq_true, if_false] at hrest
        split at hrest
        · rename_i hone
          cases hrest
          exact .unwrapBareFor (by simpa using hexit) hb hone
        · cases hrest
          exact .unwrapFor (by simpa using hexit) hb
  · cases h

theorem move_of_pruneNamed (h : pruneNamed site n = .ok (some o)) : Move site n o := by
  unfold pruneNamed at h
  dsimp only at h
  split at h
  · cases h
  · split at h
    · obtain ⟨name, hname, hrest⟩ := bind_eq_ok.mp h
      split at hrest
      · rename_i hmem
        cases hrest
        exact .pruneDeclaration hname hmem
      · cases hrest
    · split at h
      · rename_i hmem
        cases h
        exact .pruneCall hmem
      · cases h
    · cases h

/-- What a standard rule answers is a move, or the rule inlines a call. -/
theorem move_or_inline {r : Rule} (hr : r ∈ standard)
    (h : r.transform site n = .ok (some o)) :
    Move site n o ∨ r.name = inlining ∧ inlineReturn site n = .ok (some o) := by
  simp only [standard, List.mem_cons, List.not_mem_nil, or_false] at hr
  rcases hr with rfl | rfl | rfl | rfl | rfl | rfl | rfl | rfl | rfl | rfl | rfl | rfl | rfl
  · exact .inl (move_of_selfAssignment h)
  · exact .inl (move_of_logicalToConditional h)
  · exact .inl (move_of_captureDeclarator h)
  · exact .inl (move_of_substituteIdentifier h)
  · exact .inl (move_of_foldPlus h)
  · exact .inl (move_of_simplifyConditional h)
  · exact .inl (move_of_inlineTimer h)
  · exact .inl (move_of_captureFunction h)
  · exact .inr ⟨rfl, h⟩
  · exact .inl (move_of_foldArrayMember h)
  · exact .inl (move_of_unwrapCall h)
  · exact .inl (move_of_unwrapLoop h)
  · exact .inl (move_of_pruneNamed h)

/-! What the moves choose from. -/

theorem branch_cases {b : Bool} {consequent alternate : Option Node} {m : Node}
    (h : (if b then consequent else alternate) = some m) :
    consequent = some m ∨ alternate = some m := by
  cases b with
  | true => exact .inl h
  | false => exact .inr h

theorem statements_cases {body : Node} {statements : List Node}
    (h : Node.statements (some body) = .ok statements) :
    ∃ t hd items, (hd = .blockStatement ∨ hd = .program) ∧ body = .mk t hd [.many items] ∧
      statements = items.filterMap id := by
  unfold Node.statements at h
  split at h
  · rename_i items heq
    cases heq
    cases h
    exact ⟨_, _, items, .inl rfl, rfl, rfl⟩
  · rename_i items heq
    cases heq
    cases h
    exact ⟨_, _, items, .inr rfl, rfl, rfl⟩
  · cases h

theorem leadIn_cases (init : Option Node) :
    (init = none ∧ leadIn init = []) ∨ ∃ e, init = some e ∧
      (e.kind = .variableDeclaration ∧ leadIn init = [e] ∨
        e.kind ≠ .variableDeclaration ∧ leadIn init = [asStatement e]) := by
  unfold leadIn
  split
  · exact .inl ⟨rfl, rfl⟩
  · exact .inr ⟨_, rfl, .inl ⟨rfl, rfl⟩⟩
  · rename_i e hdecl
    refine .inr ⟨e, rfl, .inr ⟨?_, rfl⟩⟩
    obtain ⟨t, hd, ss⟩ := e
    intro hkind
    cases hd <;> cases hkind
    exact hdecl _ _ _ rfl

end Rule
end Unravel
