import Unravel.Proofs.Grammar.Pass
import Unravel.Proofs.Pass.Exact
import Unravel.Proofs.Pass.Marks

/-! Rules give an answer at every node of a well-kinded tree with exact literals. The one thing that
they may refuse is a text of too many digits as an index. -/

namespace Unravel

open Node

def Defined {α : Type} (x : Except Fault α) : Prop := ∃ a, x = .ok a

namespace Defined

variable {α β : Type}

theorem ok (a : α) : Defined (.ok a : Except Fault α) := ⟨a, rfl⟩

theorem bind {x : Except Fault α} {f : α → Except Fault β} (hx : Defined x)
    (hf : ∀ a, x = .ok a → Defined (f a)) : Defined (x >>= f) := by
  obtain ⟨a, rfl⟩ := hx
  exact hf a rfl

theorem ite {c : Prop} [Decidable c] {x y : Except Fault α} (hx : Defined x)
    (hy : Defined y) : Defined (if c then x else y) := by
  split
  · exact hx
  · exact hy

theorem mapM {f : α → Except Fault β} {as : List α} (hf : ∀ a ∈ as, Defined (f a)) :
    Defined (as.mapM f) := by
  induction as with
  | nil => exact ok _
  | cons a as ih =>
    rw [List.forall_mem_cons] at hf
    rw [List.mapM_cons]
    exact hf.1.bind fun _ _ => (ih hf.2).bind fun _ _ => ok _

end Defined

/-! The parts of conforming nodes. -/

namespace Node

theorem exists_identifier {c : Node} (hkind : c.kind = .identifier) (h : c.Conforms) :
    ∃ t name, c = .identifier t name := by
  obtain ⟨t, hd, ss⟩ := c
  cases hd with
  | identifier name =>
    cases h
    exact ⟨t, name, rfl⟩
  | _ => cases hkind

theorem exists_block {c : Node} (hkind : c.kind = .blockStatement) (h : c.Conforms) :
    ∃ t body, c = .blockStatement t body := by
  obtain ⟨t, hd, ss⟩ := c
  cases hd with
  | blockStatement =>
    obtain _ | ⟨hbody, _ | _⟩ := h
    rename_i s
    cases s with
    | one => cases hbody
    | many body => exact ⟨t, body, rfl⟩
  | _ => cases hkind

theorem exists_declarator {c : Node} (hkind : c.kind = .variableDeclarator) (h : c.Conforms) :
    ∃ t id init, c = .variableDeclarator t (some id) init ∧ id.kind = .identifier := by
  obtain ⟨t, hd, ss⟩ := c
  cases hd with
  | variableDeclarator =>
    obtain _ | ⟨hid, _ | ⟨hinit, _ | _⟩⟩ := h
    rename_i s s'
    match s, s' with
    | .one (some id), .one init => exact ⟨t, id, init, rfl, beq_iff_eq.mp hid⟩
  | _ => cases hkind

theorem exists_function {c : Node} (hfunction : c.isFunction = true) (h : c.Conforms) :
    ∃ t hd self params body, c = .mk t hd [.one self, .many params, .one (some body)] ∧
      (∀ id, self = some id → id.kind = .identifier) ∧
      (∀ p ∈ params, ∃ id, p = some id ∧ id.kind = .identifier) ∧ body.kind = .blockStatement := by
  have hshape {t : Tag} {hd : Head} {s s' s'' : Slot Node}
      (hself : (Demand.maybe .name).admits s = true)
      (hparams : (Demand.many .name).admits s' = true)
      (hbody : (Demand.one .block).admits s'' = true) :
      ∃ t' hd' self params body, Node.mk t hd [s, s', s''] =
          .mk t' hd' [.one self, .many params, .one (some body)] ∧
        (∀ id, self = some id → id.kind = .identifier) ∧
        (∀ p ∈ params, ∃ id, p = some id ∧ id.kind = .identifier) ∧
        body.kind = .blockStatement := by
    match s, s', s'' with
    | .one self, .many params, .one (some body) =>
      refine ⟨t, hd, self, params, body, rfl, ?_, ?_, beq_iff_eq.mp hbody⟩
      · rintro id rfl
        exact beq_iff_eq.mp hself
      · intro p hp
        have hname := List.all_eq_true.mp hparams p hp
        cases p with
        | none => cases hname
        | some id => exact ⟨id, rfl, beq_iff_eq.mp hname⟩
  obtain ⟨t, hd, ss⟩ := c
  cases hd with
  | functionDeclaration =>
    obtain _ | ⟨hself, _ | ⟨hparams, _ | ⟨hbody, _ | _⟩⟩⟩ := h
    refine hshape ?_ hparams hbody
    rename_i s _ _
    match s with
    | .one (some id) => exact hself
  | functionExpression =>
    obtain _ | ⟨hself, _ | ⟨hparams, _ | ⟨hbody, _ | _⟩⟩⟩ := h
    exact hshape hself hparams hbody
  | _ => cases hfunction

theorem mem_walk_of_slot {t : Tag} {h : Head} {ss : List (Slot Node)} {c : Node}
    (hc : .one (some c) ∈ ss) : c ∈ (Node.mk t h ss).walk := by
  obtain ⟨ss₁, ss₂, rfl⟩ := List.append_of_mem hc
  rw [walk, walkSlots_append, walkSlots]
  simp [self_mem_walk]

theorem mem_walk_of_item {t : Tag} {h : Head} {ss : List (Slot Node)} {cs : List (Option Node)}
    {c : Node} (hcs : .many cs ∈ ss) (hc : some c ∈ cs) : c ∈ (Node.mk t h ss).walk := by
  obtain ⟨ss₁, ss₂, rfl⟩ := List.append_of_mem hcs
  obtain ⟨cs₁, cs₂, rfl⟩ := List.append_of_mem hc
  rw [walk, walkSlots_append, walkSlots, walkItems_append, walkItems]
  simp [self_mem_walk]

theorem statements_defined {body : Node} (hkind : body.kind = .blockStatement) (h : body.Conforms) :
    Defined (Node.statements (some body)) := by
  obtain ⟨t, items, rfl⟩ := exists_block hkind h
  exact .ok _

theorem declaredName_defined {t : Tag} {kind : String} {declarations : List (Option Node)}
    (h : (Node.variableDeclaration t kind declarations).WellKinded) {d : Option Node}
    (hd : d ∈ declarations) : Defined (declaredName d) := by
  obtain _ | ⟨hmany, -⟩ := h.self
  have hdeclarator := List.all_eq_true.mp hmany d hd
  cases d with
  | none => cases hdeclarator
  | some d =>
    have hwell : d.WellKinded := h.below (mem_walk_of_item (List.mem_singleton_self _) hd)
    obtain ⟨u, id, init, rfl, hkind⟩ := exists_declarator (beq_iff_eq.mp hdeclarator) hwell.self
    have hid : id.Conforms := hwell id (mem_walk_of_slot (List.mem_cons_self ..))
    obtain ⟨v, name, rfl⟩ := exists_identifier hkind hid
    exact .ok _

theorem writes_defined {n : Node} (h : n.WellKinded) : Defined n.writes := by
  unfold writes
  split
  case h_4 t u kind declarations ss =>
    have hleft : (Node.variableDeclaration u kind declarations).WellKinded :=
      h.below (mem_walk_of_slot (List.mem_cons_self ..))
    exact .mapM fun d hd => declaredName_defined hleft hd
  all_goals exact .ok _

theorem mutatedNames_defined {tree : Node} (h : tree.WellKinded) : Defined tree.mutatedNames := by
  unfold mutatedNames
  exact (Defined.mapM fun c hc => writes_defined (h.below hc)).bind fun _ _ => .ok _

end Node

namespace Loop

theorem counter?_defined {init : Option Node} (hwell : ∀ c, init = some c → c.WellKinded) :
    Defined (counter? init) := by
  unfold counter?
  split
  · rename_i t kind declarator
    obtain ⟨name, hname⟩ := declaredName_defined (hwell _ rfl) (List.mem_singleton_self declarator)
    unfold declaredName at hname
    split at hname
    · split
      · rename_i heq
        cases heq
        exact .ok _
      · exact .ok _
      · rename_i hother
        exact absurd rfl (hother _ _)
    · cases hname
  · exact .ok _
  · exact .ok _

theorem fits_of_step? {name : String} {update : Option Node} {step : Number}
    (h : step? name update = some step) (hexact : ∀ c, update = some c → c.Exact) : step.Fits := by
  unfold step? at h
  split at h
  · split at h
    · cases h
      split <;> exact Number.fits_int (by decide)
    · cases h
  · rename_i t operator u counter v amount
    have hliteral : (Value.number amount).isExact = true := hexact _ rfl (.literal v (.number amount))
      (mem_walk_of_slot (List.mem_cons_of_mem _ (List.mem_cons_self ..)))
    split at h
    · split at h
      · cases h
        exact Number.fits_of_isExact hliteral
      · cases h
        exact Number.fits_neg_of_isExact hliteral
      · cases h
    · cases h
  · cases h

theorem fits_of_counter? {name : String} {init : Option Node} {start : Number}
    (h : counter? init = .ok (some (name, start))) (hexact : ∀ c, init = some c → c.Exact) :
    start.Fits := by
  unfold counter? at h
  split at h
  · split at h
    · rename_i t kind u id v start'
      have hdeclarator : (Node.variableDeclarator u id (some (.literal v (.number start')))).Exact :=
        (hexact _ rfl).below (mem_walk_of_item (List.mem_singleton_self _) (List.mem_singleton_self _))
      have hliteral : (Value.number start').isExact = true :=
        hdeclarator (.literal v (.number start')) (mem_walk_of_slot (by simp))
      split at h
      · cases h
        exact Number.fits_of_isExact hliteral
      · cases h
    · cases h
    · cases h
  · rename_i t u name' v start'
    cases h
    exact Number.fits_of_isExact
      (hexact _ rfl (.literal v (.number start)) (mem_walk_of_slot (by simp)))
  · cases h

theorem tripCount?_defined {n : Node} (h : n.WellKinded) (hexact : n.Exact) :
    Defined (tripCount? n) := by
  unfold tripCount?
  split
  · rename_i t init test update body
    refine (counter?_defined ?_).bind fun counter hcounter => ?_
    · rintro c rfl
      exact h.below (mem_walk_of_slot (by simp))
    · split
      · rename_i name start
        split
        · split
          · rename_i step hstep
            obtain _ | ⟨-, _ | ⟨-, _ | ⟨-, _ | ⟨hbody, -⟩⟩⟩⟩ := h.self
            cases body with
            | none => cases hbody
            | some body =>
              have hwell : body.WellKinded := h.below (mem_walk_of_slot (by simp))
              have hfits := fits_of_counter? hcounter fun c hc =>
                hexact.below (mem_walk_of_slot (by simp [hc]))
              have hfits' := fits_of_step? hstep fun c hc =>
                hexact.below (mem_walk_of_slot (by simp [hc]))
              obtain ⟨k, hk⟩ := rounds_ok _ hfits' 2 (.inl hfits)
              refine (mutatedNames_defined hwell).bind fun names _ => .ite (.ok _) ?_
              exact Defined.bind ⟨k, hk⟩ fun _ _ => .ok _
          · exact .ok _
        · exact .ok _
      · exact .ok _
  · exact .ok _

theorem executesOnce_defined {n : Node} (h : n.WellKinded) (hexact : n.Exact) :
    Defined (executesOnce n) := by
  unfold executesOnce
  split
  · rename_i t s u value
    have hvalue : value.isExact = true :=
      hexact (.literal u value) (mem_walk_of_slot (by simp))
    exact Defined.bind (Value.truthy_ok hvalue) fun _ _ => .ok _
  · exact (tripCount?_defined h hexact).bind fun _ _ => .ok _
  · exact .ok _

end Loop

namespace Rule

variable {site : Site} {n : Node}

theorem nameOf_defined {id : Node} (h : id.kind = .identifier) : Defined (nameOf (some id)) := by
  obtain ⟨t, hd, ss⟩ := id
  cases hd with
  | identifier name => exact .ok _
  | _ => cases h

theorem singleReturn?_defined {fn : Node} (hfunction : fn.isFunction = true)
    (h : fn.WellKinded) : Defined (singleReturn? fn) := by
  obtain ⟨t, hd, self, params, body, rfl, -, -, hbody⟩ := exists_function hfunction h.self
  have hconforms : body.Conforms := h body (mem_walk_of_slot (by simp))
  unfold singleReturn?
  refine Defined.bind (statements_defined hbody hconforms) fun statements _ => ?_
  split <;> exact .ok _

theorem captureDeclarator_defined (h : n.WellKinded) : Defined (captureDeclarator site n) := by
  unfold captureDeclarator
  split
  · rename_i t id init
    obtain ⟨u, id', init', heq, hid⟩ := exists_declarator rfl h.self
    cases heq
    refine (nameOf_defined hid).bind fun name _ => .ite (.ok _) ?_
    split <;> exact .ok _
  · exact .ok _

theorem captureFunction_defined (h : n.WellKinded) : Defined (captureFunction site n) := by
  have hcapture (name : String) {fn : Node} (hfunction : fn.isFunction = true)
      (hfn : fn.WellKinded) : Defined (captureFunction.capture site name fn) :=
    .ite (.ok _) ((singleReturn?_defined hfunction hfn).bind fun _ _ => .ok _)
  unfold captureFunction
  split
  · rename_i t id params body
    obtain _ | ⟨hid, -⟩ := h.self
    cases id with
    | none => cases hid
    | some id => exact (nameOf_defined (beq_iff_eq.mp hid)).bind fun name _ => hcapture name rfl h
  · rename_i t id u self params body
    obtain ⟨v, id', init', heq, hid⟩ := exists_declarator rfl h.self
    cases heq
    refine (nameOf_defined hid).bind fun name _ => hcapture name rfl (h.below ?_)
    exact mem_walk_of_slot (by simp)
  · exact .ok _

theorem foldPlus_defined (hexact : n.Exact) : Defined (foldPlus site n) := by
  unfold foldPlus
  split
  · rename_i t u a v b
    have ha : a.isExact = true := hexact (.literal u a) (mem_walk_of_slot (by simp))
    have hb : b.isExact = true := hexact (.literal v b) (mem_walk_of_slot (by simp))
    obtain ⟨w, hw, -⟩ := Value.add_ok ha hb
    exact Defined.bind ⟨w, hw⟩ fun _ _ => .ok _
  · exact .ok _

theorem simplifyConditional_defined (hexact : n.Exact) : Defined (simplifyConditional site n) := by
  unfold simplifyConditional
  split
  · rename_i t u test consequent alternate
    have htest : test.isExact = true := hexact (.literal u test) (mem_walk_of_slot (by simp))
    exact Defined.bind (Value.truthy_ok htest) fun _ _ => .ok _
  · rename_i t u test consequent alternate
    have htest : test.isExact = true := hexact (.literal u test) (mem_walk_of_slot (by simp))
    refine Defined.bind (Value.truthy_ok htest) fun b _ => ?_
    dsimp only
    split
    · exact .ok _
    · exact .ite (.ok _) (.ok _)
    · exact .ok _
  · exact .ok _

theorem exists_body {t : Tag} {self body : Option Node} {params : List (Option Node)}
    (h : (Node.functionExpression t self params body).WellKinded) :
    ∃ b, body = some b ∧ Defined (Node.statements (some b)) := by
  obtain ⟨t', hd, self', params', b, heq, -, -, hkind⟩ := exists_function rfl h.self
  cases heq
  exact ⟨b, rfl, statements_defined hkind (h b (mem_walk_of_slot (by simp)))⟩

theorem inlineTimer_defined (h : n.WellKinded) : Defined (inlineTimer site n) := by
  unfold inlineTimer
  split
  · rename_i t u v callee w self body x delay
    have hfn : (Node.functionExpression w self [] body).WellKinded :=
      h.below (walk_subset_walk _ (mem_walk_of_slot (List.mem_singleton_self _))
        (mem_walk_of_argument (List.mem_cons_self ..)))
    obtain ⟨b, rfl, hstatements⟩ := exists_body hfn
    refine .ite (.ok _) (.ite (.ok _) (.ite ?_ (.ok _)))
    exact hstatements.bind fun _ _ => .ite (.ok _) (.ok _)
  · exact .ok _

theorem unwrapCall_defined (h : n.WellKinded) : Defined (unwrapCall site n) := by
  unfold unwrapCall
  split
  · rename_i t u v id body
    have hfn : (Node.functionExpression v id [] body).WellKinded :=
      h.below (walk_subset_walk _ (mem_walk_of_slot (List.mem_singleton_self _))
        (mem_walk_of_slot (List.mem_cons_self ..)))
    obtain ⟨b, rfl, hstatements⟩ := exists_body hfn
    have hself : Defined (mentionsSelf id b) := by
      unfold mentionsSelf
      split
      · exact .ok _
      · rename_i id'
        obtain _ | ⟨hname, -⟩ := hfn.self
        obtain ⟨w, name, rfl⟩ := exists_identifier (beq_iff_eq.mp hname)
          (hfn id' (mem_walk_of_slot (List.mem_cons_self ..)))
        exact .ok _
    refine .ite (.ok _) (.ite (.ok _) (hself.bind fun _ _ => .ite (.ok _) ?_))
    exact hstatements.bind fun _ _ => .ok _
  · exact .ok _

theorem unwrapLoop_defined (h : n.WellKinded) (hexact : n.Exact) :
    Defined (unwrapLoop site n) := by
  unfold unwrapLoop
  split
  · exact .ite (.ok _) ((Loop.executesOnce_defined h hexact).bind fun _ _ => .ite (.ok _) (.ok _))
  · refine .ite (.ok _) ((Loop.executesOnce_defined h hexact).bind fun _ _ => .ite (.ok _) ?_)
    split <;> exact .ok _
  · exact .ok _

theorem pruneNamed_defined (h : n.WellKinded) : Defined (pruneNamed site n) := by
  unfold pruneNamed
  refine .ite (.ok _) ?_
  split
  · exact (declaredName_defined h (List.mem_cons_self ..)).bind fun _ _ => .ok _
  · exact .ok _
  · exact .ok _

theorem expand_defined {fn : Node} (hfunction : fn.isFunction = true) (h : fn.WellKinded)
    (arguments : List (Option Node)) : Defined (expand fn arguments) := by
  unfold expand
  refine (singleReturn?_defined hfunction h).bind fun result _ => ?_
  obtain ⟨t, hd, self, params, body, rfl, hself, hparams, -⟩ := exists_function hfunction h.self
  split
  · have hname : Defined (selfName self) := by
      cases self with
      | none => exact .ok _
      | some id =>
        obtain ⟨u, name, rfl⟩ := exists_identifier (hself id rfl)
          (h id (mem_walk_of_slot (List.mem_cons_self ..)))
        exact .ok _
    have hnames : Defined (params.mapM nameOf) := by
      refine .mapM fun p hp => ?_
      obtain ⟨id, rfl, hid⟩ := hparams p hp
      exact nameOf_defined hid
    exact hname.bind fun _ _ => hnames.bind fun _ _ => .ok _
  · exact .ok _

theorem inlineReturn_defined
    (h : ∀ callee fn, callee ∈ n.walk → called? site n callee = some fn →
      fn.isFunction = true ∧ fn.WellKinded) : Defined (inlineReturn site n) := by
  unfold inlineReturn
  split
  · rename_i t callee arguments
    split
    · exact .ok _
    · rename_i fn hcalled
      obtain ⟨hfunction, hfn⟩ := h callee fn (mem_walk_of_slot (List.mem_cons_self ..)) hcalled
      exact (expand_defined hfunction hfn arguments).bind fun _ _ => .ok _
  · exact .ok _

theorem foldArrayMember_cases (site : Site) (n : Node) :
    Defined (foldArrayMember site n) ∨
      ∃ k, foldArrayMember site n = .error (.refused (.digitCount k)) := by
  unfold foldArrayMember
  split
  · rename_i t u name v index
    split
    · exact .inl (.ok _)
    · split
      · exact .inl (.ok _)
      · rcases index.arrayIndex?_cases with hindex | ⟨k, hindex⟩
        · refine .inl (Defined.bind hindex fun i _ => ?_)
          split <;> exact .ok _
        · rw [hindex]
          exact .inr ⟨k, rfl⟩
  · exact .inl (.ok _)

/-- The standard rules answer, or they refuse a text of too many digits. -/
theorem transform_cases {r : Rule} (hr : r ∈ standard) (h : n.WellKinded) (hexact : n.Exact)
    (hcalled : ∀ callee fn, callee ∈ n.walk → called? site n callee = some fn →
      fn.isFunction = true ∧ fn.WellKinded) :
    Defined (r.transform site n) ∨
      ∃ k, r.transform site n = .error (.refused (.digitCount k)) := by
  simp only [standard, List.mem_cons, List.not_mem_nil, or_false] at hr
  rcases hr with rfl | rfl | rfl | rfl | rfl | rfl | rfl | rfl | rfl | rfl | rfl | rfl | rfl
  · refine .inl ?_
    dsimp only
    unfold selfAssignment
    split <;> exact .ok _
  · refine .inl ?_
    dsimp only
    unfold logicalToConditional
    split <;> exact .ok _
  · exact .inl (captureDeclarator_defined h)
  · refine .inl ?_
    dsimp only
    unfold substituteIdentifier
    split
    · exact .ite (.ok _) (.ok _)
    · exact .ok _
  · exact .inl (foldPlus_defined hexact)
  · exact .inl (simplifyConditional_defined hexact)
  · exact .inl (inlineTimer_defined h)
  · exact .inl (captureFunction_defined h)
  · exact .inl (inlineReturn_defined hcalled)
  · exact foldArrayMember_cases site n
  · exact .inl (unwrapCall_defined h)
  · exact .inl (unwrapLoop_defined h hexact)
  · exact .inl (pruneNamed_defined h)

end Rule
end Unravel
