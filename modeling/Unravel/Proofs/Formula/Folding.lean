import Unravel.Proofs.Fixpoint.NormalForm
import Unravel.Proofs.Formula.Basic
import Unravel.Proofs.Pass.Keeps

/-! Folding is evaluation: a converged run turns a formula into the literal of its value. Each rule
exchanges a formula for one of the same value, and a formula at which no rule has anything left to do
is a literal. -/

namespace Unravel

open Node

namespace Rule

variable {site : Site} {e : Formula} {o : Outcome}

theorem Move.formula (h : Move site e.node o) :
    ∃ e' : Formula, o = .replace e'.node ∧ e'.eval = e.eval := by
  cases e with
  | literal t v => cases h
  | pair t op left right =>
    cases op with
    | plus =>
      simp only [Formula.node, Formula.Operator.head] at h
      generalize hl : left.node = l at h
      generalize hr : right.node = r at h
      cases h with
      | @addLiterals _ u w a b v hadd =>
        cases Formula.eq_literal hl
        cases Formula.eq_literal hr
        exact ⟨.literal (.fresh t.loc) v, rfl, hadd.symm⟩
    | both =>
      simp only [Formula.node, Formula.Operator.head] at h
      generalize hop : "&&" = operator at h
      cases h with
      | expandAnd =>
        exact ⟨.choice _ left right (.literal (.fresh none) (.bool false)), rfl, rfl⟩
      | expandOr => exact absurd hop (by decide)
    | either =>
      simp only [Formula.node, Formula.Operator.head] at h
      generalize hop : "||" = operator at h
      cases h with
      | expandAnd => exact absurd hop (by decide)
      | expandOr =>
        exact ⟨.choice _ left (.literal (.fresh none) (.bool true)) right, rfl, rfl⟩
  | choice t test consequent alternate =>
    simp only [Formula.node, Node.conditionalExpression] at h
    generalize htest : test.node = c at h
    cases h with
    | @chooseOperand _ u v _ _ b m htruthy hm =>
      cases Formula.eq_literal htest
      have hvalue : (Formula.choice t (.literal u v) consequent alternate).eval =
          if b then consequent.eval else alternate.eval := Formula.choose_eq htruthy _ _
      cases b with
      | true =>
        cases hm
        exact ⟨consequent, rfl, hvalue.symm⟩
      | false =>
        cases hm
        exact ⟨alternate, rfl, hvalue.symm⟩

theorem not_move_statement {u : Tag} : ¬ Move site (.expressionStatement u e.node) o := by
  intro h
  cases e with
  | literal => cases h
  | choice => cases h
  | pair t op left right => cases op <;> cases h

theorem inlineReturn_statement {u : Tag} :
    inlineReturn site (.expressionStatement u e.node) = .ok none := rfl

theorem inlineReturn_formula : inlineReturn site e.node = .ok none := by
  cases e with
  | literal => rfl
  | choice => rfl
  | pair t op left right => cases op <;> rfl

end Rule

namespace Pass

variable {env : Env} {t u : Tag} {value : Except Fault Value}

def Worth (t u : Tag) (value : Except Fault Value) (tree : Node) (_ : Facts) : Prop :=
  ∃ e : Formula, tree = e.program t u ∧ e.eval = value

theorem Env.Standard.keeps_worth (h : env.Standard) : env.Keeps (Worth t u value) where
  learn _ hworth := hworth
  leave _ hworth := hworth
  edit {trail n facts i o l} st hanswer hland hworth := by
    obtain ⟨e, heq, rfl⟩ := hworth
    have hcases := h.answers_cases hanswer
    cases Formula.spot_of_plug_eq_program trail heq with
    | root =>
      obtain ⟨f, fs, hnil, -⟩ := lands_of_land hland
      cases hnil
    | statement =>
      rcases hcases with hmove | hinline
      · cases Rule.not_move_statement hmove
      · rw [Rule.inlineReturn_statement] at hinline
        cases hinline
    | inside _ g hg =>
      rcases hcases with hmove | hinline
      · obtain ⟨g', rfl, hvalue⟩ := hmove.formula
        obtain ⟨f, fs, rfl, hlands, -⟩ := edit_cases st hland
        cases hlands
        obtain ⟨g'', hnumber, hvalue'⟩ := g'.exists_number st.next
        obtain ⟨e', heq', he'⟩ := hg g'' (hvalue'.trans hvalue)
        refine ⟨e', ?_, he'⟩
        rw [← heq', ← hnumber]
        rfl
      · rw [Rule.inlineReturn_formula] at hinline
        cases hinline

end Pass

namespace Fixpoint

open Pass

variable {fuel next : Nat} {rules : List Rule} {settings : Settings} {facts : Facts} {p : Progress}
  {report : Report} {t u : Tag}

theorem eq_literal_of_folded {mutated : List String} (e : Formula) : ∀ trail : Trail,
    (∀ trail' n, Trail.plug trail' n = trail.plug e.node → Folded mutated facts trail' n) →
    ∃ w v, e = .literal w v := by
  induction e with
  | literal w v => exact fun _ _ => ⟨w, v, rfl⟩
  | pair t op left right hleft hright =>
    intro trail h
    have hhere := h trail _ rfl
    obtain ⟨w, a, rfl⟩ := hleft (⟨t, op.head, [], .single, [.one (some right.node)]⟩ :: trail) h
    obtain ⟨w', b, rfl⟩ := hright
      (⟨t, op.head, [.one (some (.literal w a))], .single, []⟩ :: trail) h
    cases op with
    | plus => cases hhere.no_sum _ _ _ _ _ rfl
    | both => cases hhere.no_and _ _ _ rfl
    | either => cases hhere.no_or _ _ _ rfl
  | choice t test consequent alternate htest _ _ =>
    intro trail h
    have hhere := h trail _ rfl
    obtain ⟨w, v, rfl⟩ := htest (⟨t, .conditionalExpression, [], .single,
      [.one (some consequent.node), .one (some alternate.node)]⟩ :: trail) h
    cases hhere.no_conditional _ _ _ _ _ rfl

/-- A converged run leaves of a formula the literal of its value. -/
theorem folds_to_value (e : Formula) (hrules : Rule.catalog settings = .ok rules)
    (hon : settings.disabledRules = [])
    (h : run fuel rules settings (.program t [some (.expressionStatement u e.node)]) facts next =
      (p, .ok report))
    (hstatus : report.status = .converged) :
    ∃ w v, e.eval = .ok v ∧
      p.tree = .program t [some (.expressionStatement u (.literal w v))] := by
  obtain ⟨-, hloop⟩ := run_converged h hstatus
  have hstart : Worth t u e.eval (e.program t u) facts := ⟨e, rfl, rfl⟩
  -- the value is the same before and after every pass
  obtain ⟨e', heq, hvalue⟩ :=
    loop_keeps (fun mutated => Pass.Env.Standard.keeps_worth hrules) hloop hstart
  obtain ⟨-, mutated, earlier, hlast⟩ := exists_lastPass h hstatus
  have hroot : p.tree.kind = .program := by rw [heq]; rfl
  obtain ⟨w, v, rfl⟩ := eq_literal_of_folded e'
      [⟨u, .expressionStatement, [], .single, []⟩, ⟨t, .program, [], .item [] [], []⟩]
      fun trail n hpos =>
    folded_of_exhausted hrules hon
      (exhausted_of_lastPass hrules hroot hlast (hpos.trans heq.symm))
  exact ⟨w, v, hvalue.symm, heq⟩

/-- `0 || 1 + 2 && (true ? 4 + "5" : 6)` -/
def nestedFormula : Formula :=
  let int (mark : Nat) (n : Int) : Formula := .literal ⟨some mark, none⟩ (.int n)
  .pair ⟨some 2, none⟩ .either (int 3 0)
    (.pair ⟨some 4, none⟩ .both (.pair ⟨some 5, none⟩ .plus (int 6 1) (int 7 2))
      (.choice ⟨some 8, none⟩ (.literal ⟨some 9, none⟩ (.bool true))
        (.pair ⟨some 10, none⟩ .plus (int 11 4) (.literal ⟨some 12, none⟩ (.str "5")))
        (int 13 6)))

theorem nestedFormula_folds : ∃ p report w,
    run 40 Rule.standard {} (nestedFormula.program ⟨some 0, none⟩ ⟨some 1, none⟩) {} 14 =
      (p, .ok report) ∧ report.status = .converged ∧ nestedFormula.eval = .ok (.str "45") ∧
    p.tree = .program ⟨some 0, none⟩
      [some (.expressionStatement ⟨some 1, none⟩ (.literal w (.str "45")))] := by
  obtain ⟨p, report, hrun, hstatus⟩ := exists_of_status
    (by decide +kernel : (run 40 Rule.standard {}
      (nestedFormula.program ⟨some 0, none⟩ ⟨some 1, none⟩) {} 14).2.toOption.map (·.status) =
        some .converged)
  have hvalue : nestedFormula.eval = .ok (.str "45") := by decide +kernel
  obtain ⟨w, v, hv, htree⟩ := folds_to_value nestedFormula rfl rfl hrun hstatus
  cases hvalue.symm.trans hv
  exact ⟨p, report, w, hrun, hstatus, hvalue, htree⟩

end Fixpoint
end Unravel
