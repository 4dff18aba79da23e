import Unravel.Rule.Catalog

/-! What a rule raises tells of the tree or of a value. The limits of a run, its fuel and its number
of passes, are never reported by a rule. -/

namespace Unravel

def Fault.isLimit : Fault → Bool
  | .outOfFuel | .noConvergence _ _ => true
  | _ => false

def Unlimited {α : Type} (x : Except Fault α) : Prop := ∀ f, x = .error f → f.isLimit = false

namespace Unlimited

variable {α β : Type}

theorem ok (a : α) : Unlimited (.ok a : Except Fault α) := fun f h => by cases h

theorem error {f : Fault} (h : f.isLimit = false) : Unlimited (.error f : Except Fault α) := by
  intro g hg
  cases hg
  exact h

theorem bind {x : Except Fault α} {f : α → Except Fault β} (hx : Unlimited x)
    (hf : ∀ a, Unlimited (f a)) : Unlimited (x >>= f) := by
  cases x with
  | error e => exact error (hx e rfl)
  | ok a => exact hf a

theorem ite {c : Prop} [Decidable c] {x y : Except Fault α} (hx : Unlimited x)
    (hy : Unlimited y) : Unlimited (if c then x else y) := by
  split
  · exact hx
  · exact hy

theorem mapM {f : α → Except Fault β} (hf : ∀ a, Unlimited (f a)) (as : List α) :
    Unlimited (as.mapM f) := by
  induction as with
  | nil => exact ok _
  | cons a as ih =>
    rw [List.mapM_cons]
    exact (hf a).bind fun _ => ih.bind fun _ => ok _

end Unlimited

theorem unlimited_toFloat (n : Number) : Unlimited n.toFloat := by
  unfold Number.toFloat
  split
  · split
    · exact .ok _
    · exact .error rfl
  · exact .ok _

theorem unlimited_toText (v : Value) : Unlimited v.toText := by
  unfold Value.toText
  split
  case h_4 n =>
    unfold Number.text
    split
    · exact .ite (.ok _) ((unlimited_toFloat _).bind fun _ => .ok _)
    · exact .ok _
  case h_6 => exact .error rfl
  all_goals exact .ok _

theorem unlimited_truthy (v : Value) : Unlimited v.truthy := by
  unfold Value.truthy
  split
  case h_4 n => exact .ite (.ok _) ((unlimited_toFloat _).bind fun _ => .ok _)
  all_goals exact .ok _

theorem unlimited_add (a b : Value) : Unlimited (a.add b) := by
  have hrounded (x y : Number) : Unlimited
      (do return .float ((← x.toFloat) + (← y.toFloat)) : Except Fault Value) :=
    (unlimited_toFloat x).bind fun _ => (unlimited_toFloat y).bind fun _ => .ok _
  unfold Value.add
  refine .ite ((unlimited_toText a).bind fun _ => (unlimited_toText b).bind fun _ => .ok _) ?_
  dsimp only
  split
  · exact .ite (.ok _) (hrounded _ _)
  · exact hrounded _ _

theorem unlimited_arrayIndex? (v : Value) : Unlimited v.arrayIndex? := by
  unfold Value.arrayIndex?
  split
  · exact .ite (.ite (.error rfl) (.ok _)) (.ok _)
  all_goals exact .ok _

theorem unlimited_statements (body : Option Node) : Unlimited (Node.statements body) := by
  unfold Node.statements
  split
  · exact .ok _
  · exact .ok _
  · exact .error rfl

theorem unlimited_declaredName (d : Option Node) : Unlimited (Node.declaredName d) := by
  unfold Node.declaredName
  split
  · exact .ok _
  · exact .error rfl

theorem unlimited_mutatedNames (tree : Node) : Unlimited tree.mutatedNames := by
  have hwrites (n : Node) : Unlimited n.writes := by
    unfold Node.writes
    split
    case h_4 => exact .mapM unlimited_declaredName _
    all_goals exact .ok _
  unfold Node.mutatedNames
  exact (Unlimited.mapM hwrites _).bind fun _ => .ok _

theorem unlimited_supported (n : Node) : Unlimited n.supported := by
  unfold Node.supported
  split
  · exact .error rfl
  · exact .ok _

theorem unlimited_rounds (test : Number → Bool) (step : Number) (limit : Nat) (value : Number) :
    Unlimited (Loop.rounds test step limit value) := by
  have hadd (a b : Number) : Unlimited (a.add b) := by
    unfold Number.add
    split
    · exact .ok _
    · exact (unlimited_toFloat _).bind fun _ => (unlimited_toFloat _).bind fun _ => .ok _
  induction limit generalizing value with
  | zero => exact .ok _
  | succ limit ih => exact .ite ((hadd _ _).bind fun _ => (ih _).bind fun _ => .ok _) (.ok _)

theorem unlimited_executesOnce (n : Node) : Unlimited (Loop.executesOnce n) := by
  have hcounter (init : Option Node) : Unlimited (Loop.counter? init) := by
    unfold Loop.counter?
    split
    · split
      · split
        · exact .ok _
        · exact .error rfl
      · exact .ok _
      · exact .error rfl
    · exact .ok _
    · exact .ok _
  have htrips (n : Node) : Unlimited (Loop.tripCount? n) := by
    unfold Loop.tripCount?
    split
    · refine (hcounter _).bind fun counter => ?_
      split
      · split
        · split
          · split
            · refine (unlimited_mutatedNames _).bind fun _ => ?_
              exact .ite (.ok _) ((unlimited_rounds _ _ _ _).bind fun _ => .ok _)
            · exact .error rfl
          · exact .ok _
        · exact .ok _
      · exact .ok _
    · exact .ok _
  unfold Loop.executesOnce
  split
  · exact (unlimited_truthy _).bind fun _ => .ok _
  · exact (htrips _).bind fun _ => .ok _
  · exact .ok _

namespace Rule

theorem unlimited_nameOf (id : Option Node) : Unlimited (nameOf id) := by
  unfold nameOf
  split
  · exact .ok _
  · exact .error rfl

theorem unlimited_singleReturn? (fn : Node) : Unlimited (singleReturn? fn) := by
  have hbody : Unlimited (bodyOf fn) := by
    unfold bodyOf
    split
    · exact unlimited_statements _
    · exact .error rfl
  unfold singleReturn?
  refine hbody.bind fun body => ?_
  split <;> exact .ok _

theorem unlimited_captureDeclarator (site : Site) (n : Node) :
    Unlimited (captureDeclarator site n) := by
  unfold captureDeclarator
  split
  · refine (unlimited_nameOf _).bind fun name => .ite (.ok _) ?_
    split <;> exact .ok _
  · exact .ok _

theorem unlimited_captureFunction (site : Site) (n : Node) :
    Unlimited (captureFunction site n) := by
  have hcapture (name : String) (fn : Node) :
      Unlimited (captureFunction.capture site name fn) :=
    .ite (.ok _) ((unlimited_singleReturn? fn).bind fun _ => .ok _)
  unfold captureFunction
  split
  · exact (unlimited_nameOf _).bind fun _ => hcapture _ _
  · exact (unlimited_nameOf _).bind fun _ => hcapture _ _
  · exact .ok _

theorem unlimited_substituteIdentifier (site : Site) (n : Node) :
    Unlimited (substituteIdentifier site n) := by
  unfold substituteIdentifier
  split
  · exact .ite (.ok _) (.ok _)
  · exact .ok _

theorem unlimited_selfAssignment (site : Site) (n : Node) :
    Unlimited (selfAssignment site n) := by
  unfold selfAssignment
  split <;> exact .ok _

theorem unlimited_logicalToConditional (site : Site) (n : Node) :
    Unlimited (logicalToConditional site n) := by
  unfold logicalToConditional
  split <;> exact .ok _

theorem unlimited_foldPlus (site : Site) (n : Node) : Unlimited (foldPlus site n) := by
  unfold foldPlus
  split
  · exact (unlimited_add _ _).bind fun _ => .ok _
  · exact .ok _

theorem unlimited_simplifyConditional (site : Site) (n : Node) :
    Unlimited (simplifyConditional site n) := by
  unfold simplifyConditional
  split
  · exact (unlimited_truthy _).bind fun _ => .ok _
  · refine (unlimited_truthy _).bind fun b => ?_
    dsimp only
    split
    · exact .ok _
    · exact .ite (.ok _) (.ok _)
    · exact .ok _
  · exact .ok _

theorem unlimited_foldArrayMember (site : Site) (n : Node) :
    Unlimited (foldArrayMember site n) := by
  unfold foldArrayMember
  split
  · refine .ite (.ok _) ?_
    split
    · exact .ok _
    · refine (unlimited_arrayIndex? _).bind fun i => ?_
      split <;> exact .ok _
  · exact .ok _

theorem unlimited_inlineTimer (site : Site) (n : Node) : Unlimited (inlineTimer site n) := by
  unfold inlineTimer
  split
  · refine .ite (.ok _) ?_
    split
    · refine .ite (.ok _) (.ite ?_ (.ok _))
      exact (unlimited_statements _).bind fun _ => .ite (.ok _) (.ok _)
    · exact .error rfl
  · exact .ok _

theorem unlimited_unwrapCall (site : Site) (n : Node) : Unlimited (unwrapCall site n) := by
  have hself (id : Option Node) (body : Node) : Unlimited (mentionsSelf id body) := by
    unfold mentionsSelf
    split
    · exact .ok _
    · dsimp only
      split
      · exact .ok _
      · exact .ite (.ok _) (.error rfl)
  unfold unwrapCall
  split
  · refine .ite (.ok _) ?_
    split
    · exact .ite (.ok _) ((hself _ _).bind fun _ => .ite (.ok _)
        ((unlimited_statements _).bind fun _ => .ok _))
    · exact .error rfl
  · exact .ok _

theorem unlimited_unwrapLoop (site : Site) (n : Node) : Unlimited (unwrapLoop site n) := by
  unfold unwrapLoop
  split
  · exact .ite (.ok _) ((unlimited_executesOnce _).bind fun _ => .ite (.ok _) (.ok _))
  · refine .ite (.ok _) ((unlimited_executesOnce _).bind fun _ => .ite (.ok _) ?_)
    split <;> exact .ok _
  · exact .ok _

theorem unlimited_pruneNamed (site : Site) (n : Node) : Unlimited (pruneNamed site n) := by
  unfold pruneNamed
  refine .ite (.ok _) ?_
  split
  · exact (unlimited_declaredName _).bind fun _ => .ok _
  · exact .ok _
  · exact .ok _

theorem unlimited_inlineReturn (site : Site) (n : Node) : Unlimited (inlineReturn site n) := by
  have hself (id : Option Node) : Unlimited (selfName id) := by
    unfold selfName
    split
    · exact .ok _
    · exact .ok _
    · exact .error rfl
  have hexpand (fn : Node) (arguments : List (Option Node)) :
      Unlimited (expand fn arguments) := by
    unfold expand
    refine (unlimited_singleReturn? fn).bind fun result => ?_
    split
    · dsimp only
      split
      · exact (hself _).bind fun _ => (Unlimited.mapM unlimited_nameOf _).bind fun _ => .ok _
      · exact .error rfl
    · exact .ok _
  unfold inlineReturn
  split
  · split
    · exact .ok _
    · exact (hexpand _ _).bind fun _ => .ok _
  · exact .ok _

theorem unlimited_transform {r : Rule} (hr : r ∈ standard) (site : Site) (n : Node) :
    Unlimited (r.transform site n) := by
  simp only [standard, List.mem_cons, List.not_mem_nil, or_false] at hr
  rcases hr with rfl | rfl | rfl | rfl | rfl | rfl | rfl | rfl | rfl | rfl | rfl | rfl | rfl
  · exact unlimited_selfAssignment site n
  · exact unlimited_logicalToConditional site n
  · exact unlimited_captureDeclarator site n
  · exact unlimited_substituteIdentifier site n
  · exact unlimited_foldPlus site n
  · exact unlimited_simplifyConditional site n
  · exact unlimited_inlineTimer site n
  · exact unlimited_captureFunction site n
  · exact unlimited_inlineReturn site n
  · exact unlimited_foldArrayMember site n
  · exact unlimited_unwrapCall site n
  · exact unlimited_unwrapLoop site n
  · exact unlimited_pruneNamed site n

end Rule
end Unravel
