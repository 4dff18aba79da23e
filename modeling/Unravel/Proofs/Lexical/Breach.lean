import Unravel.Proofs.Lexical.Keep
import Unravel.Proofs.Pass.Ends

/-! Lexical declarations leave their blocks exactly where the rules are on that take functions and
loops off their statements. Neither rule looks at what it sets free: a loop leaves a `let` as a lone
statement, and a called function leaves one beside another of the same name. -/

namespace Unravel

open Node

abbrev bareLet (t u v : Tag) (x : String) : Node :=
  .variableDeclaration t "let" [some (.variableDeclarator u (some (.identifier v x)) none)]

theorem number_bareLet (x : String) (next : Nat) : ∃ t u v,
    ((bareLet (.fresh none) (.fresh none) (.fresh none) x).number next).1 = bareLet t u v x :=
  ⟨_, _, _, rfl⟩

namespace Pass

variable {env : Env} {trail : Trail} {facts : Facts} {t u v : Tag} {x : String}

section
variable (hstandard : env.Standard)

include hstandard

theorem endsSlots_bareLet {Q : List (Slot Node) → Facts → Prop}
    (h : Q (bareLet t u v x).slots facts) :
    EndsSlots env trail t (.variableDeclaration "let") [] (bareLet t u v x).slots facts Q := by
  refine .many (.cons (.idle hstandard rfl ?_ rfl (.one (.idle hstandard rfl ?_ rfl
    (.nil ⟨_, rfl, .empty (.nil (.nil (.nil h)))⟩)))))
  · refine List.forall_mem_cons.mpr ⟨?_, List.forall_mem_singleton.mpr rfl⟩
    simp only [Rule.captureDeclarator, Rule.nameOf, bind, Except.bind, pure, Except.pure]
    split <;> rfl
  · exact List.forall_mem_singleton.mpr rfl

theorem ends_bareLet {Q : Landing → Facts → Prop}
    (hstays : trail.inSequence = false ∨ x ∉ env.settings.prunedNames)
    (h : Q (.kept (bareLet t u v x)) facts) : Ends env trail (bareLet t u v x) facts Q :=
  .of_settles rfl (.skip_to hstandard 12 nofun
    (.declaration hstays ⟨rfl, endsSlots_bareLet hstandard h⟩))

end

end Pass

/-- `while (this) do { let x; } while (false);` -/
def loopedLet (x : String) : Node :=
  .program (.fresh none) [some (.mk (.fresh none) .whileStatement
    [.one (some (.mk (.fresh none) .thisExpression [])),
    .one (some (.mk (.fresh none) .doWhileStatement
      [.one (some (.blockStatement (.fresh none)
        [some (bareLet (.fresh none) (.fresh none) (.fresh none) x)])),
      .one (some (.literal (.fresh none) (.bool false)))]))])]

/-- `(function () { let x; })(); let x;` -/
def calledLet (x : String) : Node :=
  .program (.fresh none)
    [some (.expressionStatement (.fresh none) (.callExpression (.fresh none)
      (.functionExpression (.fresh none) none [] (some (.blockStatement (.fresh none)
        [some (bareLet (.fresh none) (.fresh none) (.fresh none) x)]))) [])),
    some (bareLet (.fresh none) (.fresh none) (.fresh none) x)]

namespace Pass

variable {env : Env} {x : String} (hstandard : env.Standard)
include hstandard

theorem ends_loopedLet (hon : Rule.loopUnwrapping ∉ env.settings.disabledRules) :
    Ends env [] (loopedLet x) {} fun l _ => ∃ tree, l = .kept tree ∧ ¬ tree.Every Separate := by
  refine .idle hstandard rfl nofun rfl (.many (.cons ?_))
  refine .idle hstandard rfl nofun rfl (.one (.idle hstandard rfl nofun rfl (.nil ⟨_, rfl, .one ?_⟩)))
  refine .of_settles rfl (.skip_to hstandard 11 nofun (.replace (answer_of_on hon rfl) rfl rfl ?_))
  intro next
  obtain ⟨t, u, v, hlet⟩ := number_bareLet x next
  rw [hlet]
  refine .declaration (.inl rfl) ⟨rfl, endsSlots_bareLet hstandard ⟨_, rfl, .nil (.nil (.nil ?_))⟩⟩
  refine ⟨_, rfl, fun hevery => ?_⟩
  have hwhile := (everyItems_some.mp (everySlots_many.mp (every_mk.mp hevery).2).1).1.self
  obtain _ | ⟨-, _ | ⟨hbody, -⟩⟩ := hwhile
  exact Bool.noConfusion (hbody rfl _ rfl)

theorem ends_calledLet (hon : Rule.callUnwrapping ∉ env.settings.disabledRules)
    (hx : x ∉ env.settings.prunedNames) (harguments : x ≠ "arguments") :
    Ends env [] (calledLet x) {} fun l _ => ∃ tree, l = .kept tree ∧ ¬ tree.Every Separate := by
  refine .idle hstandard rfl nofun rfl (.many (.cons ?_))
  refine .of_settles rfl (.skip_to hstandard 10 ?_ (.splice
    [bareLet (.fresh none) (.fresh none) (.fresh none) x] ?_ rfl fun st => ?_))
  · exact List.forall_mem_cons.mpr ⟨rfl, List.forall_mem_singleton.mpr rfl⟩
  · rw [answer_of_on hon rfl]
    have hcontext : (Node.blockStatement (.fresh none)
        [some (bareLet (.fresh none) (.fresh none) (.fresh none) x)]).usesFunctionContext = false := by
      simp [usesFunctionContext, scope, slots, reachSlots, reachItems, reach, kind, head, Head.kind,
        Kind.isFunction, name?, harguments]
    have hreturn : (Node.blockStatement (.fresh none)
        [some (bareLet (.fresh none) (.fresh none) (.fresh none) x)]).containsReturn = false := rfl
    simp [Rule.unwrapCall, hcontext, hreturn, Site.inSequence, Trail.inSequence, Frame.inSequence,
      Rule.mentionsSelf, Node.statements, Rule.isDirective, bind, Except.bind, pure, Except.pure]
  obtain ⟨t, u, v, hlet⟩ := number_bareLet x st.next
  have hplaced : (st.placeAll [bareLet (.fresh none) (.fresh none) (.fresh none) x]).1 =
      [bareLet t u v x] := congrArg (fun n => [n]) hlet
  rw [hplaced]
  refine .cons (ends_bareLet hstandard (.inr hx) (.cons (ends_bareLet hstandard (.inr hx) ?_)))
  refine .nil (.nil ⟨_, rfl, fun hevery => ?_⟩)
  obtain _ | ⟨hbody, -⟩ := hevery.self
  have htwice := hbody rfl
  simp [Slot.Separate, lexicalNames, Head.isLexical, head, slots, childrenOf, Slot.children,
    declaredName?, leadingName?, name?] at htwice

end Pass

theorem exists_notMem (l : List String) : ∃ x, x ∉ l := by
  have hle : ∀ s ∈ l, s.length ≤ (l.map String.length).sum := by
    induction l with
    | nil => exact nofun
    | cons a l ih =>
      rw [List.map_cons, List.sum_cons]
      refine List.forall_mem_cons.mpr ⟨Nat.le_add_right .., fun s hs => ?_⟩
      exact Nat.le_trans (ih s hs) (Nat.le_add_left ..)
  refine ⟨String.ofList (List.replicate ((l.map String.length).sum + 1) 'x'), fun hmem => ?_⟩
  have hlength := hle _ hmem
  rw [String.length_ofList, List.length_replicate] at hlength
  omega

theorem wellKinded_loopedLet (x : String) : (loopedLet x).WellKinded := by
  simp [loopedLet, Conforms, Head.demands, head, slots, Demand.admits, Role.admits, kind, Head.kind,
    Kind.isStatement, Kind.isExpression]

theorem separate_loopedLet (x : String) : (loopedLet x).Every Separate := by
  simp [loopedLet, Separate, Head.demands, head, slots, Demand.role, Slot.Separate, Head.isLexical,
    lexicalNames, childrenOf, Slot.children, declaredName?, leadingName?, name?]

theorem wellKinded_calledLet (x : String) : (calledLet x).WellKinded := by
  simp [calledLet, Conforms, Head.demands, head, slots, Demand.admits, Role.admits, kind, Head.kind,
    Kind.isStatement, Kind.isExpression]

theorem separate_calledLet (x : String) : (calledLet x).Every Separate := by
  simp [calledLet, Separate, Head.demands, head, slots, Demand.role, Slot.Separate, Head.isLexical,
    lexicalNames, childrenOf, Slot.children, declaredName?, leadingName?, name?]

namespace Fixpoint

variable {settings : Settings} {rules : List Rule}

/-- Every well-kinded program that keeps its lexical declarations apart still does so after any
number of passes, exactly if neither functions nor loops are taken off their statements. -/
theorem lexical_apart_iff_unwrapping_disabled (hrules : Rule.catalog settings = .ok rules) :
    (∀ p q : Progress, p.tree.kind = .program → p.tree.WellKinded → p.facts.Recorded WellKinded →
      p.tree.Every Separate → Passes rules settings p q → q.tree.Every Separate) ↔
    Rule.callUnwrapping ∈ settings.disabledRules ∧ Rule.loopUnwrapping ∈ settings.disabledRules := by
  have hstandard (mutated : List String) : Pass.Env.Standard ⟨rules, settings, mutated⟩ := hrules
  have hfresh : Facts.Recorded WellKinded {} := nofun
  constructor
  · intro hkept
    -- a program that some pass breaks shows that the rule at work is off
    have hbroken {tree : Node} (hroot : tree.kind = .program) (hwell : tree.WellKinded)
        (hseparate : tree.Every Separate) (hwritten : tree.mutatedNames = .ok [])
        (hends : Pass.Ends ⟨rules, settings, []⟩ [] tree {} fun l _ =>
          ∃ tree, l = .kept tree ∧ ¬ tree.Every Separate) : False := by
      have hwritten' : Pass.written settings tree = .ok [] := by
        unfold Pass.written
        split
        · exact hwritten
        · rfl
      obtain ⟨q, hpass, hq⟩ := exists_passTo_of_ends (p := { tree, facts := {}, next := 0 })
        hwritten' hends
      exact hq (hkept _ q hroot hwell hfresh hseparate (.single hpass))
    constructor
    · by_contra hon
      obtain ⟨x, hx⟩ := exists_notMem ("arguments" :: settings.prunedNames)
      rw [List.mem_cons, not_or] at hx
      exact hbroken rfl (wellKinded_calledLet x) (separate_calledLet x) rfl
        (Pass.ends_calledLet (hstandard []) hon hx.2 hx.1)
    · by_contra hon
      exact hbroken rfl (wellKinded_loopedLet "x") (separate_loopedLet "x") rfl
        (Pass.ends_loopedLet (hstandard []) hon)
  · rintro ⟨hcalls, hloops⟩ p q - hwell hrecorded hseparate hpasses
    have hwrapped (mutated : List String) : Pass.Env.Wrapped ⟨rules, settings, mutated⟩ :=
      ⟨hcalls, hloops⟩
    have hq : Parted q.tree q.facts := hpasses.keeps
      (fun mutated => (hwrapped mutated).keeps_parted (hstandard mutated))
      ⟨⟨hwell, hrecorded⟩, hseparate⟩
    exact hq.separate

/-- With both rules off, every well-kinded program keeps its lexical declarations apart. -/
theorem lexical_apart_of_wrapped :
    ∃ rules, Rule.catalog { disabledRules := [Rule.callUnwrapping, Rule.loopUnwrapping] } =
        .ok rules ∧
      ∀ p q : Progress, p.tree.kind = .program → p.tree.WellKinded →
        p.facts.Recorded WellKinded → p.tree.Every Separate →
        Passes rules { disabledRules := [Rule.callUnwrapping, Rule.loopUnwrapping] } p q →
        q.tree.Every Separate := by
  refine ⟨_, rfl, ?_⟩
  exact (lexical_apart_iff_unwrapping_disabled rfl).mpr ⟨by decide, by decide⟩

/-- `(function () { let x; f(); })(); let x;` -/
def freedLet : Node :=
  .program (.fresh none)
    [some (.expressionStatement (.fresh none) (.callExpression (.fresh none)
      (.functionExpression (.fresh none) none [] (some (.blockStatement (.fresh none)
        [some (bareLet (.fresh none) (.fresh none) (.fresh none) "x"),
        some (.expressionStatement (.fresh none) (.callExpression (.fresh none)
          (.identifier (.fresh none) "f") []))]))) [])),
    some (bareLet (.fresh none) (.fresh none) (.fresh none) "x")]

theorem freedLet_declared_twice :
    ((freedLet.number 0).1.kind = .program ∧ (freedLet.number 0).1.WellKinded ∧
      (freedLet.number 0).1.Every Separate) ∧
    ∃ q, PassTo Rule.standard {}
        { tree := (freedLet.number 0).1, facts := {}, next := (freedLet.number 0).2 } q ∧
      ¬ q.tree.Every Separate := by
  refine ⟨⟨rfl, by decide +kernel, by decide +kernel⟩, ?_⟩
  obtain ⟨q, hpass, htree, -⟩ := exists_passTo 40 Rule.standard {}
    { tree := (freedLet.number 0).1, facts := {}, next := (freedLet.number 0).2 }
    (by decide +kernel)
  refine ⟨q, hpass, ?_⟩
  rw [htree]
  decide +kernel

end Fixpoint
end Unravel
