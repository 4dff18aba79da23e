import Unravel.Proofs.Grammar.Structure

/-! Sound programs stay sound. Passes raise nothing on them but that they reach a bound, and
collapsing and hoisting raise nothing at all. -/

namespace Unravel

open Node

/-- A well-kinded program with exact literals. -/
structure Node.Sound (tree : Node) : Prop where
  root : tree.kind = .program
  wellKinded : tree.WellKinded
  exact : tree.Exact

/-- Whether a fault reports a bound: the pass did not end within its fuel, or a text has more digits
than are read as a number. -/
def Fault.isBound : Fault → Bool
  | .outOfFuel => true
  | .refused (.digitCount _) => true
  | _ => false

namespace Pass

variable {env : Env} {κ : Nat → Kind} {trail : Trail} {n : Node} {facts : Facts} {next : Nat}

structure Sound (κ : Nat → Kind) (tree : Node) (facts : Facts) (next : Nat) : Prop where
  root : tree.kind = .program
  formed : Formed tree facts
  exact : Exact tree facts
  keyed : Keyed κ tree facts next

theorem Sound.tree {tree : Node} (h : Sound κ tree facts next) : tree.Sound :=
  ⟨h.root, h.formed.tree, h.exact.tree⟩

theorem supported_of_role {r : Role} (h : r.admits n.kind = true) : n.supported = .ok () := by
  obtain ⟨t, hd, ss⟩ := n
  cases hd with
  | «foreign» name => cases r <;> cases h
  | _ => rfl

theorem Sound.supported (h : Sound κ (trail.plug n) facts next) : n.supported = .ok () := by
  cases trail with
  | nil =>
    obtain ⟨t, hd, ss⟩ := n
    cases hd with
    | program => rfl
    | _ => cases h.root
  | cons f fs =>
    have hconforms := (Frame.every_plug.mp (Trail.every_of_plug fs h.formed.tree)).1
    obtain ⟨d, -, hrole⟩ := Frame.exists_demand hconforms
    exact supported_of_role hrole

theorem Cause.isBound (hstandard : env.Standard) {f : Fault} (h : Cause env trail facts n f)
    (hsound : Sound κ (trail.plug n) facts next) : f.isBound = true := by
  cases h with
  | fuel => rfl
  | unsupported hfault =>
    rw [hsound.supported] at hfault
    cases hfault
  | @raised i r _ hr hfault =>
    obtain ⟨s, hs, rfl⟩ := Rule.mem_catalog hstandard (List.mem_of_getElem? hr)
    unfold answer at hfault
    split at hfault
    · have hcalled : ∀ callee fn, callee ∈ n.walk →
          Rule.called? ⟨trail, facts, env.settings, env.mutated⟩ n callee = some fn →
          fn.isFunction = true ∧ fn.WellKinded := by
        intro callee fn hcallee hfn
        refine ⟨?_, Rule.every_called hfn hcallee hsound.formed.tree hsound.formed.recorded⟩
        unfold Rule.called? at hfn
        split at hfn
        · rename_i hhead
          cases hfn
          rw [isFunction, kind, hhead]
          rfl
        · split at hfn
          · exact Site.isFunction_of_function? hfn hsound.keyed
          · cases hfn
        · cases hfn
      rcases Rule.transform_cases hs (Trail.every_of_plug trail hsound.formed.tree)
        (Trail.every_of_plug trail hsound.exact.tree) hcalled with ⟨o, ho⟩ | ⟨k, hk⟩
      · cases ho.symm.trans hfault
      · cases hk.symm.trans hfault
        rfl
    · cases hfault

theorem Step.sound (hstandard : env.Standard) {a b : Node × State} (h : Step env a b)
    (ha : Sound κ a.1 a.2.facts a.2.next) : ∃ κ', Sound κ' b.1 b.2.facts b.2.next := by
  obtain ⟨κ', hkeyed⟩ := h.keyed hstandard ha.keyed
  refine ⟨κ', ?_, h.keeps hstandard.keeps_formed ha.formed, h.keeps hstandard.keeps_exact ha.exact,
    hkeyed⟩
  rw [kind, h.head_eq]
  exact ha.root

def State.Bounded (st : State) : Prop := ∀ f, st.fault = some f → f.isBound = true

theorem Step.bounded (hstandard : env.Standard) {a b : Node × State} (h : Step env a b)
    (hsound : Sound κ a.1 a.2.facts a.2.next) (ha : a.2.Bounded) : b.2.Bounded := by
  unfold State.Bounded at ha ⊢
  cases h with
  | note => exact ha
  | learn => simpa using ha
  | edit => simpa using ha
  | leave => simpa using ha
  | fail hcause =>
    intro g hg
    cases hg
    exact hcause.isBound hstandard hsound

theorem Steps.sound (hstandard : env.Standard) {a b : Node × State} (h : Steps env a b)
    (hsound : Sound κ a.1 a.2.facts a.2.next) (ha : a.2.Bounded) :
    (∃ κ', Sound κ' b.1 b.2.facts b.2.next) ∧ b.2.Bounded := by
  induction h with
  | refl => exact ⟨⟨κ, hsound⟩, ha⟩
  | tail _ hstep ih =>
    obtain ⟨⟨κ', hsound'⟩, hbounded⟩ := ih
    exact ⟨hstep.sound hstandard hsound', hstep.bounded hstandard hsound' hbounded⟩

theorem run_sound {settings : Settings} {rules : List Rule}
    (hrules : Rule.catalog settings = .ok rules) {fuel : Nat} {tree tree' : Node} {st : State}
    (h : run fuel rules settings tree facts next = (tree', st)) (hsound : Sound κ tree facts next) :
    (∃ κ', Sound κ' tree' st.facts st.next) ∧ st.Bounded := by
  rcases run_cases h with ⟨f, hf, rfl, rfl⟩ | ⟨mutated, -, hvisit⟩
  · obtain ⟨names, hnames⟩ : Defined (written settings tree') :=
      .ite (mutatedNames_defined hsound.formed.tree) (.ok _)
    cases hnames.symm.trans hf
  · have hstandard : Env.Standard ⟨rules, settings, mutated⟩ := hrules
    exact (visit_steps fuel hvisit).1.sound hstandard hsound nofun

end Pass

namespace Fixpoint

variable {settings : Settings} {rules : List Rule}

theorem Passes.sound (hrules : Rule.catalog settings = .ok rules) {p q : Progress}
    (h : Passes rules settings p q) {κ : Nat → Kind} (hp : Pass.Sound κ p.tree p.facts p.next) :
    ∃ κ', Pass.Sound κ' q.tree q.facts q.next := by
  induction h with
  | refl => exact ⟨κ, hp⟩
  | tail _ hpass ih =>
    obtain ⟨κ', hsound⟩ := ih
    obtain ⟨fuel, st, hrun, -, hfacts, hnext⟩ := hpass
    rw [hfacts, hnext]
    exact (Pass.run_sound hrules hrun hsound).1

theorem sound_start {tree : Node} {next : Nat} (h : tree.Sound) (hmarked : tree.Marked next) :
    ∃ κ, Pass.Sound κ tree {} next := by
  obtain ⟨κ, hκ⟩ := hmarked.exists_key
  exact ⟨κ, h.root, ⟨h.wellKinded, nofun⟩, ⟨h.exact, nofun, nofun, nofun⟩, hκ, nofun, nofun⟩

/-- Passes, collapsing and hoisting keep programs sound. A pass that ends raises nothing, unless it
meets a text of too many digits; collapsing and hoisting always give a result. -/
theorem programs_stay_sound (hrules : Rule.catalog settings = .ok rules) :
    (∀ tree next p, tree.Sound → tree.Marked next →
      Passes rules settings { tree, facts := {}, next } p →
      p.tree.Sound ∧ ∀ fuel tree' st,
        Pass.run fuel rules settings p.tree p.facts p.next = (tree', st) →
        tree'.Sound ∧ ∀ f, st.fault = some f → f.isBound = true) ∧
    (∀ tree, tree.Sound → ∃ tree' names,
      Factory.collapse tree = .ok (tree', names) ∧ tree'.Sound) ∧
    ∀ limit tree, tree.Sound → ∃ tree' report,
      Hoist.hoist limit tree = (tree', .ok report) ∧ tree'.Sound := by
  have hfine {tree : Node} (h : tree.Sound) :
      tree.Every (Fine fun hd => hd.isExact = true) :=
    fun c hc => ⟨h.wellKinded c hc, h.exact c hc⟩
  have hsound {tree tree' : Node} (h : tree.Sound) (hhead : tree'.head = tree.head)
      (htree : tree'.Every (Fine fun hd => hd.isExact = true)) : tree'.Sound :=
    ⟨by rw [kind, hhead]; exact h.root, htree.mono fun _ hc => hc.1, htree.mono fun _ hc => hc.2⟩
  refine ⟨?_, ?_, ?_⟩
  · intro tree next p h hmarked hpasses
    obtain ⟨κ, hstart⟩ := sound_start h hmarked
    obtain ⟨κ', hp⟩ := hpasses.sound hrules hstart
    refine ⟨hp.tree, fun fuel tree' st hrun => ?_⟩
    obtain ⟨⟨κ'', hend⟩, hbounded⟩ := Pass.run_sound hrules hrun hp
    exact ⟨hend.tree, hbounded⟩
  · intro tree h
    obtain ⟨names, hcollapse, hhead, hnew⟩ := Factory.collapse_wellKinded (fun _ => rfl) (hfine h)
    exact ⟨_, names, hcollapse, hsound h hhead hnew⟩
  · intro limit tree h
    obtain ⟨tree', report, hhoist, hhead, hnew⟩ := Hoist.hoist_wellKinded h.root (hfine h)
    exact ⟨tree', report, hhoist, hsound h hhead hnew⟩

/-- `var a = 1; f(a + 2);` -/
def constantSum : Node :=
  .program (.fresh none)
    [some (.variableDeclaration (.fresh none) "var"
      [some (.variableDeclarator (.fresh none) (some (.identifier (.fresh none) "a"))
        (some (.literal (.fresh none) (.int 1))))]),
    some (.expressionStatement (.fresh none)
      (.callExpression (.fresh none) (.identifier (.fresh none) "f")
        [some (.binaryExpression (.fresh none) "+" (.identifier (.fresh none) "a")
          (.literal (.fresh none) (.int 2)))]))]

theorem constantSum_stays_sound :
    (∃ p, PassTo Rule.standard {}
        { tree := (constantSum.number 0).1, facts := {}, next := (constantSum.number 0).2 } p ∧
      p.tree.Sound) ∧
    (∃ tree' names, Factory.collapse constantSum = .ok (tree', names) ∧ tree'.Sound) ∧
    ∃ tree' report, Hoist.hoist 2 constantSum = (tree', .ok report) ∧ tree'.Sound := by
  have hrules : Rule.catalog {} = .ok Rule.standard := rfl
  have hraw : constantSum.Sound := ⟨rfl, by decide +kernel, by decide +kernel⟩
  have hloaded : (constantSum.number 0).1.Sound := ⟨rfl, by decide +kernel, by decide +kernel⟩
  have hmarked := marked_number (by decide +kernel : ∀ c ∈ constantSum.walk, c.mark = none) 0
  obtain ⟨hpasses, hcollapse, hhoist⟩ := programs_stay_sound hrules
  refine ⟨?_, hcollapse _ hraw, hhoist 2 _ hraw⟩
  obtain ⟨p, hpass, -, -⟩ := exists_passTo 40 Rule.standard {}
    { tree := (constantSum.number 0).1, facts := {}, next := (constantSum.number 0).2 }
    (by decide +kernel)
  exact ⟨p, hpass, (hpasses _ _ _ hloaded hmarked (.single hpass)).1⟩

end Fixpoint
end Unravel
