import Mathlib.Data.List.Forall2
import Unravel.Fixpoint
import Unravel.Proofs.Pass.Run
import Unravel.Proofs.Rule.Inlined

/-! What passes keep. An invariant of the tree and the facts is kept by every pass when lessons, edits
and updates of recorded functions keep it. -/

namespace Unravel

open Node

theorem Table.mem_set {α : Type} {t : Table α} {name : String} {a : α} {e : String × α}
    (h : e ∈ t.set name a) : e ∈ t ∨ e = (name, a) := by
  unfold Table.set at h
  split at h
  · obtain ⟨d, hd, rfl⟩ := List.mem_map.mp h
    split
    · exact .inr rfl
    · exact .inl hd
  · rcases List.mem_append.mp h with h | h
    · exact .inl h
    · exact .inr (List.mem_singleton.mp h)

namespace Facts

variable {P : Node → Prop} {facts : Facts}

def Recorded (P : Node → Prop) (facts : Facts) : Prop := ∀ e ∈ facts.functions, P e.2

theorem Recorded.learn (h : facts.Recorded P) {fact : Fact}
    (hfact : ∀ name fn, fact = .function name fn → P fn) : (facts.learn fact).1.Recorded P := by
  cases fact with
  | constant => exact h
  | array => exact h
  | function name fn =>
    intro e he
    rcases Table.mem_set he with he | rfl
    · exact h e he
    · exact hfact name fn rfl

theorem Recorded.refresh (h : facts.Recorded P) {current : Nat → Option Node}
    (hcurrent : ∀ mark n, current mark = some n → P n) : (facts.refresh current).Recorded P := by
  intro e he
  obtain ⟨⟨name, fn⟩, hd, rfl⟩ := List.mem_map.mp he
  dsimp only
  cases hfound : fn.mark.bind current with
  | none => exact h (name, fn) hd
  | some n =>
    obtain ⟨mark, -, hn⟩ := Option.bind_eq_some_iff.mp hfound
    exact hcurrent mark n hn

theorem Recorded.update (h : facts.Recorded P) {n : Node} (hn : P n) :
    (facts.update n).Recorded P := by
  refine h.refresh fun mark m hm => ?_
  split at hm
  · cases hm
    exact hn
  · cases hm

end Facts

theorem Rule.Move.function_mem_walk {site : Site} {n fn : Node} {name : String}
    (h : Move site n (.learn (.function name fn))) : fn ∈ n.walk ∧ fn.isFunction = true := by
  cases h with
  | recordDeclaration => exact ⟨self_mem_walk _, rfl⟩
  | recordExpression => exact ⟨by simp [walk, walkSlots], rfl⟩

namespace Pass

variable {env : Env} {trail : Trail} {f : Frame} {fs : Trail} {n : Node} {facts : Facts}
  {o : Outcome} {l : Landing}

theorem Env.Standard.rule_of_answers (h : env.Standard) {i : Nat}
    (hanswer : Answers env i trail facts n o) :
    ∃ r ∈ Rule.standard, r.name ∉ env.settings.disabledRules ∧ r.kinds.contains n.kind = true ∧
      r.transform ⟨trail, facts, env.settings, env.mutated⟩ n = .ok (some o) := by
  obtain ⟨r, hr, hanswer⟩ := hanswer
  obtain ⟨happlies, hanswer⟩ := applies_of_answer hanswer
  obtain ⟨s, hs, rfl⟩ := Rule.mem_catalog h (List.mem_of_getElem? hr)
  simp only [Rule.applies, Bool.and_eq_true, Bool.not_eq_true', List.contains_eq_mem,
    decide_eq_false_iff_not, decide_eq_true_eq] at happlies
  exact ⟨s, hs, happlies.1, by simpa using happlies.2, hanswer⟩

theorem Env.Standard.answers_cases (h : env.Standard) {i : Nat}
    (hanswer : Answers env i trail facts n o) :
    Rule.Move ⟨trail, facts, env.settings, env.mutated⟩ n o ∨
      Rule.inlineReturn ⟨trail, facts, env.settings, env.mutated⟩ n = .ok (some o) := by
  obtain ⟨r, hr, hanswer⟩ := hanswer
  obtain ⟨happlies, hanswer⟩ := applies_of_answer hanswer
  have hcases := Rule.move_or_inline_of_mem_catalog h (List.mem_of_getElem? hr) happlies hanswer
  exact hcases.imp id fun hinline => hinline.2.2

theorem Env.Standard.learn_move (h : env.Standard) {i : Nat} {fact : Fact}
    (hanswer : Answers env i trail facts n (.learn fact)) :
    Rule.Move ⟨trail, facts, env.settings, env.mutated⟩ n (.learn fact) := by
  rcases h.answers_cases hanswer with hmove | hinline
  · exact hmove
  · obtain ⟨m, hm⟩ := Rule.replace_of_inlineReturn hinline
    cases hm

structure Env.Keeps (env : Env) (I : Node → Facts → Prop) : Prop where
  learn : ∀ {trail : Trail} {n : Node} {facts : Facts} {i : Nat} {fact : Fact},
    Answers env i trail facts n (.learn fact) → I (trail.plug n) facts →
    I (trail.plug n) (facts.learn fact).1
  edit : ∀ {trail : Trail} {n : Node} {facts : Facts} {i : Nat} {o : Outcome} {l : Landing}
    (st : State), Answers env i trail facts n o → land trail o = some l → I (trail.plug n) facts →
    I (trail.fill (st.install l).1) facts
  leave : ∀ {trail : Trail} {n : Node} {facts : Facts}, n.isFunction = true →
    I (trail.plug n) facts → I (trail.plug n) (facts.update n)

variable {I : Node → Facts → Prop}

theorem Step.keeps (hkeeps : env.Keeps I) {a b : Node × State} (h : Step env a b)
    (ha : I a.1 a.2.facts) : I b.1 b.2.facts := by
  cases h with
  | note => exact ha
  | fail => exact ha
  | learn hanswer =>
    rw [State.facts_learn]
    exact hkeeps.learn hanswer ha
  | edit hanswer hland =>
    rw [State.facts_install]
    exact hkeeps.edit _ hanswer hland ha
  | leave =>
    rw [State.leave_eq]
    dsimp only
    split
    · rename_i hfunction
      exact hkeeps.leave hfunction ha
    · exact ha

theorem Steps.keeps (hkeeps : env.Keeps I) {a b : Node × State} (h : Steps env a b)
    (ha : I a.1 a.2.facts) : I b.1 b.2.facts := by
  induction h with
  | refl => exact ha
  | tail _ hstep ih => exact hstep.keeps hkeeps ih

/-! Where an outcome lands. -/

def Landing.nodes : Landing → List Node
  | .kept n => [n]
  | .left ns => ns

theorem fill_eq (hfits : l.fits (f :: fs)) :
    Trail.fill (f :: fs) l = Trail.plug fs (f.plugAll l.nodes) := by
  cases l with
  | kept n =>
    rw [Landing.nodes, Frame.plugAll_singleton]
    rfl
  | left ns => rfl

inductive Lands (f : Frame) : Outcome → Landing → Prop
  | replace {m : Node} : Lands f (.replace m) (.kept m)
  | remove : f.inSequence = true → Lands f .remove (.left [])
  | splice {ns : List Node} : f.inSequence = true → Lands f (.splice ns) (.left ns)
  | lone {m : Node} : f.inSequence = false → Lands f (.splice [m]) (.kept m)
  | nothing : f.inSequence = false → Lands f (.splice []) (.kept (.emptyStatement (.fresh none)))
  | wrap {ns : List Node} : f.inSequence = false →
    Lands f (.splice ns) (.kept (.blockStatement (.fresh none) (ns.map some)))

theorem lands_of_land (h : land trail o = some l) : ∃ f fs, trail = f :: fs ∧ Lands f o l := by
  unfold land at h
  split at h
  · cases h
  · cases h
  · cases h
    exact ⟨_, _, rfl, .replace⟩
  · rename_i f fs
    split at h
    · rename_i hf
      cases h
      exact ⟨f, fs, rfl, .remove hf⟩
    · cases h
  · rename_i f fs ns
    split at h
    · rename_i hf
      cases h
      exact ⟨f, fs, rfl, .splice hf⟩
    · rename_i hf
      have hf : f.inSequence = false := by simpa using hf
      split at h
      · cases h
        exact ⟨f, fs, rfl, .lone hf⟩
      · cases h
        exact ⟨f, fs, rfl, .nothing hf⟩
      · cases h
        exact ⟨f, fs, rfl, .wrap hf⟩

theorem Lands.takes (h : Lands f o l) : f.Takes l.nodes := by
  cases h with
  | remove hf => exact .inl hf
  | splice hf => exact .inl hf
  | replace => exact .inr ⟨_, rfl⟩
  | lone => exact .inr ⟨_, rfl⟩
  | nothing => exact .inr ⟨_, rfl⟩
  | wrap => exact .inr ⟨_, rfl⟩

theorem Lands.not_learn (h : Lands f o l) (fact : Fact) : o ≠ .learn fact := by
  cases h <;> exact nofun

theorem Lands.mem_walk (h : Lands f o l) {m c : Node} (hm : m ∈ l.nodes) (hc : c ∈ m.walk) :
    c ∈ o.walk ∨ c = .emptyStatement (.fresh none) ∨
      ∃ ns, o = .splice ns ∧ c = .blockStatement (.fresh none) (ns.map some) := by
  have hitem {ns : List Node} (hns : m ∈ ns) : c ∈ walkItems (ns.map some) :=
    (everyItems_map (P := (· ∈ walkItems (ns.map some)))).mp (fun _ hd => hd) m hns c hc
  cases h with
  | remove => cases hm
  | splice => exact .inl (hitem hm)
  | replace =>
    cases List.mem_singleton.mp hm
    exact .inl hc
  | lone => exact .inl (hitem hm)
  | nothing =>
    cases List.mem_singleton.mp hm
    cases List.mem_singleton.mp hc
    exact .inr (.inl rfl)
  | @wrap ns =>
    cases List.mem_singleton.mp hm
    rw [walk, List.mem_cons] at hc
    rcases hc with rfl | hc
    · exact .inr (.inr ⟨ns, rfl, rfl⟩)
    · simp only [walkSlots, List.append_nil] at hc
      exact .inl hc

def Numbered (n m : Node) : Prop := ∃ next, m = (n.number next).1

theorem placeAll_numbered (st : State) (ns : List Node) :
    List.Forall₂ Numbered ns (st.placeAll ns).1 := by
  induction ns generalizing st with
  | nil => exact .nil
  | cons n ns ih => exact .cons ⟨st.next, rfl⟩ (ih _)

theorem install_numbered (st : State) (l : Landing) :
    List.Forall₂ Numbered l.nodes (st.install l).1.nodes := by
  cases l with
  | kept n => exact .cons ⟨st.next, rfl⟩ .nil
  | left ns => exact placeAll_numbered st ns

/-- An edit of a whole tree is an exchange in one frame. -/
theorem edit_cases (st : State) (hland : land trail o = some l) :
    ∃ f fs, trail = f :: fs ∧ Lands f o l ∧ f.Takes (st.install l).1.nodes ∧
      trail.fill (st.install l).1 = Trail.plug fs (f.plugAll (st.install l).1.nodes) := by
  obtain ⟨f, fs, rfl, hlands⟩ := lands_of_land hland
  refine ⟨f, fs, rfl, hlands, ?_, fill_eq (fits_install (fits_of_land hland))⟩
  rcases hlands.takes with hf | ⟨m, hm⟩
  · exact .inl hf
  · have hlength := (install_numbered st l).length_eq
    rw [hm] at hlength
    exact .inr (List.length_eq_one_iff.mp hlength.symm)

theorem exists_of_mem_install {st : State} {m : Node} (hm : m ∈ (st.install l).1.nodes) :
    ∃ n ∈ l.nodes, ∃ next, m = (n.number next).1 := by
  have hnumbered := install_numbered st l
  generalize (st.install l).1.nodes = ms at hm hnumbered
  generalize l.nodes = ns at hnumbered ⊢
  induction hnumbered with
  | nil => cases hm
  | cons hfirst _ ih =>
    rcases List.mem_cons.mp hm with rfl | hm
    · exact ⟨_, List.mem_cons_self .., hfirst⟩
    · obtain ⟨n, hn, hnext⟩ := ih hm
      exact ⟨n, List.mem_cons_of_mem _ hn, hnext⟩

theorem Env.keeps_head (env : Env) (h : Head) : env.Keeps fun tree _ => tree.head = h where
  learn _ hi := hi
  leave _ hi := hi
  edit st _ hland hi := by
    obtain ⟨f, fs, rfl, -, -, heq⟩ := edit_cases st hland
    rw [heq, ← hi]
    exact head_plug_congr fs rfl

end Pass

/-! Invariants of whole sequences of passes. -/

namespace Fixpoint

def PassTo (rules : List Rule) (settings : Settings) (p q : Progress) : Prop :=
  ∃ fuel st, Pass.run fuel rules settings p.tree p.facts p.next = (q.tree, st) ∧
    st.fault = none ∧ q.facts = st.facts ∧ q.next = st.next

abbrev Passes (rules : List Rule) (settings : Settings) :=
  Relation.ReflTransGen (PassTo rules settings)

theorem exists_passTo (fuel : Nat) (rules : List Rule) (settings : Settings) (p : Progress)
    (h : (Pass.run fuel rules settings p.tree p.facts p.next).2.fault = none) :
    ∃ q, PassTo rules settings p q ∧
      q.tree = (Pass.run fuel rules settings p.tree p.facts p.next).1 ∧
      q.facts = (Pass.run fuel rules settings p.tree p.facts p.next).2.facts :=
  ⟨{ tree := _, facts := _, next := _ }, ⟨fuel, _, rfl, h, rfl, rfl⟩, rfl, rfl⟩

variable {rules : List Rule} {settings : Settings} {I : Node → Facts → Prop}

theorem run_keeps (hkeeps : ∀ mutated, Pass.Env.Keeps ⟨rules, settings, mutated⟩ I) {fuel next : Nat}
    {tree tree' : Node} {facts : Facts} {st : Pass.State}
    (h : Pass.run fuel rules settings tree facts next = (tree', st)) (hi : I tree facts) :
    I tree' st.facts := by
  rcases Pass.run_cases h with ⟨f, -, rfl, rfl⟩ | ⟨mutated, -, hvisit⟩
  · exact hi
  · exact (Pass.visit_steps fuel hvisit).1.keeps (hkeeps mutated) hi

theorem loop_keeps (hkeeps : ∀ mutated, Pass.Env.Keeps ⟨rules, settings, mutated⟩ I)
    {fuel limit : Nat} {done : List Pass.Stats} {p p' : Progress}
    {r : Except Fault (Status × List Pass.Stats)}
    (h : loop fuel rules settings limit done p = (p', r)) (hp : I p.tree p.facts) :
    I p'.tree p'.facts := by
  induction limit generalizing done p with
  | zero =>
    cases h
    exact hp
  | succ limit ih =>
    rw [loop] at h
    generalize hrun : Pass.run fuel rules settings p.tree p.facts p.next = ran at h
    obtain ⟨tree, st⟩ := ran
    have hpass : I tree st.facts := run_keeps hkeeps hrun hp
    dsimp only at h
    split at h
    · cases h
      exact hpass
    · split at h
      · cases h
        exact hpass
      · exact ih h hpass

theorem progress_keeps (hkeeps : ∀ mutated, Pass.Env.Keeps ⟨rules, settings, mutated⟩ I)
    {fuel next : Nat} {tree : Node} {facts : Facts} {p : Progress} {r : Except Fault Report}
    (h : run fuel rules settings tree facts next = (p, r)) (hi : I tree facts) :
    I p.tree p.facts := by
  unfold run at h
  dsimp only at h
  split at h
  · cases h
    exact hi
  · split at h
    · rename_i hloop
      cases h
      exact loop_keeps hkeeps hloop hi
    · rename_i hloop
      split at h <;>
      · cases h
        exact loop_keeps hkeeps hloop hi

theorem Passes.keeps (hkeeps : ∀ mutated, Pass.Env.Keeps ⟨rules, settings, mutated⟩ I)
    {p q : Progress} (h : Passes rules settings p q) (hp : I p.tree p.facts) :
    I q.tree q.facts := by
  induction h with
  | refl => exact hp
  | tail _ hpass ih =>
    obtain ⟨fuel, st, hrun, -, hfacts, -⟩ := hpass
    rw [hfacts]
    exact run_keeps hkeeps hrun ih

theorem Passes.head_eq {p q : Progress} (h : Passes rules settings p q) :
    q.tree.head = p.tree.head := by
  induction h with
  | refl => rfl
  | tail _ hpass ih =>
    obtain ⟨fuel, st, hrun, -⟩ := hpass
    exact (Pass.run_head_eq hrun).trans ih

end Fixpoint
end Unravel
