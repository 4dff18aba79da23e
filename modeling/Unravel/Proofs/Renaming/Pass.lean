import Unravel.Proofs.Pass.Keeps
import Unravel.Proofs.Pass.Run
import Unravel.Proofs.Renaming.Unwrap

/-! Passes under other names. The passes over a tree and over the same tree under other names go step
by step: they try the same rules with the same result, note the same events and give out the same
marks, as long as the names of properties stay. -/

namespace Unravel

open Node

variable {ν : String → String}

namespace Pass

def Env.mapNames (ν : String → String) (env : Env) : Env := { env with mutated := env.mutated.map ν }

def State.mapNames (ν : String → String) (st : State) : State :=
  { st with facts := st.facts.mapNames ν }

def Landing.mapNames (ν : String → String) : Landing → Landing
  | .kept n => .kept (n.mapNames ν)
  | .left ns => .left (ns.map (Node.mapNames ν))

abbrev endNames (ν : String → String) : Landing × State → Landing × State :=
  Prod.map (Landing.mapNames ν) (State.mapNames ν)

variable {env : Env} {trail : Trail} {n : Node} {st : State}

/-! Small steps. -/

theorem State.learn_mapNames (hν : Function.Injective ν) (st : State) (i : Nat) (fact : Fact) :
    (st.mapNames ν).learn i (fact.mapNames ν) = (st.learn i fact).mapNames ν := by
  simp only [learn_eq, mapNames, Facts.learn_mapNames _ hν]

theorem State.leave_mapNames (st : State) (n : Node) :
    (st.mapNames ν).leave (n.mapNames ν) = (st.leave n).mapNames ν := by
  simp only [leave_eq, mapNames, isFunction_mapNames, Facts.update_mapNames]
  split <;> rfl

theorem State.place_mapNames (st : State) (n : Node) :
    (st.mapNames ν).place (n.mapNames ν) = Prod.map (Node.mapNames ν) (mapNames ν) (st.place n) := by
  simp only [place_eq, mapNames, number_mapNames, Prod.map]

theorem State.placeAll_mapNames (st : State) (ns : List Node) :
    (st.mapNames ν).placeAll (ns.map (Node.mapNames ν)) =
      Prod.map (List.map (Node.mapNames ν)) (mapNames ν) (st.placeAll ns) := by
  induction ns generalizing st with
  | nil => rfl
  | cons n ns ih =>
    simp only [List.map_cons, placeAll, place_mapNames]
    rw [Prod.map_fst, Prod.map_snd, ih]
    rfl

theorem land_mapNames (o : Outcome) :
    land (trail.mapNames ν) (o.mapNames ν) = (land trail o).map (Landing.mapNames ν) := by
  cases trail with
  | nil => rfl
  | cons f fs =>
    rw [Trail.mapNames, List.map_cons]
    cases o with
    | learn fact => rfl
    | replace n => rfl
    | remove =>
      simp only [Outcome.mapNames, land, Frame.inSequence_mapNames]
      split <;> rfl
    | splice ns =>
      simp only [Outcome.mapNames, land, Frame.inSequence_mapNames]
      split
      · rfl
      · obtain _ | ⟨n, _ | ⟨n', ns⟩⟩ := ns
        · rfl
        · rfl
        · simp [Landing.mapNames, Head.mapNames, Function.comp_def]

theorem answer_mapNames (hstandard : env.Standard) (hfair : Fair ν env.settings) {r : Rule}
    (hr : r ∈ env.rules) (hn : n.Every (Steady ν)) (facts : Facts) :
    answer (env.mapNames ν) (facts.mapNames ν) r (trail.mapNames ν) (n.mapNames ν) =
      answerNames ν (answer env facts r trail n) := by
  unfold answer
  have happlies : r.applies (n.mapNames ν) = r.applies n := by
    rw [Rule.applies, kind_mapNames, Rule.applies]
  rw [happlies]
  split
  · obtain ⟨s, hs, rfl⟩ := Rule.mem_catalog hstandard hr
    let site : Site := ⟨trail, facts, env.settings, env.mutated⟩
    change s.transform (site.mapNames ν) (n.mapNames ν) = answerNames ν (s.transform site n)
    simp only [Rule.standard, List.mem_cons, List.not_mem_nil, or_false] at hs
    rcases hs with rfl | rfl | rfl | rfl | rfl | rfl | rfl | rfl | rfl | rfl | rfl | rfl | rfl
    · exact Rule.commutes_selfAssignment site n hfair
    · exact Rule.commutes_logicalToConditional site n hfair
    · exact Rule.commutes_captureDeclarator site n hfair
    · exact Rule.commutes_substituteIdentifier site n hfair
    · exact Rule.commutes_foldPlus site n hfair
    · exact Rule.commutes_simplifyConditional site n hfair
    · exact Rule.commutes_inlineTimer site n hfair
    · exact Rule.commutes_captureFunction site n hfair
    · exact Rule.commutes_inlineReturn site n hfair
    · exact Rule.commutes_foldArrayMember site n hfair
    · exact Rule.commutes_unwrapCall site n hfair
    · exact Rule.unwrapLoop_mapNames site n hfair hn
    · exact Rule.commutes_pruneNamed site n hfair
  · rfl

/-! Visits. -/

structure Env.Impartial (env : Env) (ν : String → String) (I : Node → Facts → Prop) : Prop where
  standard : env.Standard
  fair : Fair ν env.settings
  keeps : env.Keeps I
  steady {tree : Node} {facts : Facts} : I tree facts → tree.Every (Steady ν)

variable {I : Node → Facts → Prop}

theorem settle_mapNames (henv : env.Impartial ν I) {rs : List Rule} {i : Nat}
    (hrs : env.rules.drop i = rs) (hi : I (trail.plug n) st.facts) :
    settle (env.mapNames ν) (trail.mapNames ν) rs i (n.mapNames ν) (st.mapNames ν) =
      endNames ν (settle env trail rs i n st) := by
  induction rs generalizing i n st with
  | nil => rfl
  | cons r rs ih =>
    obtain ⟨hr, hrest⟩ := rules_drop hrs
    have hn : n.Every (Steady ν) := Trail.every_of_plug trail (henv.steady hi)
    have hanswers : answer (env.mapNames ν) (st.mapNames ν).facts r (trail.mapNames ν)
        (n.mapNames ν) = answerNames ν (answer env st.facts r trail n) :=
      answer_mapNames henv.standard henv.fair (List.mem_of_getElem? hr) hn st.facts
    have hedit (o : Outcome) (ho : Answers env i trail st.facts n o) :
        settleEdit (env.mapNames ν) (trail.mapNames ν) rs i (n.mapNames ν) (st.mapNames ν)
          (o.mapNames ν) = endNames ν (settleEdit env trail rs i n st o) := by
      unfold settleEdit
      rw [land_mapNames]
      cases hland : land trail o with
      | none =>
        have hskipped : I (trail.plug n) (st.note (.skipped i)).facts := hi
        exact ih hrest hskipped
      | some l =>
        have hinstall := henv.keeps.edit (st.note (.changed i)) ho hland hi
        cases l with
        | left ns =>
          have hplace : ((st.mapNames ν).note (.changed i)).placeAll (ns.map (mapNames ν)) = _ :=
            (st.note (.changed i)).placeAll_mapNames ns
          simp only [Option.map_some, Landing.mapNames]
          rw [hplace]
          rfl
        | kept m =>
          have hplace : ((st.mapNames ν).note (.changed i)).place (m.mapNames ν) = _ :=
            (st.note (.changed i)).place_mapNames m
          simp only [Option.map_some, Landing.mapNames]
          rw [hplace, Prod.map_fst, Prod.map_snd, supported_mapNames]
          cases ((st.note (.changed i)).place m).1.supported with
          | error f => rfl
          | ok _ => exact ih hrest hinstall
    rw [settle_cons, settle_cons, hanswers]
    cases hx : answer env st.facts r trail n with
    | error f => rfl
    | ok x =>
      cases x with
      | none => exact ih hrest hi
      | some o =>
        have hanswer : Answers env i trail st.facts n o := ⟨r, hr, hx⟩
        cases o with
        | learn fact =>
          have hlearn : (st.mapNames ν).learn i (fact.mapNames ν) = _ :=
            st.learn_mapNames henv.fair.involutive.injective i fact
          change settle _ _ rs (i + 1) _ ((st.mapNames ν).learn i (fact.mapNames ν)) = _
          rw [hlearn]
          refine ih hrest ?_
          rw [State.facts_learn]
          exact henv.keeps.learn hanswer hi
        | replace m => exact hedit _ hanswer
        | splice ms => exact hedit _ hanswer
        | remove => exact hedit _ hanswer

mutual

theorem visit_mapNames (henv : env.Impartial ν I) : (fuel : Nat) → {trail : Trail} → {n : Node} →
    {st st' : State} → {l : Landing} → visit env fuel trail n st = (l, st') →
    I (trail.plug n) st.facts →
    visit (env.mapNames ν) fuel (trail.mapNames ν) (n.mapNames ν) (st.mapNames ν) =
      (l.mapNames ν, st'.mapNames ν)
  | 0, trail, n, st, st', l, h, hi => by
    rw [visit_zero] at h
    cases h
    rfl
  | fuel + 1, trail, n, st, st', l, h, hi => by
    have hentered : I (trail.plug n) (st.note .entered).facts := hi
    have hrules {l : Landing} {st₁ : State}
        (hsettle : settle env trail env.rules 0 n (st.note .entered) = (l, st₁)) :
        settle (env.mapNames ν) (trail.mapNames ν) (env.mapNames ν).rules 0 (n.mapNames ν)
          ((st.mapNames ν).note .entered) = (l.mapNames ν, st₁.mapNames ν) := by
      have hsame : _ = endNames ν (settle env trail env.rules 0 n (st.note .entered)) :=
        settle_mapNames henv (i := 0) rfl hentered
      rw [hsettle] at hsame
      exact hsame
    have hsupports : (n.mapNames ν).supported = n.supported := supported_mapNames n
    rw [visit_succ_iff]
    cases visit_succ_iff.mp h with
    | unsupported hunsupported => exact .unsupported (hsupports.trans hunsupported)
    | left hsupported hsettle =>
      exact .left (hsupports.trans hsupported) (hrules hsettle)
    | failed hsupported hsettle hfault =>
      exact .failed (hsupports.trans hsupported) (hrules hsettle) hfault
    | @kept t hd ss ss' st₁ st₂ hsupported hsettle hsound hslots =>
      have hdown : I (trail.plug (.mk t hd (List.reverse [] ++ ss)))
          (st₁.note (.descended t.mark)).facts :=
        (settle_steps (i := 0) rfl hsettle).1.keeps henv.keeps hentered
      have hsettle' := hrules hsettle
      rw [Landing.mapNames, mapNames_mk] at hsettle'
      rw [Landing.mapNames, ← State.leave_mapNames, mapNames_mk]
      exact .kept (hsupports.trans hsupported) hsettle' hsound
        (visitSlots_mapNames henv fuel hslots hdown)

theorem visitSlots_mapNames (henv : env.Impartial ν I) : (fuel : Nat) → {trail : Trail} → {t : Tag} →
    {hd : Head} → {before ss ss' : List (Slot Node)} → {st st' : State} →
    visitSlots env fuel trail t hd before ss st = (ss', st') →
    I (trail.plug (.mk t hd (before.reverse ++ ss))) st.facts →
    visitSlots (env.mapNames ν) fuel (trail.mapNames ν) t (hd.mapNames ν)
        (before.map (Slot.mapNames ν)) (ss.map (Slot.mapNames ν)) (st.mapNames ν) =
      (ss'.map (Slot.mapNames ν), st'.mapNames ν)
  | fuel, trail, t, hd, before, [], ss', st, st', h, hi => by
    rw [visitSlots_nil] at h
    cases h
    exact visitSlots_nil
  | 0, trail, t, hd, before, s :: ss, ss', st, st', h, hi => by
    rw [visitSlots_zero] at h
    cases h
    rfl
  | fuel + 1, trail, t, hd, before, s :: ss, ss', st, st', h, hi => by
    have hslot {s' : Slot Node} {st₁ : State}
        (hs : visitSlot env fuel trail t hd before ss s st = (s', st₁)) :
        visitSlot (env.mapNames ν) fuel (trail.mapNames ν) t (hd.mapNames ν)
          (before.map (Slot.mapNames ν)) (ss.map (Slot.mapNames ν)) (s.mapNames ν)
          (st.mapNames ν) = (s'.mapNames ν, st₁.mapNames ν) := by
      rw [visitSlot_iff]
      cases visitSlot_iff.mp hs with
      | empty => exact .empty
      | @node c _ _ hvisit =>
        have hbelow : I (Trail.plug (⟨t, hd, before, .single, ss⟩ :: trail) c) st.facts := hi
        exact .node (visit_mapNames henv fuel hvisit hbelow)
      | @items items _ _ hitems =>
        have hall : I (trail.plug (.mk t hd
            (before.reverse ++ .many (List.reverse [] ++ items) :: ss))) st.facts := hi
        exact .items (visitItems_mapNames henv fuel hitems hall)
    rw [List.map_cons, visitSlots_succ_iff]
    cases visitSlots_succ_iff.mp h with
    | failed hs hfault => exact .failed (hslot hs) hfault
    | @next s' _ st₁ _ hs hsound hrest =>
      have hi₁ : I (trail.plug (.mk t hd ((s' :: before).reverse ++ ss))) st₁.facts := by
        rw [List.reverse_cons, List.append_assoc]
        exact (visitSlot_steps hs).keeps henv.keeps hi
      exact .next (hslot hs) hsound (visitSlots_mapNames henv fuel hrest hi₁)

theorem visitItems_mapNames (henv : env.Impartial ν I) : (fuel : Nat) → {trail : Trail} → {t : Tag} →
    {hd : Head} → {before after : List (Slot Node)} → {left items items' : List (Option Node)} →
    {st st' : State} → visitItems env fuel trail t hd before after left items st = (items', st') →
    I (trail.plug (.mk t hd (before.reverse ++ .many (left.reverse ++ items) :: after))) st.facts →
    visitItems (env.mapNames ν) fuel (trail.mapNames ν) t (hd.mapNames ν)
        (before.map (Slot.mapNames ν)) (after.map (Slot.mapNames ν))
        (left.map (Option.map (mapNames ν))) (items.map (Option.map (mapNames ν)))
        (st.mapNames ν) =
      (items'.map (Option.map (mapNames ν)), st'.mapNames ν)
  | fuel, trail, t, hd, before, after, left, [], items', st, st', h, hi => by
    rw [visitItems_nil] at h
    cases h
    exact visitItems_nil
  | 0, trail, t, hd, before, after, left, c :: items, items', st, st', h, hi => by
    rw [visitItems_zero] at h
    cases h
    rfl
  | fuel + 1, trail, t, hd, before, after, left, none :: items, items', st, st', h, hi => by
    obtain ⟨rest, rfl, hrest⟩ := visitItems_hole_iff.mp h
    have hi₁ : I (trail.plug (.mk t hd (before.reverse ++
        .many ((none :: left).reverse ++ items) :: after))) st.facts := by
      rw [List.reverse_cons, List.append_assoc]
      exact hi
    exact visitItems_hole_iff.mpr ⟨_, rfl, visitItems_mapNames henv fuel hrest hi₁⟩
  | fuel + 1, trail, t, hd, before, after, left, some c :: items, items', st, st', h, hi => by
    have hbelow : I (Trail.plug (⟨t, hd, before, .item left items, after⟩ :: trail) c) st.facts := hi
    rw [List.map_cons, Option.map_some, visitItems_succ_iff]
    cases visitItems_succ_iff.mp h with
    | @failed l _ hvisit hfault =>
      have hitems : (l.items ++ items).map (Option.map (mapNames ν)) =
          (l.mapNames ν).items ++ items.map (Option.map (mapNames ν)) := by
        cases l <;> simp [Landing.items, Landing.mapNames]
      rw [hitems]
      exact .failed (visit_mapNames henv fuel hvisit hbelow) hfault
    | @left ns _ st₁ _ hvisit hsound hrest =>
      have hitems : (ns.map some ++ items).map (Option.map (mapNames ν)) =
          (ns.map (mapNames ν)).map some ++ items.map (Option.map (mapNames ν)) := by simp
      have hi₁ : I (trail.plug (.mk t hd (before.reverse ++
          .many (left.reverse ++ (ns.map some ++ items)) :: after))) st₁.facts :=
        (visit_steps fuel hvisit).1.keeps henv.keeps hbelow
      have hlater := visitItems_mapNames henv fuel hrest hi₁
      rw [hitems] at hlater
      exact .left (visit_mapNames henv fuel hvisit hbelow) hsound hlater
    | @kept c' _ st₁ _ hvisit hsound hrest =>
      have hi₁ : I (trail.plug (.mk t hd (before.reverse ++
          .many ((some c' :: left).reverse ++ items) :: after))) st₁.facts := by
        rw [List.reverse_cons, List.append_assoc]
        exact (visit_steps fuel hvisit).1.keeps henv.keeps hbelow
      exact .kept (visit_mapNames henv fuel hvisit hbelow) hsound
        (visitItems_mapNames henv fuel hrest hi₁)

end

/-! Whole passes. -/

section
variable {fuel : Nat} {rules : List Rule} {settings : Settings}

theorem written_mapNames (hν : Function.Involutive ν) {tree : Node} (h : tree.Every (Steady ν)) :
    written settings (tree.mapNames ν) = (written settings tree).map (List.map ν) := by
  unfold written
  split
  · exact mutatedNames_mapNames hν h
  · rfl

theorem run_mapNames (henv : ∀ mutated, Env.Impartial ⟨rules, settings, mutated⟩ ν I)
    {tree : Node} {facts : Facts} (hi : I tree facts) (next : Nat) :
    run fuel rules settings (tree.mapNames ν) (facts.mapNames ν) next =
      Prod.map (mapNames ν) (State.mapNames ν) (run fuel rules settings tree facts next) := by
  have hwritten : written settings (tree.mapNames ν) = (written settings tree).map (List.map ν) :=
    written_mapNames (henv []).fair.involutive ((henv []).steady hi)
  unfold written at hwritten
  unfold run
  rw [hwritten]
  cases if settings.trackMutations then tree.mutatedNames else .ok [] with
  | error f => rfl
  | ok mutated =>
    have hroot : I (Trail.plug [] tree) ({ facts, next } : State).facts := hi
    have hvisit : visit ⟨rules, settings, mutated.map ν⟩ fuel [] (tree.mapNames ν)
        { facts := facts.mapNames ν, next } =
        endNames ν (visit ⟨rules, settings, mutated⟩ fuel [] tree { facts, next }) :=
      visit_mapNames (henv mutated) fuel rfl hroot
    dsimp only [Except.map]
    rw [hvisit]
    obtain ⟨l, st⟩ := visit ⟨rules, settings, mutated⟩ fuel [] tree { facts, next }
    cases l with
    | kept tree' => rfl
    | left ns => rfl

end

end Pass

/-! Runs to a fixed point. -/

namespace Fixpoint

def Progress.mapNames (ν : String → String) (p : Progress) : Progress :=
  { p with tree := p.tree.mapNames ν, facts := p.facts.mapNames ν }

variable {fuel : Nat} {rules : List Rule} {settings : Settings} {I : Node → Facts → Prop}
  (henv : ∀ mutated, Pass.Env.Impartial ⟨rules, settings, mutated⟩ ν I)
include henv

theorem loop_mapNames (limit : Nat) (done : List Pass.Stats) {p : Progress}
    (hi : I p.tree p.facts) :
    loop fuel rules settings limit done (p.mapNames ν) =
      Prod.map (Progress.mapNames ν) id (loop fuel rules settings limit done p) := by
  induction limit generalizing done p with
  | zero => rfl
  | succ limit ih =>
    have hpass : Pass.run fuel rules settings (p.mapNames ν).tree (p.mapNames ν).facts p.next = _ :=
      Pass.run_mapNames henv hi p.next
    rw [loop, loop, show (p.mapNames ν).next = p.next from rfl, hpass]
    generalize hrun : Pass.run fuel rules settings p.tree p.facts p.next = r
    obtain ⟨tree, st⟩ := r
    let q : Progress := { tree, facts := st.facts, next := st.next, log := st.log ++ p.log }
    have hq : I q.tree q.facts := run_keeps (fun mutated => (henv mutated).keeps) hrun hi
    dsimp only [Prod.map, Pass.State.mapNames]
    cases st.fault with
    | some f => rfl
    | none =>
      dsimp only
      split
      · rfl
      · exact ih _ hq

theorem run_mapNames {tree : Node} {facts : Facts} (hi : I tree facts) (next : Nat) :
    run fuel rules settings (tree.mapNames ν) (facts.mapNames ν) next =
      Prod.map (Progress.mapNames ν) id (run fuel rules settings tree facts next) := by
  have hstart : I ({ tree, facts, next } : Progress).tree ({ tree, facts, next } : Progress).facts := hi
  have hloop : loop fuel rules settings settings.passLimit []
      { tree := tree.mapNames ν, facts := facts.mapNames ν, next } = _ :=
    loop_mapNames henv settings.passLimit [] hstart
  unfold run
  rw [supported_mapNames]
  cases tree.supported with
  | error f => rfl
  | ok _ =>
    dsimp only
    rw [hloop]
    obtain ⟨p, r⟩ := loop fuel rules settings settings.passLimit [] { tree, facts, next }
    cases r with
    | error f => rfl
    | ok r =>
      obtain ⟨status, passes⟩ := r
      dsimp only [Prod.map, id]
      split <;> rfl

end Fixpoint
end Unravel
