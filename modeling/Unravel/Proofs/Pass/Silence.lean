import Unravel.Proofs.Pass.Run
import Unravel.Proofs.Rule.KnownNames

/-! Passes without some of the rules. A rule that edits the tree, and whose every edit in a pass is
refused, leaves no trace but the count of its refusals: the pass in which it is disabled goes the same
way. -/

namespace Unravel

namespace Rule

abbrev recording : List String := ["capture_declarator", "capture_trivial_function"]

def Edits (r : Rule) : Prop :=
  (∃ s ∈ standard, s.name ∉ recording ∧ r = { s with enabled := r.enabled }) ∨
    r.transform = fun _ _ => .ok (some .remove)

theorem Edits.not_learn {r : Rule} (hr : r.Edits) {site : Site} {n : Node} {fact : Fact}
    (happlies : r.applies n = true) : r.transform site n ≠ .ok (some (.learn fact)) := by
  intro hanswer
  obtain ⟨s, hs, hname, heq⟩ | hremove := hr
  · have hkind : n.kind ∈ s.kinds := by
      rw [heq, applies, Bool.and_eq_true] at happlies
      exact List.contains_iff_mem.mp happlies.2
    have hall : ∀ r ∈ standard, ∀ k ∈ r.kinds,
        k = .variableDeclarator ∨ k = .functionDeclaration → r.name ∈ recording := by decide
    rw [heq] at hanswer
    obtain hmove | ⟨-, hinline⟩ := move_or_inline hs hanswer
    · refine hname (hall s hs _ hkind ?_)
      cases hmove with
      | recordConstant | recordArray | recordExpression => exact .inl rfl
      | recordDeclaration => exact .inr rfl
    · obtain ⟨m, hm⟩ := replace_of_inlineReturn hinline
      cases hm
  · rw [hremove] at hanswer
    cases hanswer

/-- Rules from position `i` on, with those at the positions `off` disabled. -/
def silence (off : Nat → Bool) : Nat → List Rule → List Rule
  | _, [] => []
  | i, r :: rs => { r with enabled := r.enabled && !off i } :: silence off (i + 1) rs

end Rule

/-- An edit of the rules at the positions `off` was refused. -/
def Event.isRefusal (off : Nat → Bool) : Event → Bool
  | .skipped i => off i
  | _ => false

namespace Pass

variable {off : Nat → Bool}

namespace State

def erase (off : Nat → Bool) (st : State) : State :=
  { st with log := st.log.filter (!·.isRefusal off) }

structure Spared (off : Nat → Bool) (st : State) : Prop where
  fault : st.fault = none
  refused : ∀ e ∈ st.log, ∀ i, off i = true → e.isApplication i = false

variable {st : State}

theorem Spared.of_subset {st' : State} (h : st'.Spared off) (hfault : st'.fault = st.fault)
    (hlog : st.log ⊆ st'.log) : st.Spared off :=
  ⟨hfault ▸ h.fault, fun e he => h.refused e (hlog he)⟩

theorem Spared.of_note {e : Event} (h : (st.note e).Spared off) : st.Spared off :=
  h.of_subset rfl (List.subset_cons_self ..)

theorem Spared.of_leave {n : Node} (h : (st.leave n).Spared off) : st.Spared off := by
  refine h.of_subset (st.fault_leave n) ?_
  rw [leave_eq]
  exact List.Subset.refl _

theorem Spared.off_eq_false {i : Nat} (h : st.Spared off) (hi : .changed i ∈ st.log) :
    off i = false := by
  cases hoff : off i with
  | false => rfl
  | true => exact absurd (h.refused _ hi i hoff) (by simp [Event.isApplication])

theorem erase_note (e : Event) (he : e.isRefusal off = false) :
    (st.erase off).note e = (st.note e).erase off := by
  simp [erase, note, he]

theorem erase_refusal {i : Nat} (hi : off i = true) :
    (st.note (.skipped i)).erase off = st.erase off := by
  simp [erase, note, Event.isRefusal, hi]

theorem erase_learn (i : Nat) (fact : Fact) :
    (st.erase off).learn i fact = (st.learn i fact).erase off := by
  rw [learn_eq, learn_eq, erase, erase]
  dsimp only
  split <;> simp [Event.isRefusal]

theorem erase_leave (n : Node) : (st.erase off).leave n = (st.leave n).erase off := by
  rw [leave_eq, leave_eq]
  rfl

theorem erase_place (n : Node) :
    (st.erase off).place n = ((st.place n).1, (st.place n).2.erase off) := rfl

theorem erase_placeAll (ns : List Node) :
    (st.erase off).placeAll ns = ((st.placeAll ns).1, (st.placeAll ns).2.erase off) := by
  induction ns generalizing st with
  | nil => rfl
  | cons n ns ih => simp only [placeAll, erase_place, ih]

end State

variable {env : Env}

theorem Step.spared {a b : Node × State} (h : Step env a b) (hb : b.2.Spared off) :
    a.2.Spared off := by
  cases h with
  | note => exact hb.of_note
  | fail => cases hb.fault
  | @learn _ _ st i fact =>
    refine hb.of_subset (st.fault_learn i fact) ?_
    rw [State.learn_eq]
    dsimp only
    split
    · exact List.subset_cons_self ..
    · exact List.Subset.refl _
  | @edit _ _ st i _ l =>
    refine hb.of_subset ((st.note (.changed i)).fault_install l) ?_
    rw [State.install_snd]
    exact List.subset_cons_self ..
  | leave => exact hb.of_leave

theorem Steps.spared {a b : Node × State} (h : Steps env a b) (hb : b.2.Spared off) :
    a.2.Spared off := by
  induction h using Relation.ReflTransGen.head_induction_on with
  | refl => exact hb
  | head hstep _ ih => exact hstep.spared ih

def Env.silence (off : Nat → Bool) (env : Env) : Env :=
  { env with rules := Rule.silence off 0 env.rules }

def Env.Edits (off : Nat → Bool) (env : Env) : Prop :=
  ∀ i r, env.rules[i]? = some r → off i = true → r.Edits

theorem answer_silence_off {facts : Facts} {r : Rule} {trail : Trail} {n : Node} {i : Nat}
    (hi : off i = true) :
    answer env facts { r with enabled := r.enabled && !off i } trail n = .ok none := by
  simp [answer, Rule.applies, hi]

theorem answer_silence_on {facts : Facts} {r : Rule} {trail : Trail} {n : Node} {i : Nat}
    (hi : off i = false) :
    answer (env.silence off) facts { r with enabled := r.enabled && !off i } trail n =
      answer env facts r trail n := by
  rw [hi, Bool.not_false, Bool.and_true]
  rfl

variable {trail : Trail} {n : Node} {st st' : State} {l : Landing}

/-- A rule that was not once applied with effect leaves nothing but the refusals of its edits. -/
theorem settle_spared {r : Rule} {rs : List Rule} {i : Nat} (hr : r.Edits) (hi : off i = true)
    (hrest : env.rules.drop (i + 1) = rs) (h : settle env trail (r :: rs) i n st = (l, st'))
    (hst : st'.Spared off) :
    ∃ st₁, st₁.erase off = st.erase off ∧ settle env trail rs (i + 1) n st₁ = (l, st') := by
  cases settle_tried h with
  | passed _ hlater => exact ⟨st, rfl, hlater⟩
  | raised => cases hst.fault
  | learned hanswer =>
    obtain ⟨happlies, htransform⟩ := applies_of_answer hanswer
    exact absurd htransform (hr.not_learn happlies)
  | skipped _ _ _ hlater => exact ⟨st.note (.skipped i), State.erase_refusal hi, hlater⟩
  | @left _ ns =>
    have hlogged : .changed i ∈ ((st.note (.changed i)).placeAll ns).2.log := by
      rw [State.placeAll_snd]
      exact List.mem_cons_self ..
    have hchanged := hst.off_eq_false hlogged
    exact absurd hi (Bool.eq_false_iff.mp hchanged)
  | refused => cases hst.fault
  | replaced _ _ hlater =>
    -- the later rules only add to the log, so the application is still in it at the end
    have hplaced := (settle_steps hrest hlater).1.spared hst
    have hchanged : off i = false := hplaced.off_eq_false (List.mem_cons_self ..)
    exact absurd hi (Bool.eq_false_iff.mp hchanged)

theorem settleEdit_silence {rs : List Rule} {i : Nat} {o : Outcome} (hi : off i = false)
    (hlater : ∀ {n : Node} {st : State}, settle env trail rs (i + 1) n st = (l, st') →
      settle (env.silence off) trail (Rule.silence off (i + 1) rs) (i + 1) n (st.erase off) =
        (l, st'.erase off))
    (h : settleEdit env trail rs i n st o = (l, st')) (hst : st'.Spared off) :
    settleEdit (env.silence off) trail (Rule.silence off (i + 1) rs) i n (st.erase off) o =
      (l, st'.erase off) := by
  unfold settleEdit at h ⊢
  rw [State.erase_note (.changed i) rfl]
  cases hland : land trail o with
  | none =>
    rw [hland] at h
    rw [State.erase_note (.skipped i) hi]
    exact hlater h
  | some landing =>
    rw [hland] at h
    cases landing with
    | left ns =>
      cases h
      dsimp only
      rw [State.erase_placeAll]
    | kept m =>
      dsimp only at h ⊢
      rw [State.erase_place]
      cases hsupported : ((st.note (.changed i)).place m).1.supported with
      | error f =>
        rw [hsupported] at h
        cases h
        cases hst.fault
      | ok _ =>
        rw [hsupported] at h
        exact hlater h

theorem settle_silence (hedits : env.Edits off) {rs : List Rule} {i : Nat}
    (hrs : env.rules.drop i = rs) (h : settle env trail rs i n st = (l, st')) (hst : st'.Spared off) :
    settle (env.silence off) trail (Rule.silence off i rs) i n (st.erase off) = (l, st'.erase off) := by
  induction rs generalizing i n st with
  | nil =>
    cases h
    rfl
  | cons r rs ih =>
    obtain ⟨hr, hrest⟩ := rules_drop hrs
    rw [Rule.silence, settle_cons]
    cases hi : off i with
    | true =>
      obtain ⟨st₁, herase, hlater⟩ := settle_spared (hedits i r hr hi) hi hrest h hst
      rw [← hi, answer_silence_off hi, ← herase]
      exact ih hrest hlater
    | false =>
      have hanswer : answer (env.silence off) (st.erase off).facts
          { r with enabled := r.enabled && !off i } trail n = answer env st.facts r trail n :=
        answer_silence_on hi
      rw [settle_cons] at h
      rw [← hi, hanswer]
      cases hx : answer env st.facts r trail n with
      | error f =>
        rw [hx] at h
        cases h
        cases hst.fault
      | ok x =>
        rw [hx] at h
        cases x with
        | none => exact ih hrest h
        | some o =>
          cases o with
          | learn fact =>
            change settle _ _ _ (i + 1) n ((st.erase off).learn i fact) = _
            rw [State.erase_learn]
            exact ih hrest h
          | replace m => exact settleEdit_silence hi (ih hrest) h hst
          | splice ms => exact settleEdit_silence hi (ih hrest) h hst
          | remove => exact settleEdit_silence hi (ih hrest) h hst

mutual

theorem visit_silence (hedits : env.Edits off) : (fuel : Nat) → {trail : Trail} → {n : Node} →
    {st st' : State} → {l : Landing} → visit env fuel trail n st = (l, st') → st'.Spared off →
    visit (env.silence off) fuel trail n (st.erase off) = (l, st'.erase off)
  | 0, trail, n, st, st', l, h, hst => by
    rw [visit_zero] at h
    cases h
    cases hst.fault
  | fuel + 1, trail, n, st, st', l, h, hst => by
    have hsettle {l : Landing} {st₁ : State} (hst₁ : st₁.Spared off)
        (h : settle env trail env.rules 0 n (st.note .entered) = (l, st₁)) :
        settle (env.silence off) trail (env.silence off).rules 0 n ((st.erase off).note .entered) =
          (l, st₁.erase off) := by
      rw [State.erase_note .entered rfl]
      exact settle_silence hedits (i := 0) rfl h hst₁
    cases visit_succ_iff.mp h with
    | unsupported => cases hst.fault
    | left hsupported hrules => exact visit_succ_iff.mpr (.left hsupported (hsettle hst hrules))
    | failed _ _ hfault => exact absurd hst.fault hfault
    | @kept t hd ss ss' st₁ st₂ hsupported hrules hsound hslots =>
      have hleft : st₂.Spared off := hst.of_leave
      have hentered : st₁.Spared off := ((visitSlots_steps fuel hslots).spared hleft).of_note
      have hbelow : visitSlots (env.silence off) fuel trail t hd [] ss
          ((st₁.erase off).note (.descended t.mark)) = (ss', st₂.erase off) := by
        rw [State.erase_note (.descended t.mark) rfl]
        exact visitSlots_silence hedits fuel hslots hleft
      rw [← State.erase_leave]
      exact visit_succ_iff.mpr (.kept hsupported (hsettle hentered hrules) hsound hbelow)

theorem visitSlots_silence (hedits : env.Edits off) : (fuel : Nat) → {trail : Trail} → {t : Tag} →
    {hd : Head} → {before ss ss' : List (Slot Node)} → {st st' : State} →
    visitSlots env fuel trail t hd before ss st = (ss', st') → st'.Spared off →
    visitSlots (env.silence off) fuel trail t hd before ss (st.erase off) = (ss', st'.erase off)
  | fuel, trail, t, hd, before, [], ss', st, st', h, hst => by
    rw [visitSlots_nil] at h
    cases h
    exact visitSlots_nil
  | 0, trail, t, hd, before, s :: ss, ss', st, st', h, hst => by
    rw [visitSlots_zero] at h
    cases h
    cases hst.fault
  | fuel + 1, trail, t, hd, before, s :: ss, ss', st, st', h, hst => by
    cases visitSlots_succ_iff.mp h with
    | failed _ hfault => exact absurd hst.fault hfault
    | @next s' _ st₁ _ hs hsound hrest =>
      have hst₁ : st₁.Spared off := (visitSlots_steps fuel hrest).spared hst
      have hslot : SlotVisit (env.silence off) fuel trail t hd before ss (st.erase off) s s'
          (st₁.erase off) := by
        cases visitSlot_iff.mp hs with
        | empty => exact .empty
        | node hvisit => exact .node (visit_silence hedits fuel hvisit hst₁)
        | items hitems => exact .items (visitItems_silence hedits fuel hitems hst₁)
      exact visitSlots_succ_iff.mpr
        (.next (visitSlot_iff.mpr hslot) hsound (visitSlots_silence hedits fuel hrest hst))

theorem visitItems_silence (hedits : env.Edits off) : (fuel : Nat) → {trail : Trail} → {t : Tag} →
    {hd : Head} → {before after : List (Slot Node)} → {left items items' : List (Option Node)} →
    {st st' : State} → visitItems env fuel trail t hd before after left items st = (items', st') →
    st'.Spared off →
    visitItems (env.silence off) fuel trail t hd before after left items (st.erase off) =
      (items', st'.erase off)
  | fuel, trail, t, hd, before, after, left, [], items', st, st', h, hst => by
    rw [visitItems_nil] at h
    cases h
    exact visitItems_nil
  | 0, trail, t, hd, before, after, left, c :: items, items', st, st', h, hst => by
    rw [visitItems_zero] at h
    cases h
    cases hst.fault
  | fuel + 1, trail, t, hd, before, after, left, none :: items, items', st, st', h, hst => by
    obtain ⟨rest, rfl, hrest⟩ := visitItems_hole_iff.mp h
    exact visitItems_hole_iff.mpr ⟨rest, rfl, visitItems_silence hedits fuel hrest hst⟩
  | fuel + 1, trail, t, hd, before, after, left, some c :: items, items', st, st', h, hst => by
    cases visitItems_succ_iff.mp h with
    | failed _ hfault => exact absurd hst.fault hfault
    | left hvisit hsound hrest =>
      have hst₁ := (visitItems_steps fuel hrest).spared hst
      exact visitItems_succ_iff.mpr (.left (visit_silence hedits fuel hvisit hst₁) hsound
        (visitItems_silence hedits fuel hrest hst))
    | kept hvisit hsound hrest =>
      have hst₁ := (visitItems_steps fuel hrest).spared hst
      exact visitItems_succ_iff.mpr (.kept (visit_silence hedits fuel hvisit hst₁) hsound
        (visitItems_silence hedits fuel hrest hst))

end

theorem countP_erase {p : Event → Bool} (hp : ∀ i, p (.skipped i) = false) (log : List Event) :
    (log.filter (!·.isRefusal off)).countP p = log.countP p := by
  rw [List.countP_filter]
  refine List.countP_congr fun e _ => ?_
  cases e with
  | skipped i => simp [hp]
  | _ => simp [Event.isRefusal]

theorem countP_isSkip_erase (log : List Event) :
    log.countP Event.isSkip =
      (log.filter (!·.isRefusal off)).countP Event.isSkip + log.countP (Event.isRefusal off) := by
  induction log with
  | nil => rfl
  | cons e log ih =>
    cases hrefusal : e.isRefusal off with
    | true =>
      have hskip : e.isSkip = true := by
        cases e with
        | skipped i => rfl
        | _ => cases hrefusal
      simp [hrefusal, hskip, ih]
      omega
    | false =>
      rw [List.filter_cons_of_pos (by simp [hrefusal]), List.countP_cons, List.countP_cons,
        List.countP_cons, ih, hrefusal]
      simp only [Bool.false_eq_true, if_false]
      omega

variable {fuel next : Nat} {rules : List Rule} {settings : Settings} {tree tree' : Node}
  {facts : Facts}

/-- A pass that returns, and in which the rules at the positions `off` were not once applied with
effect, goes as it does without them: the same tree, facts and applications, and of the counts only
that of the skipped applications is lower, by the refusals of these rules. -/
theorem run_without_refused
    (hedits : ∀ i r, rules[i]? = some r → off i = true → r.Edits)
    (h : run fuel rules settings tree facts next = (tree', st)) (hreturns : st.fault = none)
    (hrefused : ∀ i, off i = true → st.log.countP (Event.isApplication i) = 0) :
    ∃ st', run fuel (Rule.silence off 0 rules) settings tree facts next = (tree', st') ∧
      st'.fault = none ∧ st'.facts = st.facts ∧ st'.next = st.next ∧
      (∀ i, st'.log.countP (Event.isApplication i) = st.log.countP (Event.isApplication i)) ∧
      stats st.log = { stats st'.log with
        skipped := (stats st'.log).skipped + st.log.countP (Event.isRefusal off) } := by
  have hspared : st.Spared off :=
    ⟨hreturns, fun e he i hi => Bool.eq_false_iff.mpr (List.countP_eq_zero.mp (hrefused i hi) e he)⟩
  refine ⟨st.erase off, ?_, hreturns, rfl, rfl, fun i => countP_erase (fun _ => rfl) _, ?_⟩
  · obtain ⟨f, -, -, rfl⟩ | ⟨mutated, hmutated, hvisit⟩ := run_cases h
    · cases hreturns
    · have hedits' : Env.Edits off ⟨rules, settings, mutated⟩ := hedits
      have hsilent : visit ⟨Rule.silence off 0 rules, settings, mutated⟩ fuel [] tree
          { facts, next } = (.kept tree', st.erase off) :=
        visit_silence hedits' fuel hvisit hspared
      unfold written at hmutated
      unfold run
      rw [hmutated]
      dsimp only
      rw [hsilent]
  · rw [stats, stats, State.erase]
    dsimp only
    have herase {p : Event → Bool} (hp : ∀ i, p (.skipped i) = false) :
        (st.log.filter (!·.isRefusal off)).countP p = st.log.countP p := countP_erase hp _
    rw [herase (fun _ => rfl), herase (p := Event.isLesson) (fun _ => rfl),
      herase (p := Event.isEntry) (fun _ => rfl), countP_isSkip_erase]

/-- `if (f(1 + 2)) x = x;` -/
def selfAssignedBranch : Node :=
  let name (x : String) : Node := .identifier (.fresh none) x
  let number (n : Int) : Node := .literal (.fresh none) (.int n)
  .program (.fresh none)
    [some (.mk (.fresh none) .ifStatement
      [.one (some (.callExpression (.fresh none) (name "f")
        [some (.binaryExpression (.fresh none) "+" (number 1) (number 2))])),
      .one (some (.expressionStatement (.fresh none)
        (.assignmentExpression (.fresh none) "=" (name "x") (name "x")))),
      .one none])]

theorem run_without_refused_selfAssignment :
    let tree := (selfAssignedBranch.number 0).1
    let r := run 40 Rule.standard {} tree {} (selfAssignedBranch.number 0).2
    let off := fun i => i == 0
    r.2.log.countP (Event.isRefusal off) = 1 ∧ r.2.log.countP (Event.isApplication 4) = 1 ∧
    ∃ st', run 40 (Rule.silence off 0 Rule.standard) {} tree {} (selfAssignedBranch.number 0).2 =
        (r.1, st') ∧
      st'.fault = none ∧ st'.facts = r.2.facts ∧ st'.next = r.2.next ∧
      (∀ i, st'.log.countP (Event.isApplication i) = r.2.log.countP (Event.isApplication i)) ∧
      stats r.2.log = { stats st'.log with
        skipped := (stats st'.log).skipped + r.2.log.countP (Event.isRefusal off) } := by
  intro tree r off
  have hedits : ∀ i r, Rule.standard[i]? = some r → off i = true → r.Edits := by
    intro i r hr hi
    rw [beq_iff_eq.mp hi] at hr
    cases hr
    exact .inl ⟨_, List.mem_cons_self .., by decide, rfl⟩
  have hrefused : ∀ i, off i = true → r.2.log.countP (Event.isApplication i) = 0 := by
    intro i hi
    rw [beq_iff_eq.mp hi]
    decide +kernel
  refine ⟨by decide +kernel, by decide +kernel, ?_⟩
  exact run_without_refused hedits rfl (by decide +kernel) hrefused

end Pass
end Unravel
