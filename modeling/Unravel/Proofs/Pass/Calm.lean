import Unravel.Proofs.Pass.Tour

/-! A pass that reports no change and no lesson has asked every rule at every node, in the order of the
tour, and left the tree as it was; and a tour that is quiet from given facts makes such a pass. -/

namespace Unravel.Pass

open Node

variable {env : Env}

structure Calm (st st' : State) : Prop where
  sound : st'.fault = none
  changes : st'.changes = st.changes
  lessons : st'.lessons = st.lessons

theorem Calm.split {a b c : Node × State} (hab : Steps env a b) (hbc : Steps env b c)
    (h : Calm a.2 c.2) : Calm a.2 b.2 ∧ Calm b.2 c.2 := by
  have hsound : b.2.fault = none := by
    cases hb : b.2.fault with
    | none => rfl
    | some f =>
      have hc := hbc.failed (by simp [State.failed, hb])
      simp [State.failed, h.sound] at hc
  have hchanges := hab.changes_le
  have hchanges' := hbc.changes_le
  have hlessons := hab.lessons_le
  have hlessons' := hbc.lessons_le
  have := h.changes
  have := h.lessons
  exact ⟨⟨hsound, by omega, by omega⟩, ⟨h.sound, by omega, by omega⟩⟩

theorem settle_calm {trail : Trail} {rs : List Rule} {i : Nat} {n : Node} {st st' : State}
    {l : Landing} (hrs : env.rules.drop i = rs) (h : settle env trail rs i n st = (l, st'))
    (hcalm : Calm st st') :
    l = .kept n ∧ Follows env st.facts (rs.map (.consult · trail n)) st'.facts := by
  induction rs generalizing i st with
  | nil =>
    cases h
    exact ⟨rfl, .nil⟩
  | cons r rs ih =>
    obtain ⟨hr, hrest⟩ := rules_drop hrs
    have hnext {x : Except Fault (Option Outcome)} {st₁ : State}
        (hx : answer env st.facts r trail n = x) (hidle : Idle st.facts trail x)
        (hfacts : st₁.facts = listen env st.facts (.consult r trail n)) (hst₁ : Calm st₁ st')
        (hrun : settle env trail rs (i + 1) n st₁ = (l, st')) :
        l = .kept n ∧ Follows env st.facts ((r :: rs).map (.consult · trail n)) st'.facts := by
      obtain ⟨hl, hlater⟩ := ih hrest hrun hst₁
      rw [hfacts] at hlater
      subst hx
      exact ⟨hl, follows_cons.mpr ⟨hidle, hlater⟩⟩
    cases settle_tried h with
    | passed hanswer h => exact hnext hanswer trivial (by simp [listen, hanswer]) hcalm h
    | raised => cases hcalm.sound
    | @learned fact _ hanswer h =>
      have hlessons := (settle_steps hrest h).1.lessons_le
      dsimp only at hlessons
      rw [hcalm.lessons, State.lessons_learn] at hlessons
      have hknown : (st.facts.learn fact).2 = false := by
        cases hnew : (st.facts.learn fact).2 with
        | false => rfl
        | true =>
          rw [hnew, if_pos rfl] at hlessons
          omega
      have hst₁ : Calm (st.learn i fact) st' := by
        refine ⟨hcalm.sound, by rw [hcalm.changes, State.changes_learn], ?_⟩
        rw [hcalm.lessons, State.lessons_learn, hknown]
        rfl
      exact hnext hanswer hknown (by simp [listen, hanswer]) hst₁ h
    | @skipped o _ hanswer hedit hland h =>
      have hidle : Idle st.facts trail (.ok (some o)) := by
        cases o with
        | learn fact => exact absurd rfl (hedit fact)
        | _ => exact hland
      have hfacts : (st.note (.skipped i)).facts = listen env st.facts (.consult r trail n) := by
        simp only [listen, hanswer]
        cases o with
        | learn fact => exact absurd rfl (hedit fact)
        | _ => rfl
      exact hnext hanswer hidle hfacts ⟨hcalm.sound, hcalm.changes, hcalm.lessons⟩ h
    | left =>
      have hchanges := hcalm.changes
      rw [State.placeAll_snd] at hchanges
      change (st.note (.changed i)).changes = _ at hchanges
      simp [State.changes_note, Event.isChange] at hchanges
    | refused => cases hcalm.sound
    | replaced _ _ h =>
      have hmore : (st.note (.changed i)).changes ≤ st'.changes :=
        (settle_steps hrest h).1.changes_le
      rw [hcalm.changes, State.changes_note] at hmore
      exact absurd hmore (Nat.not_succ_le_self _)

theorem follows_leave {n : Node} {st : State} :
    Follows env st.facts [.leave n] (st.leave n).facts :=
  ⟨⟨trivial, trivial⟩, by rw [State.leave_eq]; rfl⟩

mutual

theorem visit_calm : (fuel : Nat) → {trail : Trail} → {n : Node} → {st st' : State} →
    {l : Landing} → visit env fuel trail n st = (l, st') → Calm st st' →
    l = .kept n ∧ n.nesting ≤ fuel ∧ Follows env st.facts (n.tour env.rules trail) st'.facts
  | 0, trail, n, st, st', l, h, hcalm => by
    rw [visit_zero] at h
    cases h
    cases hcalm.sound
  | fuel + 1, trail, n, st, st', l, h, hcalm => by
    have hcalm₀ : Calm (st.note .entered) st' := ⟨hcalm.sound, hcalm.changes, hcalm.lessons⟩
    cases visit_succ_iff.mp h with
    | unsupported => cases hcalm.sound
    | left _ hsettle => cases (settle_calm (i := 0) rfl hsettle hcalm₀).1
    | failed _ _ hfault => exact absurd hcalm.sound hfault
    | @kept t hd ss ss' st₁ st₂ hsupported hsettle _ hslots =>
      have hfirst := (settle_steps (i := 0) rfl hsettle).1
      have hlater := visitSlots_steps fuel hslots
      have hcalm₂ : Calm (st.note .entered) st₂ :=
        ⟨by simpa using hcalm.sound, by simpa using hcalm₀.changes, by simpa using hcalm₀.lessons⟩
      -- counters only go up, so the rules and the slots are calm each for themselves
      obtain ⟨hcalm₁, hcalm₁₂⟩ := Calm.split (b := (trail.plug (.mk t hd ss), st₁))
        hfirst (.head (.note rfl rfl) hlater) hcalm₂
      obtain ⟨hkept, hrules⟩ := settle_calm (i := 0) rfl hsettle hcalm₁
      cases hkept
      obtain ⟨rfl, hnest, hbelow⟩ := visitSlots_calm fuel hslots
        ⟨hcalm₁₂.sound, hcalm₁₂.changes, hcalm₁₂.lessons⟩
      refine ⟨rfl, Nat.succ_le_succ hnest, ?_⟩
      rw [tour, follows_append]
      refine ⟨st₂.facts, follows_append.mpr ⟨st₁.facts, ?_, hbelow⟩, follows_leave⟩
      exact follows_cons.mpr ⟨hsupported, hrules⟩

theorem visitSlots_calm : (fuel : Nat) → {trail : Trail} → {t : Tag} → {hd : Head} →
    {before ss ss' : List (Slot Node)} → {st st' : State} →
    visitSlots env fuel trail t hd before ss st = (ss', st') → Calm st st' →
    ss' = ss ∧ nestingSlots ss ≤ fuel ∧
      Follows env st.facts (tourSlots env.rules trail t hd before ss) st'.facts
  | fuel, trail, t, hd, before, [], ss', st, st', h, hcalm => by
    rw [visitSlots_nil] at h
    cases h
    exact ⟨rfl, Nat.zero_le _, .nil⟩
  | 0, trail, t, hd, before, s :: ss, ss', st, st', h, hcalm => by
    rw [visitSlots_zero] at h
    cases h
    cases hcalm.sound
  | fuel + 1, trail, t, hd, before, s :: ss, ss', st, st', h, hcalm => by
    cases visitSlots_succ_iff.mp h with
    | failed _ hfault => exact absurd hcalm.sound hfault
    | next hs _ hrest =>
      have hlater := visitSlots_steps fuel hrest
      rw [List.reverse_cons, List.append_assoc, List.append_assoc] at hlater
      obtain ⟨hcalm₁, hcalm₂⟩ := Calm.split (visitSlot_steps hs) hlater hcalm
      obtain ⟨rfl, hnest', hfollows'⟩ := visitSlots_calm fuel hrest hcalm₂
      cases visitSlot_iff.mp hs with
      | empty => exact ⟨rfl, Nat.succ_le_succ hnest', hfollows'⟩
      | node hvisit =>
        obtain ⟨hkept, hnest, hfollows⟩ := visit_calm fuel hvisit hcalm₁
        cases hkept
        exact ⟨rfl, Nat.succ_le_succ (Nat.max_le.mpr ⟨hnest, hnest'⟩),
          follows_append.mpr ⟨_, hfollows, hfollows'⟩⟩
      | items hitems =>
        obtain ⟨rfl, hnest, hfollows⟩ := visitItems_calm fuel hitems hcalm₁
        exact ⟨rfl, Nat.succ_le_succ (Nat.max_le.mpr ⟨hnest, hnest'⟩),
          follows_append.mpr ⟨_, hfollows, hfollows'⟩⟩

theorem visitItems_calm : (fuel : Nat) → {trail : Trail} → {t : Tag} → {hd : Head} →
    {before after : List (Slot Node)} → {left items items' : List (Option Node)} →
    {st st' : State} → visitItems env fuel trail t hd before after left items st = (items', st') →
    Calm st st' →
    items' = items ∧ nestingItems items ≤ fuel ∧
      Follows env st.facts (tourItems env.rules trail t hd before after left items) st'.facts
  | fuel, trail, t, hd, before, after, left, [], items', st, st', h, hcalm => by
    rw [visitItems_nil] at h
    cases h
    exact ⟨rfl, Nat.zero_le _, .nil⟩
  | 0, trail, t, hd, before, after, left, c :: items, items', st, st', h, hcalm => by
    rw [visitItems_zero] at h
    cases h
    cases hcalm.sound
  | fuel + 1, trail, t, hd, before, after, left, none :: items, items', st, st', h, hcalm => by
    obtain ⟨rest, rfl, hrest⟩ := visitItems_hole_iff.mp h
    obtain ⟨rfl, hnest, hfollows⟩ := visitItems_calm fuel hrest hcalm
    exact ⟨rfl, Nat.succ_le_succ hnest, hfollows⟩
  | fuel + 1, trail, t, hd, before, after, left, some c :: items, items', st, st', h, hcalm => by
    cases visitItems_succ_iff.mp h with
    | failed _ hfault => exact absurd hcalm.sound hfault
    | left hvisit _ hrest =>
      obtain ⟨hcalm₁, -⟩ :=
        Calm.split (visit_steps fuel hvisit).1 (visitItems_steps fuel hrest) hcalm
      cases (visit_calm fuel hvisit hcalm₁).1
    | kept hvisit _ hrest =>
      have hlater := visitItems_steps fuel hrest
      rw [List.reverse_cons, List.append_assoc, List.append_assoc] at hlater
      obtain ⟨hcalm₁, hcalm₂⟩ := Calm.split (visit_steps fuel hvisit).1 hlater hcalm
      obtain ⟨hkept, hnest, hfollows⟩ := visit_calm fuel hvisit hcalm₁
      cases hkept
      obtain ⟨rfl, hnest', hfollows'⟩ := visitItems_calm fuel hrest hcalm₂
      exact ⟨rfl, Nat.succ_le_succ (Nat.max_le.mpr ⟨hnest, hnest'⟩),
        follows_append.mpr ⟨_, hfollows, hfollows'⟩⟩

end

/-! Conversely, a quiet tour is what a pass follows. -/

structure Rests (st st' : State) : Prop where
  fault : st'.fault = st.fault
  changes : st'.changes = st.changes
  lessons : st'.lessons = st.lessons
  next : st'.next = st.next

theorem Rests.trans {a b c : State} (h : Rests a b) (h' : Rests b c) : Rests a c :=
  ⟨h'.fault.trans h.fault, h'.changes.trans h.changes, h'.lessons.trans h.lessons,
    h'.next.trans h.next⟩

theorem Rests.leave {st : State} (n : Node) : Rests st (st.leave n) :=
  ⟨by simp, by simp, by simp, by simp⟩

variable {facts : Facts}

theorem settle_quiet {trail : Trail} {rs : List Rule} {n : Node} (i : Nat) (st : State)
    (h : Follows env st.facts (rs.map (.consult · trail n)) facts) :
    ∃ st', settle env trail rs i n st = (.kept n, st') ∧ st'.facts = facts ∧ Rests st st' := by
  induction rs generalizing i st with
  | nil => exact ⟨st, rfl, h.facts_eq.symm, rfl, rfl, rfl, rfl⟩
  | cons r rs ih =>
    obtain ⟨hidle, hrest⟩ := follows_cons.mp h
    change Idle st.facts trail (answer env st.facts r trail n) at hidle
    have hnext (st₁ : State) (hfacts : st₁.facts = listen env st.facts (.consult r trail n))
        (hrests : Rests st st₁)
        (hstep : settle env trail (r :: rs) i n st = settle env trail rs (i + 1) n st₁) :
        ∃ st', settle env trail (r :: rs) i n st = (.kept n, st') ∧ st'.facts = facts ∧
          Rests st st' := by
      rw [← hfacts] at hrest
      obtain ⟨st', hrun, hend, hrests'⟩ := ih (i + 1) st₁ hrest
      exact ⟨st', hstep.trans hrun, hend, hrests.trans hrests'⟩
    cases hanswer : answer env st.facts r trail n with
    | error f =>
      rw [hanswer] at hidle
      cases hidle
    | ok o =>
      rw [hanswer] at hidle
      cases o with
      | none =>
        exact hnext st (by simp [listen, hanswer]) ⟨rfl, rfl, rfl, rfl⟩
          (by rw [settle_cons, hanswer])
      | some o =>
        cases o with
        | learn fact =>
          change (st.facts.learn fact).2 = false at hidle
          refine hnext (st.learn i fact) (by simp [listen, hanswer]) ⟨by simp, by simp, ?_, by simp⟩
            (by rw [settle_cons, hanswer])
          simp [State.lessons_learn, hidle]
        | replace | splice | remove =>
          change land trail _ = none at hidle
          refine hnext (st.note (.skipped i)) (by simp [listen, hanswer]) ⟨rfl, rfl, rfl, rfl⟩ ?_
          simp only [settle_cons, hanswer, settleEdit, hidle]

mutual

theorem visit_quiet : (fuel : Nat) → {trail : Trail} → {n : Node} → {st : State} →
    {facts : Facts} → n.nesting ≤ fuel → st.fault = none →
    Follows env st.facts (n.tour env.rules trail) facts →
    ∃ st', visit env fuel trail n st = (.kept n, st') ∧ st'.facts = facts ∧ Rests st st'
  | 0, trail, .mk t hd ss, st, facts, hnest, hst, h => by
    simp [nesting] at hnest
  | fuel + 1, trail, .mk t hd ss, st, facts, hnest, hst, h => by
    rw [tour, follows_append] at h
    obtain ⟨b, hdown, hleave⟩ := h
    obtain ⟨a, hhere, hbelow⟩ := follows_append.mp hdown
    obtain ⟨hsupported, hrules⟩ := follows_cons.mp hhere
    obtain ⟨st₁, hsettle, rfl, hrests₁⟩ := settle_quiet 0 (st.note .entered) hrules
    have hsound : st₁.fault = none := hrests₁.fault.trans hst
    have hnoted : (st₁.note (.descended t.mark)).fault = none := hsound
    obtain ⟨st₂, hslots, rfl, hrests₂⟩ :=
      visitSlots_quiet fuel (Nat.le_of_succ_le_succ hnest) hnoted hbelow
    refine ⟨st₂.leave (.mk t hd ss),
      visit_succ_iff.mpr (.kept hsupported hsettle hsound hslots), ?_, ?_⟩
    · rw [hleave.facts_eq, State.leave_eq]
      rfl
    · have hentered : Rests st (st.note .entered) := ⟨rfl, rfl, rfl, rfl⟩
      have hdescended : Rests st₁ (st₁.note (.descended t.mark)) := ⟨rfl, rfl, rfl, rfl⟩
      exact ((hentered.trans hrests₁).trans (hdescended.trans hrests₂)).trans (.leave _)

theorem visitSlots_quiet : (fuel : Nat) → {trail : Trail} → {t : Tag} → {hd : Head} →
    {before ss : List (Slot Node)} → {st : State} → {facts : Facts} → nestingSlots ss ≤ fuel →
    st.fault = none → Follows env st.facts (tourSlots env.rules trail t hd before ss) facts →
    ∃ st', visitSlots env fuel trail t hd before ss st = (ss, st') ∧ st'.facts = facts ∧
      Rests st st'
  | fuel, trail, t, hd, before, [], st, facts, hnest, hst, h =>
    ⟨st, visitSlots_nil, h.facts_eq.symm, rfl, rfl, rfl, rfl⟩
  | 0, trail, t, hd, before, s :: ss, st, facts, hnest, hst, h => by
    match s with
    | .one none | .one (some c) | .many items => simp [nestingSlots] at hnest
  | fuel + 1, trail, t, hd, before, .one none :: ss, st, facts, hnest, hst, h => by
    obtain ⟨st₁, hrest, hfacts, hrests⟩ :=
      visitSlots_quiet fuel (Nat.le_of_succ_le_succ hnest) hst h
    exact ⟨st₁, visitSlots_succ_iff.mpr (.next rfl hst hrest), hfacts, hrests⟩
  | fuel + 1, trail, t, hd, before, .one (some c) :: ss, st, facts, hnest, hst, h => by
    obtain ⟨hnest₁, hnest₂⟩ := Nat.max_le.mp (Nat.le_of_succ_le_succ hnest)
    obtain ⟨_, hfirst, hlater⟩ := follows_append.mp h
    obtain ⟨st₁, hvisit, rfl, hrests₁⟩ := visit_quiet fuel hnest₁ hst hfirst
    have hsound := hrests₁.fault.trans hst
    obtain ⟨st₂, hrest, hfacts, hrests₂⟩ := visitSlots_quiet fuel hnest₂ hsound hlater
    exact ⟨st₂, visitSlots_succ_iff.mpr (.next (visitSlot_iff.mpr (.node hvisit)) hsound hrest),
      hfacts, hrests₁.trans hrests₂⟩
  | fuel + 1, trail, t, hd, before, .many items :: ss, st, facts, hnest, hst, h => by
    obtain ⟨hnest₁, hnest₂⟩ := Nat.max_le.mp (Nat.le_of_succ_le_succ hnest)
    obtain ⟨_, hfirst, hlater⟩ := follows_append.mp h
    obtain ⟨st₁, hitems, rfl, hrests₁⟩ := visitItems_quiet fuel hnest₁ hst hfirst
    have hsound := hrests₁.fault.trans hst
    obtain ⟨st₂, hrest, hfacts, hrests₂⟩ := visitSlots_quiet fuel hnest₂ hsound hlater
    exact ⟨st₂, visitSlots_succ_iff.mpr (.next (visitSlot_iff.mpr (.items hitems)) hsound hrest),
      hfacts, hrests₁.trans hrests₂⟩

theorem visitItems_quiet : (fuel : Nat) → {trail : Trail} → {t : Tag} → {hd : Head} →
    {before after : List (Slot Node)} → {left items : List (Option Node)} → {st : State} →
    {facts : Facts} → nestingItems items ≤ fuel → st.fault = none →
    Follows env st.facts (tourItems env.rules trail t hd before after left items) facts →
    ∃ st', visitItems env fuel trail t hd before after left items st = (items, st') ∧
      st'.facts = facts ∧ Rests st st'
  | fuel, trail, t, hd, before, after, left, [], st, facts, hnest, hst, h =>
    ⟨st, visitItems_nil, h.facts_eq.symm, rfl, rfl, rfl, rfl⟩
  | 0, trail, t, hd, before, after, left, c :: items, st, facts, hnest, hst, h => by
    match c with
    | none | some c => simp [nestingItems] at hnest
  | fuel + 1, trail, t, hd, before, after, left, none :: items, st, facts, hnest, hst, h => by
    obtain ⟨st₁, hrest, hfacts, hrests⟩ :=
      visitItems_quiet fuel (Nat.le_of_succ_le_succ hnest) hst h
    exact ⟨st₁, visitItems_hole_iff.mpr ⟨items, rfl, hrest⟩, hfacts, hrests⟩
  | fuel + 1, trail, t, hd, before, after, left, some c :: items, st, facts, hnest, hst, h => by
    obtain ⟨hnest₁, hnest₂⟩ := Nat.max_le.mp (Nat.le_of_succ_le_succ hnest)
    obtain ⟨_, hfirst, hlater⟩ := follows_append.mp h
    obtain ⟨st₁, hvisit, rfl, hrests₁⟩ := visit_quiet fuel hnest₁ hst hfirst
    have hsound := hrests₁.fault.trans hst
    obtain ⟨st₂, hrest, hfacts, hrests₂⟩ := visitItems_quiet fuel hnest₂ hsound hlater
    exact ⟨st₂, visitItems_succ_iff.mpr (.kept hvisit hsound hrest), hfacts, hrests₁.trans hrests₂⟩

end

end Unravel.Pass
