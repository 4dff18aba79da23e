import Unravel.Proofs.Pass.Keeps

/-! What the log of a pass says about the tree that the pass leaves: the walk went down from each of its
nodes, in pre-order, after the node was found to be supported, and the nodes that were entered are
those and the ones that made room for statements. -/

namespace Unravel

def Event.ofRule : Event → Bool
  | .changed _ | .learned _ | .skipped _ => true
  | _ => false

namespace Pass

open Node

def descents (log : List Event) : List (Option Nat) :=
  log.filterMap fun
    | .descended mark => some mark
    | _ => none

theorem descents_append (log log' : List Event) :
    descents (log ++ log') = descents log ++ descents log' := List.filterMap_append

theorem count_descended (log : List Event) (mark : Option Nat) :
    log.count (.descended mark) = (descents log).count mark := by
  induction log with
  | nil => rfl
  | cons e log ih =>
    cases e with
    | descended mark' => by_cases h : mark' = mark <;> simpa [descents, h] using ih
    | entered => simpa [descents, List.count_cons] using ih
    | changed => simpa [descents, List.count_cons] using ih
    | learned => simpa [descents, List.count_cons] using ih
    | skipped => simpa [descents, List.count_cons] using ih

theorem descents_of_rules {log : List Event} (h : ∀ e ∈ log, e.ofRule = true) :
    descents log = [] := by
  refine List.filterMap_eq_nil_iff.mpr fun e he => ?_
  have hrule := h e he
  cases e <;> first | rfl | cases hrule

theorem entries_of_rules {log : List Event} (h : ∀ e ∈ log, e.ofRule = true) :
    log.countP Event.isEntry = 0 := by
  refine List.countP_eq_zero.mpr fun e he => ?_
  have hrule := h e he
  cases e <;> first | exact Bool.false_ne_true | cases hrule

def State.entries (st : State) : Nat := st.log.countP Event.isEntry

variable {env : Env} {trail : Trail} {rs : List Rule} {i : Nat} {n : Node} {st st' : State}
  {l : Landing}

theorem settle_log (h : settle env trail rs i n st = (l, st')) :
    ∃ log, st'.log = log ++ st.log ∧ (∀ e ∈ log, e.ofRule = true) ∧
      ∀ ns, l = .left ns → 0 < log.countP Event.isChange := by
  induction rs generalizing i n st with
  | nil =>
    cases h
    exact ⟨[], rfl, nofun, by simp⟩
  | cons r rs ih =>
    have hnext {st₁ : State} {m : Node} {e : Event} (hlog : st₁.log = e :: st.log)
        (he : e.ofRule = true) (hrun : settle env trail rs (i + 1) m st₁ = (l, st')) :
        ∃ log, st'.log = log ++ st.log ∧ (∀ e ∈ log, e.ofRule = true) ∧
          ∀ ns, l = .left ns → 0 < log.countP Event.isChange := by
      obtain ⟨log, heq, hrules, hleft⟩ := ih hrun
      refine ⟨log ++ [e], ?_, ?_, fun ns hns => ?_⟩
      · rw [heq, hlog, List.append_assoc, List.singleton_append]
      · exact List.forall_mem_append.mpr ⟨hrules, List.forall_mem_singleton.mpr he⟩
      · rw [List.countP_append]
        exact Nat.add_pos_left (hleft ns hns) _
    cases settle_tried h with
    | passed _ h => exact ih h
    | raised => exact ⟨[], rfl, nofun, by simp⟩
    | @learned fact _ _ h =>
      cases hnew : (st.facts.learn fact).2 with
      | true =>
        refine hnext (e := .learned i) ?_ rfl h
        rw [State.learn_eq, hnew]
        rfl
      | false =>
        have hsame : (st.learn i fact).log = st.log := by
          rw [State.learn_eq, hnew]
          rfl
        obtain ⟨log, heq, hrules, hleft⟩ := ih h
        exact ⟨log, heq.trans (by rw [hsame]), hrules, hleft⟩
    | skipped _ _ _ h => exact hnext (e := .skipped i) rfl rfl h
    | left =>
      rw [State.placeAll_snd]
      exact ⟨[.changed i], rfl, List.forall_mem_singleton.mpr rfl, fun _ _ => Nat.one_pos⟩
    | refused => exact ⟨[.changed i], rfl, List.forall_mem_singleton.mpr rfl, by simp⟩
    | replaced _ _ h => exact hnext (e := .changed i) rfl rfl h

theorem settle_refused {r : Rule} {o : Outcome} {m : Node} {f : Fault}
    (hanswer : answer env st.facts r trail n = .ok (some o)) (hland : land trail o = some (.kept m))
    (hunsupported : ((st.note (.changed i)).place m).1.supported = .error f) :
    settle env trail (r :: rs) i n st =
      (.kept ((st.note (.changed i)).place m).1, ((st.note (.changed i)).place m).2.fail f) := by
  obtain ⟨happlies, htransform⟩ := applies_of_answer hanswer
  obtain ⟨frame, fs, rfl, hlands⟩ := lands_of_land hland
  cases hlands <;>
    simp only [settle, happlies, htransform, hland, hunsupported, Bool.not_true, Bool.false_eq_true,
      if_false]

theorem settle_supported {m : Node} (h : settle env trail rs i n st = (.kept m, st'))
    (hn : n.supported = .ok ()) (hfault : st'.fault = none) : m.supported = .ok () := by
  induction rs generalizing i n st with
  | nil =>
    cases h
    exact hn
  | cons r rs ih =>
    cases settle_tried h with
    | passed _ h => exact ih h hn
    | raised => cases hfault
    | learned _ h => exact ih h hn
    | skipped _ _ _ h => exact ih h hn
    | refused => cases hfault
    | @replaced o k q hanswer hland hrest =>
      refine ih hrest ?_
      cases hsupported : ((st.note (.changed i)).place k).1.supported with
      | ok u => rfl
      | error f =>
        rw [settle_refused hanswer hland hsupported] at h
        cases h
        cases hfault

structure Accounts (st st' : State) (ns : List Node) : Prop where
  descents : descents st'.log = (ns.map mark).reverse ++ descents st.log
  enough : st.entries + ns.length ≤ st'.entries
  limited : st'.entries + st.changes ≤ st.entries + ns.length + st'.changes
  supported : ∀ c ∈ ns, c.supported = .ok ()

theorem Accounts.refl (st : State) : Accounts st st [] :=
  ⟨rfl, Nat.le_refl _, Nat.le_refl _, nofun⟩

theorem Accounts.append {st st' st'' : State} {ns ns' : List Node} (h : Accounts st st' ns)
    (h' : Accounts st' st'' ns') : Accounts st st'' (ns ++ ns') := by
  have henough := h.enough
  have henough' := h'.enough
  have hlimited := h.limited
  have hlimited' := h'.limited
  refine ⟨?_, ?_, ?_, List.forall_mem_append.mpr ⟨h.supported, h'.supported⟩⟩
  · rw [h'.descents, h.descents, List.map_append, List.reverse_append, List.append_assoc]
  · rw [List.length_append]
    omega
  · rw [List.length_append]
    omega

def Landing.done : Landing → List Node
  | .kept n => n.walk
  | .left _ => []

theorem accounts_left {ns : List Node}
    (h : settle env trail rs i n (st.note .entered) = (.left ns, st')) : Accounts st st' [] := by
  obtain ⟨log, heq, hrules, hleft⟩ := settle_log h
  have hchange := hleft ns rfl
  have hnone := entries_of_rules hrules
  have hentries : st'.entries = st.entries + 1 := by
    rw [State.entries, heq, List.countP_append, hnone, Nat.zero_add]
    exact List.countP_cons_of_pos rfl
  have hchanges : st'.changes = log.countP Event.isChange + st.changes := by
    rw [State.changes, heq, List.countP_append]
    exact congrArg _ (List.countP_cons_of_neg Bool.false_ne_true)
  refine ⟨?_, ?_, ?_, List.forall_mem_nil _⟩
  · rw [heq, descents_append, descents_of_rules hrules]
    rfl
  · rw [hentries]
    exact Nat.le_succ _
  · rw [hentries, hchanges, List.length_nil]
    omega

theorem accounts_kept {t : Tag} {hd : Head} {ss : List (Slot Node)} (ss' : List (Slot Node))
    (h : settle env trail rs i n (st.note .entered) = (.kept (.mk t hd ss), st'))
    (hn : n.supported = .ok ()) (hfault : st'.fault = none) :
    Accounts st (st'.note (.descended t.mark)) [.mk t hd ss'] := by
  obtain ⟨log, heq, hrules, -⟩ := settle_log h
  have hnone := entries_of_rules hrules
  have hentries : (st'.note (.descended t.mark)).entries = st.entries + 1 := by
    rw [State.entries, State.note, List.countP_cons_of_neg Bool.false_ne_true, heq,
      List.countP_append, hnone, Nat.zero_add]
    exact List.countP_cons_of_pos rfl
  have hchanges : st.changes ≤ (st'.note (.descended t.mark)).changes := by
    rw [State.changes, State.changes, State.note, List.countP_cons_of_neg Bool.false_ne_true, heq,
      List.countP_append]
    exact Nat.le_trans (Nat.le_of_eq (List.countP_cons_of_neg Bool.false_ne_true).symm)
      (Nat.le_add_left _ _)
  refine ⟨?_, Nat.le_of_eq hentries.symm, ?_, List.forall_mem_singleton.mpr ?_⟩
  · have hlog : (st'.note (.descended t.mark)).log =
        .descended t.mark :: (log ++ .entered :: st.log) := by rw [State.note, heq]; rfl
    rw [hlog, ← List.singleton_append, descents_append, descents_append, descents_of_rules hrules]
    rfl
  · rw [hentries, List.length_singleton]
    omega
  · have hsupported := settle_supported h hn hfault
    cases hd <;> first | rfl | cases hsupported

mutual

theorem visit_accounts : (fuel : Nat) → {trail : Trail} → {n : Node} → {st st' : State} →
    {l : Landing} → visit env fuel trail n st = (l, st') → st'.fault = none →
    Accounts st st' l.done
  | 0, trail, n, st, st', l, h, hfault => by
    rw [visit_zero] at h
    cases h
    cases hfault
  | fuel + 1, trail, n, st, st', l, h, hfault => by
    cases visit_succ_iff.mp h with
    | unsupported => cases hfault
    | left _ hsettle => exact accounts_left hsettle
    | failed _ _ hfailed => exact absurd hfault hfailed
    | @kept t hd ss ss' st₁ st₂ hsupported hsettle hsound hslots =>
      have hself := accounts_kept ss' hsettle hsupported hsound
      have hbelow := visitSlots_accounts fuel hslots (by simpa using hfault)
      have hall := hself.append hbelow
      rw [State.leave_eq]
      exact ⟨hall.descents, hall.enough, hall.limited, hall.supported⟩

theorem visitSlots_accounts : (fuel : Nat) → {trail : Trail} → {t : Tag} → {hd : Head} →
    {before ss ss' : List (Slot Node)} → {st st' : State} →
    visitSlots env fuel trail t hd before ss st = (ss', st') → st'.fault = none →
    Accounts st st' (walkSlots ss')
  | fuel, trail, t, hd, before, [], ss', st, st', h, hfault => by
    rw [visitSlots_nil] at h
    cases h
    exact .refl st
  | 0, trail, t, hd, before, s :: ss, ss', st, st', h, hfault => by
    rw [visitSlots_zero] at h
    cases h
    cases hfault
  | fuel + 1, trail, t, hd, before, s :: ss, ss', st, st', h, hfault => by
    cases visitSlots_succ_iff.mp h with
    | failed _ hfailed => exact absurd hfault hfailed
    | @next s₁ _ st₁ _ hs hsound hrest =>
      have hfirst : Accounts st st₁ (walkSlots [s₁]) := by
        cases visitSlot_iff.mp hs with
        | empty => exact .refl st
        | node hvisit =>
          rw [walkSlots, walkSlots, List.append_nil]
          exact visit_accounts fuel hvisit hsound
        | items hitems =>
          rw [walkSlots, walkSlots, List.append_nil]
          exact visitItems_accounts fuel hitems hsound
      rw [walkSlots_cons]
      exact hfirst.append (visitSlots_accounts fuel hrest hfault)

theorem visitItems_accounts : (fuel : Nat) → {trail : Trail} → {t : Tag} → {hd : Head} →
    {before after : List (Slot Node)} → {left items items' : List (Option Node)} →
    {st st' : State} → visitItems env fuel trail t hd before after left items st = (items', st') →
    st'.fault = none → Accounts st st' (walkItems items')
  | fuel, trail, t, hd, before, after, left, [], items', st, st', h, hfault => by
    rw [visitItems_nil] at h
    cases h
    exact .refl st
  | 0, trail, t, hd, before, after, left, c :: items, items', st, st', h, hfault => by
    rw [visitItems_zero] at h
    cases h
    cases hfault
  | fuel + 1, trail, t, hd, before, after, left, none :: items, items', st, st', h, hfault => by
    obtain ⟨rest, rfl, hrest⟩ := visitItems_hole_iff.mp h
    have hlater := visitItems_accounts fuel hrest hfault
    exact hlater
  | fuel + 1, trail, t, hd, before, after, left, some c :: items, items', st, st', h, hfault => by
    cases visitItems_succ_iff.mp h with
    | failed _ hfailed => exact absurd hfault hfailed
    | left hvisit hsound hrest =>
      exact (visit_accounts fuel hvisit hsound).append (visitItems_accounts fuel hrest hfault)
    | kept hvisit hsound hrest =>
      rw [walkItems]
      exact (visit_accounts fuel hvisit hsound).append (visitItems_accounts fuel hrest hfault)

end

end Pass
end Unravel
