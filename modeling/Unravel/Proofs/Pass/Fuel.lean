import Unravel.Proofs.Rule.Catalog

/-! Fuel only bounds a pass: one that ends is the same with more of it. Without inlining a pass nests
no deeper than its tree weighs, so that much fuel is enough. -/

namespace Unravel

open Node

namespace Pass

variable {env : Env}

mutual

theorem visit_succ : (fuel : Nat) → {trail : Trail} → {n : Node} → {st st' : State} → {l : Landing} →
    visit env fuel trail n st = (l, st') → st'.fault ≠ some .outOfFuel →
    visit env (fuel + 1) trail n st = (l, st')
  | 0, trail, n, st, st', l, h, hends => by
    rw [visit_zero] at h
    cases h
    exact absurd rfl hends
  | fuel + 1, trail, n, st, st', l, h, hends => by
    cases visit_succ_iff.mp h with
    | unsupported hunsupported => exact visit_succ_iff.mpr (.unsupported hunsupported)
    | left hsupported hsettle => exact visit_succ_iff.mpr (.left hsupported hsettle)
    | failed hsupported hsettle hfault => exact visit_succ_iff.mpr (.failed hsupported hsettle hfault)
    | kept hsupported hsettle hsound hslots =>
      rw [State.fault_leave] at hends
      exact visit_succ_iff.mpr (.kept hsupported hsettle hsound (visitSlots_succ fuel hslots hends))

theorem visitSlots_succ : (fuel : Nat) → {trail : Trail} → {t : Tag} → {hd : Head} →
    {before ss ss' : List (Slot Node)} → {st st' : State} →
    visitSlots env fuel trail t hd before ss st = (ss', st') → st'.fault ≠ some .outOfFuel →
    visitSlots env (fuel + 1) trail t hd before ss st = (ss', st')
  | fuel, trail, t, hd, before, [], ss', st, st', h, hends => by
    rw [visitSlots_nil] at h ⊢
    exact h
  | 0, trail, t, hd, before, s :: ss, ss', st, st', h, hends => by
    rw [visitSlots_zero] at h
    cases h
    exact absurd rfl hends
  | fuel + 1, trail, t, hd, before, s :: ss, ss', st, st', h, hends => by
    have hslot {s' : Slot Node} {st₁ : State} (hends₁ : st₁.fault ≠ some .outOfFuel)
        (hs : visitSlot env fuel trail t hd before ss s st = (s', st₁)) :
        visitSlot env (fuel + 1) trail t hd before ss s st = (s', st₁) := by
      cases visitSlot_iff.mp hs with
      | empty => rfl
      | node hvisit => exact visitSlot_iff.mpr (.node (visit_succ fuel hvisit hends₁))
      | items hitems => exact visitSlot_iff.mpr (.items (visitItems_succ fuel hitems hends₁))
    cases visitSlots_succ_iff.mp h with
    | failed hs hfault => exact visitSlots_succ_iff.mpr (.failed (hslot hends hs) hfault)
    | next hs hsound hrest =>
      have hs' := hslot (by simp [hsound]) hs
      exact visitSlots_succ_iff.mpr (.next hs' hsound (visitSlots_succ fuel hrest hends))

theorem visitItems_succ : (fuel : Nat) → {trail : Trail} → {t : Tag} → {hd : Head} →
    {before after : List (Slot Node)} → {left items items' : List (Option Node)} →
    {st st' : State} → visitItems env fuel trail t hd before after left items st = (items', st') →
    st'.fault ≠ some .outOfFuel →
    visitItems env (fuel + 1) trail t hd before after left items st = (items', st')
  | fuel, trail, t, hd, before, after, left, [], items', st, st', h, hends => by
    rw [visitItems_nil] at h ⊢
    exact h
  | 0, trail, t, hd, before, after, left, c :: items, items', st, st', h, hends => by
    rw [visitItems_zero] at h
    cases h
    exact absurd rfl hends
  | fuel + 1, trail, t, hd, before, after, left, none :: items, items', st, st', h, hends => by
    obtain ⟨rest, rfl, hrest⟩ := visitItems_hole_iff.mp h
    exact visitItems_hole_iff.mpr ⟨rest, rfl, visitItems_succ fuel hrest hends⟩
  | fuel + 1, trail, t, hd, before, after, left, some c :: items, items', st, st', h, hends => by
    cases visitItems_succ_iff.mp h with
    | failed hvisit hfault =>
      exact visitItems_succ_iff.mpr (.failed (visit_succ fuel hvisit hends) hfault)
    | left hvisit hsound hrest =>
      have hvisit' := visit_succ fuel hvisit (by simp [hsound])
      exact visitItems_succ_iff.mpr (.left hvisit' hsound (visitItems_succ fuel hrest hends))
    | kept hvisit hsound hrest =>
      have hvisit' := visit_succ fuel hvisit (by simp [hsound])
      exact visitItems_succ_iff.mpr (.kept hvisit' hsound (visitItems_succ fuel hrest hends))

end

theorem visit_stable {fuel more : Nat} {trail : Trail} {n : Node} {st : State}
    (h : (visit env fuel trail n st).2.fault ≠ some .outOfFuel) (hle : fuel ≤ more) :
    visit env more trail n st = visit env fuel trail n st := by
  induction hle with
  | refl => rfl
  | step _ ih => exact (visit_succ _ rfl (ih ▸ h)).trans ih

/-- A visit either runs out of its fuel or ends as one with other fuel that ended. -/
theorem visit_outOfFuel_or {fuel : Nat} {trail : Trail} {n : Node} {st : State}
    (h : (visit env fuel trail n st).2.fault ≠ some .outOfFuel) (k : Nat) :
    (visit env k trail n st).2.fault = some .outOfFuel ∨
      visit env k trail n st = visit env fuel trail n st := by
  by_cases hk : (visit env k trail n st).2.fault = some .outOfFuel
  · exact .inl hk
  · rcases Nat.le_total k fuel with hle | hle
    · exact .inr (visit_stable hk hle).symm
    · exact .inr (visit_stable h hle)

def State.Unlimited (st : State) : Prop := ∀ f, st.fault = some f → f.isLimit = false

def Env.Unlimited (env : Env) : Prop :=
  ∀ r ∈ env.rules, ∀ site n, Unravel.Unlimited (r.transform site n)

theorem unlimited_fail {st : State} {f : Fault} (h : f.isLimit = false) :
    (st.fail f).Unlimited := by
  rintro g hg
  cases hg
  exact h

theorem unlimited_answer (hrules : env.Unlimited) {facts : Facts} {r : Rule} {trail : Trail}
    {n : Node} (hr : r ∈ env.rules) : Unravel.Unlimited (answer env facts r trail n) :=
  .ite (hrules r hr _ n) (.ok _)

theorem settle_unlimited {σ : Nat} (htame : env.Tame) (hrules : env.Unlimited) {trail : Trail}
    {rs : List Rule} {i : Nat} {n : Node} {st st' : State} {l : Landing}
    (hrs : env.rules.drop i = rs) (h : settle env trail rs i n st = (l, st'))
    (hst : st.Unlimited) : st'.Unlimited ∧ l.weigh σ ≤ n.weigh σ := by
  induction rs generalizing i n st with
  | nil =>
    cases h
    exact ⟨hst, Nat.le_refl _⟩
  | cons r rs ih =>
    obtain ⟨hr, hrest⟩ := rules_drop hrs
    have hlight {o : Outcome} {l : Landing} (hanswer : answer env st.facts r trail n = .ok (some o))
        (hland : land trail o = some l) : l.weigh σ ≤ n.weigh σ := by
      have hmove := htame i trail st.facts n o ⟨r, hr, hanswer⟩
      obtain ⟨hedit, hweigh, -⟩ := landing_of_land (σ := σ) hland
      have hlt := hmove.weigh_lt (σ := σ) hedit
      omega
    cases settle_tried h with
    | passed _ h => exact ih hrest h hst
    | raised hanswer =>
      exact ⟨unlimited_fail (unlimited_answer hrules (List.mem_of_getElem? hr) _ hanswer),
        Nat.le_refl _⟩
    | learned _ h => exact ih hrest h (by simpa [State.Unlimited] using hst)
    | skipped _ _ _ h => exact ih hrest h hst
    | @left o ns hanswer hland =>
      have hkeep := (placeAll_keeps (σ := σ) (st.note (.changed i)) ns).1
      refine ⟨?_, ?_⟩
      · rw [State.placeAll_snd]
        exact hst
      · have hless := hlight hanswer hland
        simp only [Landing.weigh] at hless ⊢
        omega
    | @refused o m f hanswer hland hunsupported =>
      refine ⟨unlimited_fail (unlimited_supported _ f hunsupported), ?_⟩
      have hless := hlight hanswer hland
      simpa only [Landing.weigh, State.place_eq, weigh_number] using hless
    | @replaced o m _ hanswer hland h =>
      obtain ⟨hst', hless'⟩ := ih hrest h hst
      have hless := hlight hanswer hland
      simp only [State.place_eq, weigh_number] at hless'
      exact ⟨hst', Nat.le_trans hless' hless⟩

mutual

theorem visit_unlimited (htame : env.Tame) (hrules : env.Unlimited) : (fuel : Nat) →
    {trail : Trail} → {n : Node} → {st st' : State} → {l : Landing} → n.weigh 1 ≤ fuel →
    visit env fuel trail n st = (l, st') → st.Unlimited →
    st'.Unlimited ∧ ∀ ns, l = .left ns → weighItems 1 (ns.map some) ≤ n.weigh 1
  | 0, trail, n, st, st', l, hfuel, h, hst => by
    have hpos := weigh_pos (σ := 1) n
    omega
  | fuel + 1, trail, n, st, st', l, hfuel, h, hst => by
    cases visit_succ_iff.mp h with
    | unsupported hunsupported =>
      exact ⟨unlimited_fail (unlimited_supported n _ hunsupported), nofun⟩
    | left _ hsettle =>
      obtain ⟨hst', hless⟩ := settle_unlimited (σ := 1) (i := 0) htame hrules rfl hsettle hst
      refine ⟨hst', fun ns hl => ?_⟩
      cases hl
      exact hless
    | failed _ hsettle =>
      exact ⟨(settle_unlimited (σ := 1) (i := 0) htame hrules rfl hsettle hst).1, nofun⟩
    | @kept t hd ss ss' st₁ st₂ _ hsettle _ hslots =>
      obtain ⟨hst₁, hless⟩ := settle_unlimited (σ := 1) (i := 0) htame hrules rfl hsettle hst
      -- the head weighs something, so the slots fit into one unit of fuel less
      have hpos := weight_pos (σ := 1) hd
      simp only [Landing.weigh, weigh] at hless
      have hst₂ := visitSlots_unlimited htame hrules fuel (by omega) hslots hst₁
      exact ⟨by simpa [State.Unlimited] using hst₂, nofun⟩

theorem visitSlots_unlimited (htame : env.Tame) (hrules : env.Unlimited) : (fuel : Nat) →
    {trail : Trail} → {t : Tag} → {hd : Head} → {before ss ss' : List (Slot Node)} →
    {st st' : State} → weighSlots 1 ss ≤ fuel →
    visitSlots env fuel trail t hd before ss st = (ss', st') → st.Unlimited → st'.Unlimited
  | fuel, trail, t, hd, before, [], ss', st, st', hfuel, h, hst => by
    rw [visitSlots_nil] at h
    cases h
    exact hst
  | 0, trail, t, hd, before, s :: ss, ss', st, st', hfuel, h, hst => by
    have hcharge := charge_le_weighSlots (σ := 1) s
    rw [weighSlots_cons] at hfuel
    omega
  | fuel + 1, trail, t, hd, before, s :: ss, ss', st, st', hfuel, h, hst => by
    have hcharge := charge_le_weighSlots (σ := 1) s
    rw [weighSlots_cons] at hfuel
    have hslot {s' : Slot Node} {st₁ : State}
        (hs : visitSlot env fuel trail t hd before ss s st = (s', st₁)) : st₁.Unlimited := by
      cases visitSlot_iff.mp hs with
      | empty => exact hst
      | node hvisit =>
        simp only [weighSlots] at hfuel
        exact (visit_unlimited htame hrules fuel (by omega) hvisit hst).1
      | items hitems =>
        simp only [weighSlots] at hfuel
        exact visitItems_unlimited htame hrules fuel (by omega) hitems hst
    cases visitSlots_succ_iff.mp h with
    | failed hs => exact hslot hs
    | next hs _ hrest => exact visitSlots_unlimited htame hrules fuel (by omega) hrest (hslot hs)

theorem visitItems_unlimited (htame : env.Tame) (hrules : env.Unlimited) : (fuel : Nat) →
    {trail : Trail} → {t : Tag} → {hd : Head} → {before after : List (Slot Node)} →
    {left items items' : List (Option Node)} → {st st' : State} → weighItems 1 items ≤ fuel →
    visitItems env fuel trail t hd before after left items st = (items', st') →
    st.Unlimited → st'.Unlimited
  | fuel, trail, t, hd, before, after, left, [], items', st, st', hfuel, h, hst => by
    rw [visitItems_nil] at h
    cases h
    exact hst
  | 0, trail, t, hd, before, after, left, none :: items, items', st, st', hfuel, h, hst => by
    simp only [weighItems] at hfuel
    omega
  | 0, trail, t, hd, before, after, left, some c :: items, items', st, st', hfuel, h, hst => by
    simp only [weighItems] at hfuel
    omega
  | fuel + 1, trail, t, hd, before, after, left, none :: items, items', st, st', hfuel, h,
      hst => by
    simp only [weighItems] at hfuel
    obtain ⟨rest, -, hrest⟩ := visitItems_hole_iff.mp h
    exact visitItems_unlimited htame hrules fuel (by omega) hrest hst
  | fuel + 1, trail, t, hd, before, after, left, some c :: items, items', st, st', hfuel, h,
      hst => by
    simp only [weighItems] at hfuel
    cases visitItems_succ_iff.mp h with
    | failed hvisit => exact (visit_unlimited htame hrules fuel (by omega) hvisit hst).1
    | @left ns _ _ _ hvisit _ hrest =>
      obtain ⟨hst₁, hless⟩ := visit_unlimited htame hrules fuel (by omega) hvisit hst
      have hns := hless ns rfl
      -- what is left weighs at most the item, whose charge pays for this unit
      refine visitItems_unlimited htame hrules fuel ?_ hrest hst₁
      rw [weighItems_append]
      omega
    | kept hvisit _ hrest =>
      obtain ⟨hst₁, -⟩ := visit_unlimited htame hrules fuel (by omega) hvisit hst
      exact visitItems_unlimited htame hrules fuel (by omega) hrest hst₁

end

end Pass
end Unravel
