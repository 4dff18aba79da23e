import Unravel.Proofs.Pass.State

/-! What one unit of fuel is for: the visit of a node, of the first slot of several and of the first
item of several, each with the visits that it is made of. -/

namespace Unravel.Pass

def Landing.items : Landing → List (Option Node)
  | .kept c => [some c]
  | .left ns => ns.map some

variable {env : Env} {fuel : Nat} {trail : Trail} {t : Tag} {hd : Head}
  {before after ss ss' : List (Slot Node)} {s : Slot Node} {left items items' : List (Option Node)}
  {n c : Node} {st st' : State} {l : Landing}

theorem State.failed_iff : st.failed = true ↔ st.fault ≠ none :=
  Option.isSome_iff_ne_none

theorem State.failed_eq_false_iff : st.failed = false ↔ st.fault = none :=
  Option.isSome_eq_false_iff.trans Option.isNone_iff_eq_none

/-! Without fuel, and where nothing is left to be visited. -/

theorem visit_zero : visit env 0 trail n st = (.kept n, st.fail .outOfFuel) := rfl

theorem visitSlots_zero :
    visitSlots env 0 trail t hd before (s :: ss) st = (s :: ss, st.fail .outOfFuel) := rfl

theorem visitItems_zero {item : Option Node} :
    visitItems env 0 trail t hd before after left (item :: items) st =
      (item :: items, st.fail .outOfFuel) := rfl

theorem visitSlots_nil : visitSlots env fuel trail t hd before [] st = ([], st) := by
  rw [visitSlots]

theorem visitItems_nil : visitItems env fuel trail t hd before after left [] st = ([], st) := by
  rw [visitItems]

/-! Nodes. -/

inductive NodeVisit (env : Env) (fuel : Nat) (trail : Trail) (n : Node) (st : State) :
    Landing → State → Prop
  | unsupported {f : Fault} : n.supported = .error f →
    NodeVisit env fuel trail n st (.kept n) (st.fail f)
  | left {ns : List Node} {st' : State} : n.supported = .ok () →
    settle env trail env.rules 0 n (st.note .entered) = (.left ns, st') →
    NodeVisit env fuel trail n st (.left ns) st'
  | failed {m : Node} {st' : State} : n.supported = .ok () →
    settle env trail env.rules 0 n (st.note .entered) = (.kept m, st') → st'.fault ≠ none →
    NodeVisit env fuel trail n st (.kept m) st'
  | kept {t : Tag} {hd : Head} {ss ss' : List (Slot Node)} {st₁ st₂ : State} :
    n.supported = .ok () →
    settle env trail env.rules 0 n (st.note .entered) = (.kept (.mk t hd ss), st₁) →
    st₁.fault = none →
    visitSlots env fuel trail t hd [] ss (st₁.note (.descended t.mark)) = (ss', st₂) →
    NodeVisit env fuel trail n st (.kept (.mk t hd ss')) (st₂.leave (.mk t hd ss'))

theorem visit_succ_iff :
    visit env (fuel + 1) trail n st = (l, st') ↔ NodeVisit env fuel trail n st l st' := by
  rw [visit]
  constructor
  · intro h
    split at h
    · rename_i hunsupported
      cases h
      exact .unsupported hunsupported
    · rename_i u hsupported
      split at h
      · rename_i hsettle
        cases h
        exact .left hsupported hsettle
      · rename_i t hd ss st₁ hsettle
        split at h
        · rename_i hfailed
          cases h
          exact .failed hsupported hsettle (State.failed_iff.mp hfailed)
        · rename_i hsound
          generalize hslots : visitSlots env fuel trail t hd [] ss (st₁.note (.descended t.mark))
            = r at h
          obtain ⟨ss', st₂⟩ := r
          cases h
          rw [Bool.not_eq_true, State.failed_eq_false_iff] at hsound
          exact .kept hsupported hsettle hsound hslots
  · rintro (hunsupported | ⟨hsupported, hsettle⟩ | ⟨hsupported, hsettle, hfault⟩ |
      ⟨hsupported, hsettle, hsound, hslots⟩)
    · simp only [hunsupported]
    · simp only [hsupported, hsettle]
    · rename_i m
      obtain ⟨t, hd, ss⟩ := m
      simp only [hsupported, hsettle, State.failed_iff.mpr hfault, if_true]
    · simp only [hsupported, hsettle, State.failed_eq_false_iff.mpr hsound, Bool.false_eq_true,
        if_false, hslots]

/-! Slots. -/

def visitSlot (env : Env) (fuel : Nat) (trail : Trail) (t : Tag) (hd : Head)
    (before after : List (Slot Node)) (s : Slot Node) (st : State) : Slot Node × State :=
  match s with
  | .one none => (.one none, st)
  | .one (some c) =>
    match visit env fuel (⟨t, hd, before, .single, after⟩ :: trail) c st with
    | (.kept c, st) => (.one (some c), st)
    | (.left ns, st) => (.one ns.head?, st)
  | .many items =>
    let r := visitItems env fuel trail t hd before after [] items st
    (.many r.1, r.2)

theorem visitSlots_cons (fuel : Nat) (trail : Trail) (t : Tag) (hd : Head)
    (before : List (Slot Node)) (s : Slot Node) (ss : List (Slot Node)) (st : State) :
    visitSlots env (fuel + 1) trail t hd before (s :: ss) st =
      let r := visitSlot env fuel trail t hd before ss s st
      if r.2.failed then (r.1 :: ss, r.2)
      else
        let q := visitSlots env fuel trail t hd (r.1 :: before) ss r.2
        (r.1 :: q.1, q.2) := by
  match s with
  | .one none => rfl
  | .one (some c) => rfl
  | .many items => rfl

inductive SlotsVisit (env : Env) (fuel : Nat) (trail : Trail) (t : Tag) (hd : Head)
    (before : List (Slot Node)) (s : Slot Node) (ss : List (Slot Node)) (st : State) :
    List (Slot Node) → State → Prop
  | failed {s' : Slot Node} {st' : State} :
    visitSlot env fuel trail t hd before ss s st = (s', st') → st'.fault ≠ none →
    SlotsVisit env fuel trail t hd before s ss st (s' :: ss) st'
  | next {s' : Slot Node} {ss' : List (Slot Node)} {st₁ st' : State} :
    visitSlot env fuel trail t hd before ss s st = (s', st₁) → st₁.fault = none →
    visitSlots env fuel trail t hd (s' :: before) ss st₁ = (ss', st') →
    SlotsVisit env fuel trail t hd before s ss st (s' :: ss') st'

theorem visitSlots_succ_iff : visitSlots env (fuel + 1) trail t hd before (s :: ss) st = (ss', st') ↔
    SlotsVisit env fuel trail t hd before s ss st ss' st' := by
  rw [visitSlots_cons]
  constructor
  · intro h
    generalize hslot : visitSlot env fuel trail t hd before ss s st = r at h
    obtain ⟨s', st₁⟩ := r
    dsimp only at h
    split at h
    · rename_i hfailed
      cases h
      exact .failed hslot (State.failed_iff.mp hfailed)
    · rename_i hsound
      generalize hrest : visitSlots env fuel trail t hd (s' :: before) ss st₁ = r at h
      obtain ⟨ss₁, st₂⟩ := r
      cases h
      rw [Bool.not_eq_true, State.failed_eq_false_iff] at hsound
      exact .next hslot hsound hrest
  · rintro (⟨hslot, hfault⟩ | ⟨hslot, hsound, hrest⟩)
    · simp only [hslot, State.failed_iff.mpr hfault, if_true]
    · simp only [hslot, State.failed_eq_false_iff.mpr hsound, Bool.false_eq_true, if_false, hrest]

/-! Items. -/

/-- How items are visited of which the first is a node: where nothing fails, the statements that take
its place come next with the other items, or the others alone. -/
inductive ItemsVisit (env : Env) (fuel : Nat) (trail : Trail) (t : Tag) (hd : Head)
    (before after : List (Slot Node)) (left : List (Option Node)) (c : Node)
    (items : List (Option Node)) (st : State) : List (Option Node) → State → Prop
  | failed {l : Landing} {st' : State} :
    visit env fuel (⟨t, hd, before, .item left items, after⟩ :: trail) c st = (l, st') →
    st'.fault ≠ none →
    ItemsVisit env fuel trail t hd before after left c items st (l.items ++ items) st'
  | left {ns : List Node} {items' : List (Option Node)} {st₁ st' : State} :
    visit env fuel (⟨t, hd, before, .item left items, after⟩ :: trail) c st = (.left ns, st₁) →
    st₁.fault = none →
    visitItems env fuel trail t hd before after left (ns.map some ++ items) st₁ = (items', st') →
    ItemsVisit env fuel trail t hd before after left c items st items' st'
  | kept {c' : Node} {items' : List (Option Node)} {st₁ st' : State} :
    visit env fuel (⟨t, hd, before, .item left items, after⟩ :: trail) c st = (.kept c', st₁) →
    st₁.fault = none →
    visitItems env fuel trail t hd before after (some c' :: left) items st₁ = (items', st') →
    ItemsVisit env fuel trail t hd before after left c items st (some c' :: items') st'

theorem visitItems_hole_iff :
    visitItems env (fuel + 1) trail t hd before after left (none :: items) st = (items', st') ↔
      ∃ rest, items' = none :: rest ∧
        visitItems env fuel trail t hd before after (none :: left) items st = (rest, st') := by
  rw [visitItems]
  generalize visitItems env fuel trail t hd before after (none :: left) items st = r
  obtain ⟨rest, st₁⟩ := r
  simp only [Prod.mk.injEq]
  constructor
  · rintro ⟨rfl, rfl⟩
    exact ⟨rest, rfl, rfl, rfl⟩
  · rintro ⟨_, rfl, rfl, rfl⟩
    exact ⟨rfl, rfl⟩

theorem visitItems_succ_iff :
    visitItems env (fuel + 1) trail t hd before after left (some c :: items) st = (items', st') ↔
      ItemsVisit env fuel trail t hd before after left c items st items' st' := by
  rw [visitItems]
  constructor
  · intro h
    split at h
    · rename_i ns st₁ hvisit
      split at h
      · rename_i hfailed
        cases h
        exact .failed hvisit (State.failed_iff.mp hfailed)
      · rename_i hsound
        rw [Bool.not_eq_true, State.failed_eq_false_iff] at hsound
        exact .left hvisit hsound h
    · rename_i c' st₁ hvisit
      split at h
      · rename_i hfailed
        cases h
        exact .failed hvisit (State.failed_iff.mp hfailed)
      · rename_i hsound
        generalize hrest : visitItems env fuel trail t hd before after (some c' :: left) items st₁
          = r at h
        obtain ⟨items₁, st₂⟩ := r
        cases h
        rw [Bool.not_eq_true, State.failed_eq_false_iff] at hsound
        exact .kept hvisit hsound hrest
  · rintro (⟨hvisit, hfault⟩ | ⟨hvisit, hsound, hrest⟩ | ⟨hvisit, hsound, hrest⟩)
    · rename_i l
      cases l <;> simp only [hvisit, State.failed_iff.mpr hfault, if_true] <;> rfl
    · simp only [hvisit, State.failed_eq_false_iff.mpr hsound, Bool.false_eq_true, if_false, hrest]
    · simp only [hvisit, State.failed_eq_false_iff.mpr hsound, Bool.false_eq_true, if_false, hrest]

end Unravel.Pass
