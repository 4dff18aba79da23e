import Mathlib.Logic.Relation
import Unravel.Proofs.Pass.Visit

/-! A pass as a sequence of steps on the whole tree. Each step notes an event, fails, records a fact,
edits one position or leaves a function; whatever every step keeps, a pass keeps. -/

namespace Unravel.Pass

variable {env : Env}

def answer (env : Env) (facts : Facts) (r : Rule) (trail : Trail) (n : Node) :
    Except Fault (Option Outcome) :=
  if r.applies n then r.transform ⟨trail, facts, env.settings, env.mutated⟩ n else .ok none

theorem applies_of_answer {facts : Facts} {r : Rule} {trail : Trail} {n : Node} {o : Outcome}
    (h : answer env facts r trail n = .ok (some o)) :
    r.applies n = true ∧ r.transform ⟨trail, facts, env.settings, env.mutated⟩ n = .ok (some o) := by
  unfold answer at h
  split at h
  · rename_i happlies
    exact ⟨happlies, h⟩
  · cases h

def Answers (env : Env) (i : Nat) (trail : Trail) (facts : Facts) (n : Node) (o : Outcome) : Prop :=
  ∃ r, env.rules[i]? = some r ∧ answer env facts r trail n = .ok (some o)

inductive Cause (env : Env) (trail : Trail) (facts : Facts) (n : Node) : Fault → Prop
  | fuel : Cause env trail facts n .outOfFuel
  | unsupported {f : Fault} : n.supported = .error f → Cause env trail facts n f
  | raised {i : Nat} {r : Rule} {f : Fault} :
    env.rules[i]? = some r → answer env facts r trail n = .error f → Cause env trail facts n f

inductive Step (env : Env) : Node × State → Node × State → Prop
  | note {tree : Node} {st : State} {e : Event} :
    e.isChange = false → e.isLesson = false → Step env (tree, st) (tree, st.note e)
  | fail {trail : Trail} {n : Node} {st : State} {f : Fault} :
    Cause env trail st.facts n f → Step env (trail.plug n, st) (trail.plug n, st.fail f)
  | learn {trail : Trail} {n : Node} {st : State} {i : Nat} {fact : Fact} :
    Answers env i trail st.facts n (.learn fact) →
    Step env (trail.plug n, st) (trail.plug n, st.learn i fact)
  | edit {trail : Trail} {n : Node} {st : State} {i : Nat} {o : Outcome} {l : Landing} :
    Answers env i trail st.facts n o → land trail o = some l →
    Step env (trail.plug n, st)
      (trail.fill ((st.note (.changed i)).install l).1, ((st.note (.changed i)).install l).2)
  | leave {trail : Trail} {n : Node} {st : State} :
    Step env (trail.plug n, st) (trail.plug n, st.leave n)

abbrev Steps (env : Env) := Relation.ReflTransGen (Step env)

def Landing.fits (trail : Trail) : Landing → Prop
  | .kept _ => True
  | .left _ => trail.inSequence = true

theorem fits_of_land {trail : Trail} {o : Outcome} {l : Landing} (h : land trail o = some l) :
    l.fits trail := by
  cases l with
  | kept => trivial
  | left ns =>
    unfold land at h
    split at h <;> grind [Landing.fits, Trail.inSequence]

theorem fits_install {trail : Trail} {st : State} {l : Landing} (h : l.fits trail) :
    (st.install l).1.fits trail := by
  cases l with
  | kept => trivial
  | left => exact h

/-- How the rules `rs` after position `i` end when the rule there asks for an edit. -/
def settleEdit (env : Env) (trail : Trail) (rs : List Rule) (i : Nat) (n : Node) (st : State)
    (o : Outcome) : Landing × State :=
  match land trail o with
  | none => settle env trail rs (i + 1) n (st.note (.skipped i))
  | some (.left ns) =>
    let r := (st.note (.changed i)).placeAll ns
    (.left r.1, r.2)
  | some (.kept m) =>
    let r := (st.note (.changed i)).place m
    match r.1.supported with
    | .error f => (.kept r.1, r.2.fail f)
    | .ok _ => settle env trail rs (i + 1) r.1 r.2

theorem settle_cons (trail : Trail) (r : Rule) (rs : List Rule) (i : Nat) (n : Node) (st : State) :
    settle env trail (r :: rs) i n st =
      match answer env st.facts r trail n with
      | .error f => (.kept n, st.fail f)
      | .ok none => settle env trail rs (i + 1) n st
      | .ok (some (.learn fact)) => settle env trail rs (i + 1) n (st.learn i fact)
      | .ok (some o) => settleEdit env trail rs i n st o := by
  rw [settle]
  unfold answer
  cases r.applies n <;> rfl

inductive Tried (env : Env) (trail : Trail) (r : Rule) (rs : List Rule) (i : Nat) (n : Node)
    (st : State) : Landing × State → Prop
  | passed {q : Landing × State} :
    answer env st.facts r trail n = .ok none → settle env trail rs (i + 1) n st = q →
    Tried env trail r rs i n st q
  | raised {f : Fault} :
    answer env st.facts r trail n = .error f → Tried env trail r rs i n st (.kept n, st.fail f)
  | learned {fact : Fact} {q : Landing × State} :
    answer env st.facts r trail n = .ok (some (.learn fact)) →
    settle env trail rs (i + 1) n (st.learn i fact) = q → Tried env trail r rs i n st q
  | skipped {o : Outcome} {q : Landing × State} :
    answer env st.facts r trail n = .ok (some o) → (∀ fact, o ≠ .learn fact) →
    land trail o = none → settle env trail rs (i + 1) n (st.note (.skipped i)) = q →
    Tried env trail r rs i n st q
  | left {o : Outcome} {ns : List Node} :
    answer env st.facts r trail n = .ok (some o) → land trail o = some (.left ns) →
    Tried env trail r rs i n st
      (.left ((st.note (.changed i)).placeAll ns).1, ((st.note (.changed i)).placeAll ns).2)
  | refused {o : Outcome} {m : Node} {f : Fault} :
    answer env st.facts r trail n = .ok (some o) → land trail o = some (.kept m) →
    ((st.note (.changed i)).place m).1.supported = .error f →
    Tried env trail r rs i n st
      (.kept ((st.note (.changed i)).place m).1, ((st.note (.changed i)).place m).2.fail f)
  | replaced {o : Outcome} {m : Node} {q : Landing × State} :
    answer env st.facts r trail n = .ok (some o) → land trail o = some (.kept m) →
    settle env trail rs (i + 1) ((st.note (.changed i)).place m).1
      ((st.note (.changed i)).place m).2 = q →
    Tried env trail r rs i n st q

theorem settle_tried {trail : Trail} {r : Rule} {rs : List Rule} {i : Nat} {n : Node} {st : State}
    {q : Landing × State} (h : settle env trail (r :: rs) i n st = q) :
    Tried env trail r rs i n st q := by
  rw [settle] at h
  split at h
  · rename_i happlies
    have hanswer : answer env st.facts r trail n = .ok none := by
      simp only [Bool.not_eq_true'] at happlies
      simp [answer, happlies]
    exact .passed hanswer h
  · rename_i happlies
    have happlies : r.applies n = true := by simpa using happlies
    have hx : answer env st.facts r trail n =
        r.transform ⟨trail, st.facts, env.settings, env.mutated⟩ n := if_pos happlies
    split at h
    · rename_i hanswer
      subst h
      exact .raised (hx.trans hanswer)
    · rename_i hanswer
      exact .passed (hx.trans hanswer) h
    · rename_i hanswer
      exact .learned (hx.trans hanswer) h
    · rename_i o hedit hanswer
      split at h
      · rename_i hland
        exact .skipped (hx.trans hanswer) (fun fact hfact => hedit fact hfact) hland h
      · rename_i hland
        subst h
        exact .left (hx.trans hanswer) hland
      · rename_i hland
        dsimp only at h
        split at h
        · rename_i hunsupported
          subst h
          exact .refused (hx.trans hanswer) hland hunsupported
        · exact .replaced (hx.trans hanswer) hland h

theorem rules_drop {r : Rule} {rs : List Rule} {i : Nat} (h : env.rules.drop i = r :: rs) :
    env.rules[i]? = some r ∧ env.rules.drop (i + 1) = rs := by
  constructor
  · rw [← List.head?_drop, h, List.head?_cons]
  · rw [← List.tail_drop, h, List.tail_cons]

theorem settle_steps {trail : Trail} {rs : List Rule} {i : Nat} {n : Node} {st st' : State}
    {l : Landing} (hrs : env.rules.drop i = rs) (h : settle env trail rs i n st = (l, st')) :
    Steps env (trail.plug n, st) (trail.fill l, st') ∧ l.fits trail := by
  induction rs generalizing i n st with
  | nil =>
    cases h
    exact ⟨.refl, trivial⟩
  | cons r rs ih =>
    obtain ⟨hr, hrest⟩ := rules_drop hrs
    cases settle_tried h with
    | passed _ h => exact ih hrest h
    | raised hanswer => exact ⟨.single (.fail (.raised hr hanswer)), trivial⟩
    | learned hanswer h =>
      obtain ⟨hsteps, hfits⟩ := ih hrest h
      exact ⟨.head (.learn ⟨r, hr, hanswer⟩) hsteps, hfits⟩
    | skipped _ _ _ h =>
      obtain ⟨hsteps, hfits⟩ := ih hrest h
      exact ⟨.head (.note rfl rfl) hsteps, hfits⟩
    | @left o ns hanswer hland =>
      exact ⟨.single (.edit (l := .left ns) ⟨r, hr, hanswer⟩ hland),
        fits_install (fits_of_land hland)⟩
    | @refused o m f hanswer hland hunsupported =>
      have hedit := Step.edit (l := .kept m) ⟨r, hr, hanswer⟩ hland
      exact ⟨.tail (.single hedit) (.fail (.unsupported hunsupported)), trivial⟩
    | @replaced o m _ hanswer hland h =>
      have hedit := Step.edit (l := .kept m) ⟨r, hr, hanswer⟩ hland
      obtain ⟨hsteps, hfits⟩ := ih hrest h
      exact ⟨.head hedit hsteps, hfits⟩

mutual

theorem visit_steps : (fuel : Nat) → {trail : Trail} → {n : Node} → {st st' : State} →
    {l : Landing} → visit env fuel trail n st = (l, st') →
    Steps env (trail.plug n, st) (trail.fill l, st') ∧ l.fits trail
  | 0, trail, n, st, st', l, h => by
    rw [visit_zero] at h
    cases h
    exact ⟨.single (.fail .fuel), trivial⟩
  | fuel + 1, trail, n, st, st', l, h => by
    have hentered : Step env (trail.plug n, st) (trail.plug n, st.note .entered) := .note rfl rfl
    cases visit_succ_iff.mp h with
    | unsupported hunsupported => exact ⟨.single (.fail (.unsupported hunsupported)), trivial⟩
    | left _ hsettle =>
      obtain ⟨hsteps, hfits⟩ := settle_steps (i := 0) rfl hsettle
      exact ⟨.head hentered hsteps, hfits⟩
    | failed _ hsettle =>
      obtain ⟨hsteps, -⟩ := settle_steps (i := 0) rfl hsettle
      exact ⟨.head hentered hsteps, trivial⟩
    | @kept t hd ss ss' st₁ st₂ _ hsettle _ hslots =>
      obtain ⟨hsteps, -⟩ := settle_steps (i := 0) rfl hsettle
      have hdescend : Step env (trail.plug (.mk t hd ss), st₁)
        (trail.plug (.mk t hd ss), st₁.note (.descended t.mark)) := .note rfl rfl
      have hbelow := visitSlots_steps fuel hslots
      exact ⟨(((Relation.ReflTransGen.head hentered hsteps).tail hdescend).trans hbelow).tail
        .leave, trivial⟩

theorem visitSlots_steps : (fuel : Nat) → {trail : Trail} → {t : Tag} → {hd : Head} →
    {before ss ss' : List (Slot Node)} → {st st' : State} →
    visitSlots env fuel trail t hd before ss st = (ss', st') →
    Steps env (trail.plug (.mk t hd (before.reverse ++ ss)), st)
      (trail.plug (.mk t hd (before.reverse ++ ss')), st')
  | fuel, trail, t, hd, before, [], ss', st, st', h => by
    rw [visitSlots_nil] at h
    cases h
    exact .refl
  | 0, trail, t, hd, before, s :: ss, ss', st, st', h => by
    rw [visitSlots_zero] at h
    cases h
    exact .single (.fail .fuel)
  | fuel + 1, trail, t, hd, before, s :: ss, ss', st, st', h => by
    have hfirst {s₁ : Slot Node} {st₁ : State}
        (hs : visitSlot env fuel trail t hd before ss s st = (s₁, st₁)) :
        Steps env (trail.plug (.mk t hd (before.reverse ++ s :: ss)), st)
          (trail.plug (.mk t hd (before.reverse ++ s₁ :: ss)), st₁) := by
      unfold visitSlot at hs
      split at hs
      · cases hs
        exact .refl
      · split at hs
        · rename_i hvisit
          cases hs
          exact (visit_steps fuel hvisit).1
        · rename_i hvisit
          cases hs
          exact (visit_steps fuel hvisit).1
      · rename_i items
        generalize hitems : visitItems env fuel trail t hd before ss [] items st = r at hs
        obtain ⟨items', st₂⟩ := r
        cases hs
        exact visitItems_steps fuel hitems
    cases visitSlots_succ_iff.mp h with
    | failed hs => exact hfirst hs
    | next hs _ hrest =>
      have hlater := visitSlots_steps fuel hrest
      rw [List.reverse_cons, List.append_assoc, List.append_assoc] at hlater
      exact (hfirst hs).trans hlater

theorem visitItems_steps : (fuel : Nat) → {trail : Trail} → {t : Tag} → {hd : Head} →
    {before after : List (Slot Node)} → {left items items' : List (Option Node)} →
    {st st' : State} → visitItems env fuel trail t hd before after left items st = (items', st') →
    Steps env (trail.plug (.mk t hd (before.reverse ++ .many (left.reverse ++ items) :: after)), st)
      (trail.plug (.mk t hd (before.reverse ++ .many (left.reverse ++ items') :: after)), st')
  | fuel, trail, t, hd, before, after, left, [], items', st, st', h => by
    rw [visitItems_nil] at h
    cases h
    exact .refl
  | 0, trail, t, hd, before, after, left, c :: items, items', st, st', h => by
    rw [visitItems_zero] at h
    cases h
    exact .single (.fail .fuel)
  | fuel + 1, trail, t, hd, before, after, left, none :: items, items', st, st', h => by
    obtain ⟨rest, rfl, hrest⟩ := visitItems_hole_iff.mp h
    have hlater := visitItems_steps fuel hrest
    rw [List.reverse_cons, List.append_assoc, List.append_assoc] at hlater
    exact hlater
  | fuel + 1, trail, t, hd, before, after, left, some c :: items, items', st, st', h => by
    cases visitItems_succ_iff.mp h with
    | @failed l _ hvisit =>
      cases l <;> exact (visit_steps fuel hvisit).1
    | left hvisit _ hrest =>
      -- the statements left in the place of the item are walked next, with the same items before them
      exact (visit_steps fuel hvisit).1.trans (visitItems_steps fuel hrest)
    | kept hvisit _ hrest =>
      have hlater := visitItems_steps fuel hrest
      rw [List.reverse_cons, List.append_assoc, List.append_assoc] at hlater
      exact (visit_steps fuel hvisit).1.trans hlater

end

inductive SlotVisit (env : Env) (fuel : Nat) (trail : Trail) (t : Tag) (hd : Head)
    (before after : List (Slot Node)) (st : State) : Slot Node → Slot Node → State → Prop
  | empty : SlotVisit env fuel trail t hd before after st (.one none) (.one none) st
  | node {c c' : Node} {st' : State} :
    visit env fuel (⟨t, hd, before, .single, after⟩ :: trail) c st = (.kept c', st') →
    SlotVisit env fuel trail t hd before after st (.one (some c)) (.one (some c')) st'
  | items {items items' : List (Option Node)} {st' : State} :
    visitItems env fuel trail t hd before after [] items st = (items', st') →
    SlotVisit env fuel trail t hd before after st (.many items) (.many items') st'

section
variable {fuel : Nat} {trail : Trail} {t : Tag} {hd : Head} {before after : List (Slot Node)}
  {s s' : Slot Node} {st st' : State}

theorem visitSlot_iff : visitSlot env fuel trail t hd before after s st = (s', st') ↔
    SlotVisit env fuel trail t hd before after st s s' st' := by
  constructor
  · intro h
    unfold visitSlot at h
    split at h
    · cases h
      exact .empty
    · split at h
      · rename_i hvisit
        cases h
        exact .node hvisit
      · rename_i hvisit
        have hfits := (visit_steps fuel hvisit).2
        cases hfits
    · rename_i items
      generalize hitems : visitItems env fuel trail t hd before after [] items st = r at h
      obtain ⟨items', st₁⟩ := r
      cases h
      exact .items hitems
  · rintro (_ | hvisit | hitems)
    · rfl
    · simp only [visitSlot, hvisit]
    · simp only [visitSlot, hitems]

theorem visitSlot_steps (h : visitSlot env fuel trail t hd before after s st = (s', st')) :
    Steps env (trail.plug (.mk t hd (before.reverse ++ s :: after)), st)
      (trail.plug (.mk t hd (before.reverse ++ s' :: after)), st') := by
  cases visitSlot_iff.mp h with
  | empty => exact .refl
  | node hvisit => exact (visit_steps fuel hvisit).1
  | items hitems => exact visitItems_steps fuel hitems

end

/-! What every step keeps. -/

theorem Step.changes_le {a b : Node × State} (h : Step env a b) : a.2.changes ≤ b.2.changes := by
  cases h with
  | note hchange => simp [State.changes_note, hchange]
  | fail => exact Nat.le_refl _
  | learn => simp
  | edit => simp [State.changes_note, Event.isChange]
  | leave => simp

theorem Step.lessons_le {a b : Node × State} (h : Step env a b) : a.2.lessons ≤ b.2.lessons := by
  cases h with
  | note _ hlesson => simp [State.lessons_note, hlesson]
  | fail => exact Nat.le_refl _
  | learn => simp [State.lessons_learn]
  | edit => simp [State.lessons_note, Event.isLesson]
  | leave => simp

theorem Step.failed {a b : Node × State} (h : Step env a b) (ha : a.2.failed = true) :
    b.2.failed = true := by
  unfold State.failed at ha ⊢
  cases h with
  | note => exact ha
  | fail => rfl
  | learn => simpa using ha
  | edit => simpa using ha
  | leave => simpa using ha

theorem Steps.changes_le {a b : Node × State} (h : Steps env a b) :
    a.2.changes ≤ b.2.changes := by
  induction h with
  | refl => exact Nat.le_refl _
  | tail _ hstep ih => exact Nat.le_trans ih hstep.changes_le

theorem Steps.lessons_le {a b : Node × State} (h : Steps env a b) :
    a.2.lessons ≤ b.2.lessons := by
  induction h with
  | refl => exact Nat.le_refl _
  | tail _ hstep ih => exact Nat.le_trans ih hstep.lessons_le

theorem Steps.failed {a b : Node × State} (h : Steps env a b) (ha : a.2.failed = true) :
    b.2.failed = true := by
  induction h with
  | refl => exact ha
  | tail _ hstep ih => exact hstep.failed ih

theorem head_plug_congr (trail : Trail) {m m' : Node} (hm : m.head = m'.head) :
    (trail.plug m).head = (trail.plug m').head := by
  induction trail generalizing m m' with
  | nil => exact hm
  | cons f fs ih =>
    have hplug : (f.plug m).head = (f.plug m').head := rfl
    exact ih hplug

theorem Step.head_eq {a b : Node × State} (h : Step env a b) : b.1.head = a.1.head := by
  cases h with
  | note => rfl
  | fail => rfl
  | learn => rfl
  | leave => rfl
  | @edit trail n st i o l _ hland =>
    cases trail with
    | nil => cases hland
    | cons f fs =>
      cases l with
      | kept m => exact head_plug_congr fs rfl
      | left ns => exact head_plug_congr fs rfl

theorem Steps.head_eq {a b : Node × State} (h : Steps env a b) : b.1.head = a.1.head := by
  induction h with
  | refl => rfl
  | tail _ hstep ih => exact hstep.head_eq.trans ih

end Unravel.Pass
