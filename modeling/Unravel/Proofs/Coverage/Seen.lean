import Unravel.Proofs.Coverage.Account
import Unravel.Proofs.Sharing.Pass

/-! A pass that keeps the set of visited nodes and turns away from a node that it has seen. On a tree
in which each node stands at one position it never does: every mark goes into the set once, and what
is still to be walked has none of them. -/

namespace Unravel.Pass

open Node

def replacements (env : Env) (trail : Trail) : List Rule → Nat → Node → State → List Nat
  | [], _, _, _ => []
  | r :: rs, i, n, st =>
    match answer env st.facts r trail n with
    | .error _ => []
    | .ok none => replacements env trail rs (i + 1) n st
    | .ok (some (.learn fact)) => replacements env trail rs (i + 1) n (st.learn i fact)
    | .ok (some outcome) =>
      match land trail outcome with
      | none => replacements env trail rs (i + 1) n (st.note (.skipped i))
      | some (.left _) => []
      | some (.kept m) =>
        let p := (st.note (.changed i)).place m
        match p.1.supported with
        | .error _ => []
        | .ok _ => replacements env trail rs (i + 1) p.1 p.2 ++ p.1.mark.toList

def hasSeen (seen : List Nat) (n : Node) : Bool := n.mark.any seen.contains

mutual

def visitSeen (env : Env) : Nat → Trail → Node → State → List Nat → Landing × State × List Nat
  | 0, _, n, st, seen => (.kept n, st.fail .outOfFuel, seen)
  | fuel + 1, trail, n, st, seen =>
    if hasSeen seen n then (.kept n, st, seen)
    else match n.supported with
      | .error f => (.kept n, st.fail f, seen)
      | .ok _ =>
        let seen := replacements env trail env.rules 0 n (st.note .entered) ++ n.mark.toList ++ seen
        match settle env trail env.rules 0 n (st.note .entered) with
        | (.left ns, st) => (.left ns, st, seen)
        | (.kept (.mk t h ss), st) =>
          if st.failed then (.kept (.mk t h ss), st, seen)
          else
            let (ss, st, seen) :=
              visitSlotsSeen env fuel trail t h [] ss (st.note (.descended t.mark)) seen
            (.kept (.mk t h ss), st.leave (.mk t h ss), seen)

def visitSlotsSeen (env : Env) : Nat → Trail → Tag → Head → List (Slot Node) → List (Slot Node) →
    State → List Nat → List (Slot Node) × State × List Nat
  | _, _, _, _, _, [], st, seen => ([], st, seen)
  | 0, _, _, _, _, ss, st, seen => (ss, st.fail .outOfFuel, seen)
  | fuel + 1, trail, t, h, before, s :: ss, st, seen =>
    let (s, st, seen) : Slot Node × State × List Nat := match s with
      | .one none => (.one none, st, seen)
      | .one (some c) =>
        match visitSeen env fuel (⟨t, h, before, .single, ss⟩ :: trail) c st seen with
        | (.kept c, st, seen) => (.one (some c), st, seen)
        | (.left ns, st, seen) => (.one ns.head?, st, seen)
      | .many items =>
        let (items, st, seen) := visitItemsSeen env fuel trail t h before ss [] items st seen
        (.many items, st, seen)
    if st.failed then (s :: ss, st, seen)
    else
      let (ss, st, seen) := visitSlotsSeen env fuel trail t h (s :: before) ss st seen
      (s :: ss, st, seen)

def visitItemsSeen (env : Env) : Nat → Trail → Tag → Head → List (Slot Node) → List (Slot Node) →
    List (Option Node) → List (Option Node) → State → List Nat →
    List (Option Node) × State × List Nat
  | _, _, _, _, _, _, _, [], st, seen => ([], st, seen)
  | 0, _, _, _, _, _, _, items, st, seen => (items, st.fail .outOfFuel, seen)
  | fuel + 1, trail, t, h, before, after, left, none :: items, st, seen =>
    let (items, st, seen) := visitItemsSeen env fuel trail t h before after (none :: left) items st seen
    (none :: items, st, seen)
  | fuel + 1, trail, t, h, before, after, left, some c :: items, st, seen =>
    match visitSeen env fuel (⟨t, h, before, .item left items, after⟩ :: trail) c st seen with
    | (.left ns, st, seen) =>
      if st.failed then (ns.map some ++ items, st, seen)
      else visitItemsSeen env fuel trail t h before after left (ns.map some ++ items) st seen
    | (.kept c, st, seen) =>
      if st.failed then (some c :: items, st, seen)
      else
        let (items, st, seen) :=
          visitItemsSeen env fuel trail t h before after (some c :: left) items st seen
        (some c :: items, st, seen)

end

def visitSlotSeen (env : Env) (fuel : Nat) (trail : Trail) (t : Tag) (hd : Head)
    (before after : List (Slot Node)) (s : Slot Node) (st : State) (seen : List Nat) :
    Slot Node × State × List Nat :=
  match s with
  | .one none => (.one none, st, seen)
  | .one (some c) =>
    match visitSeen env fuel (⟨t, hd, before, .single, after⟩ :: trail) c st seen with
    | (.kept c, st, seen) => (.one (some c), st, seen)
    | (.left ns, st, seen) => (.one ns.head?, st, seen)
  | .many items =>
    let r := visitItemsSeen env fuel trail t hd before after [] items st seen
    (.many r.1, r.2.1, r.2.2)

theorem visitSlotsSeen_cons (env : Env) (fuel : Nat) (trail : Trail) (t : Tag) (hd : Head)
    (before : List (Slot Node)) (s : Slot Node) (ss : List (Slot Node)) (st : State)
    (seen : List Nat) :
    visitSlotsSeen env (fuel + 1) trail t hd before (s :: ss) st seen =
      let r := visitSlotSeen env fuel trail t hd before ss s st seen
      if r.2.1.failed then (r.1 :: ss, r.2.1, r.2.2)
      else
        let q := visitSlotsSeen env fuel trail t hd (r.1 :: before) ss r.2.1 r.2.2
        (r.1 :: q.1, q.2.1, q.2.2) := by
  match s with
  | .one none => rfl
  | .one (some c) => rfl
  | .many items => rfl

def runSeen (fuel : Nat) (rules : List Rule) (settings : Settings) (tree : Node) (facts : Facts)
    (next : Nat) : Node × State × List Nat :=
  match written settings tree with
  | .error f => (tree, { facts, next, fault := some f }, [])
  | .ok mutated =>
    match visitSeen ⟨rules, settings, mutated⟩ fuel [] tree { facts, next } [] with
    | (.kept tree, st, seen) => (tree, st, seen)
    | (.left _, st, seen) => (tree, st, seen)

variable {env : Env} {trail : Trail} {rs : List Rule} {i : Nat} {n : Node} {st st' : State}
  {l : Landing}

/-- The marks below a landing: those of the children of the node that keeps the place, or of the
statements that take it. -/
def Landing.below : Landing → List Nat
  | .kept n => marksSlots n.slots
  | .left ns => marksItems (ns.map some)

theorem Landing.count_below_le (l : Landing) (m : Nat) : l.below.count m ≤ l.marks.count m := by
  cases l with
  | kept n =>
    obtain ⟨t, h, ss⟩ := n
    rw [Landing.marks_kept, marks_mk, List.count_append]
    exact Nat.le_add_left _ _
  | left ns => exact Nat.le_refl _

theorem marks_eq (n : Node) : n.marks = n.mark.toList ++ marksSlots n.slots := by
  obtain ⟨t, h, ss⟩ := n
  exact marks_mk t h ss

theorem replacements_kept {r : Rule} {o : Outcome} {m : Node}
    (hanswer : answer env st.facts r trail n = .ok (some o))
    (hland : land trail o = some (.kept m)) :
    replacements env trail (r :: rs) i n st =
      match ((st.note (.changed i)).place m).1.supported with
      | .error _ => []
      | .ok _ => replacements env trail rs (i + 1) ((st.note (.changed i)).place m).1
          ((st.note (.changed i)).place m).2 ++ ((st.note (.changed i)).place m).1.mark.toList := by
  obtain ⟨f, fs, rfl, hlands⟩ := lands_of_land hland
  cases hlands <;> simp only [replacements, hanswer, hland]

theorem replacements_left {r : Rule} {o : Outcome} {ns : List Node}
    (hanswer : answer env st.facts r trail n = .ok (some o))
    (hland : land trail o = some (.left ns)) : replacements env trail (r :: rs) i n st = [] := by
  obtain ⟨f, fs, rfl, hlands⟩ := lands_of_land hland
  cases hlands <;> simp only [replacements, hanswer, hland]

theorem Env.Standard.reuses_edit (hstandard : env.Standard) {o : Outcome} {k : Landing}
    (hanswer : Answers env i trail st.facts n o) (hland : land trail o = some k)
    (hn : ∀ m ∈ n.marks, m < st.next) :
    Reuses st.next n.marks ((st.note (.changed i)).install k).2.next
      (n.mark.toList ++ ((st.note (.changed i)).install k).1.marks) := by
  obtain ⟨f, fs, rfl, hlands⟩ := lands_of_land hland
  rw [marks_eq n] at hn ⊢
  obtain ⟨hself, hbelow⟩ := List.forall_mem_append.mp hn
  exact (hstandard.reuses_of_lands hanswer hlands hbelow).frame hself hbelow

theorem Env.Standard.reuses_below (hstandard : env.Standard) {o : Outcome} {k : Landing}
    (hanswer : Answers env i trail st.facts n o) (hland : land trail o = some k)
    (hn : ∀ m ∈ n.marks, m < st.next) :
    Reuses st.next n.marks ((st.note (.changed i)).install k).2.next
      (n.mark.toList ++ ((st.note (.changed i)).install k).1.below) := by
  refine (hstandard.reuses_edit hanswer hland hn).mono (fun _ => Nat.le_refl _) fun m => ?_
  rw [List.count_append, List.count_append]
  exact Nat.add_le_add_left (Landing.count_below_le _ m) _

theorem settle_reuses (hstandard : env.Standard) (hrs : env.rules.drop i = rs)
    (h : settle env trail rs i n st = (l, st')) (hn : ∀ m ∈ n.marks, m < st.next) :
    Reuses st.next n.marks st'.next
      (n.mark.toList ++ (replacements env trail rs i n st ++ l.below)) := by
  induction rs generalizing i n st with
  | nil =>
    cases h
    have hsame := Reuses.refl hn
    rw [marks_eq n] at hsame ⊢
    exact hsame
  | cons r rs ih =>
    obtain ⟨hr, hrest⟩ := rules_drop hrs
    cases settle_tried h with
    | passed hanswer h =>
      have hlater := ih hrest h hn
      simp only [replacements, hanswer]
      exact hlater
    | raised hanswer =>
      have hsame := Reuses.refl hn
      simp only [replacements, hanswer]
      rw [marks_eq n] at hsame ⊢
      exact hsame
    | @learned fact _ hanswer h =>
      have hlater := ih hrest h (by rwa [State.next_learn])
      rw [State.next_learn] at hlater
      simp only [replacements, hanswer]
      exact hlater
    | @skipped o _ hanswer hedit hland h =>
      have hlater := ih hrest h hn
      cases o with
      | learn fact => exact absurd rfl (hedit fact)
      | _ =>
        simp only [replacements, hanswer, hland]
        exact hlater
    | @left o ns hanswer hland =>
      rw [replacements_left hanswer hland, List.nil_append]
      exact hstandard.reuses_below ⟨r, hr, hanswer⟩ hland hn
    | @refused o m f hanswer hland hunsupported =>
      rw [replacements_kept hanswer hland, hunsupported]
      exact hstandard.reuses_below ⟨r, hr, hanswer⟩ hland hn
    | @replaced o m _ hanswer hland hrun =>
      rw [replacements_kept hanswer hland]
      cases hsupported : ((st.note (.changed i)).place m).1.supported with
      | error f =>
        rw [settle_refused hanswer hland hsupported] at h
        cases h
        exact hstandard.reuses_below ⟨r, hr, hanswer⟩ hland hn
      | ok u =>
        have hedit := hstandard.reuses_edit ⟨r, hr, hanswer⟩ hland hn
        have hkept : ((st.note (.changed i)).install (.kept m)).1.marks =
            ((st.note (.changed i)).place m).1.marks := Landing.marks_kept _
        rw [hkept] at hedit
        obtain ⟨hself, hnew⟩ := List.forall_mem_append.mp hedit.lt
        have hlater := (ih hrest hrun hnew).frame hself hnew
        refine (hedit.trans hlater).mono (fun _ => Nat.le_refl _) fun k => ?_
        simp only [List.count_append]
        omega

theorem settle_mark {m : Node} (h : settle env trail rs i n st = (.kept m, st'))
    (hfault : st'.fault = none) :
    m.mark.toList ⊆ replacements env trail rs i n st ++ n.mark.toList := by
  induction rs generalizing i n st with
  | nil =>
    cases h
    exact List.Subset.refl _
  | cons r rs ih =>
    cases settle_tried h with
    | passed hanswer h =>
      have hlater := ih h
      simp only [replacements, hanswer]
      exact hlater
    | raised => cases hfault
    | learned hanswer h =>
      have hlater := ih h
      simp only [replacements, hanswer]
      exact hlater
    | @skipped o _ hanswer hedit hland h =>
      have hlater := ih h
      cases o with
      | learn fact => exact absurd rfl (hedit fact)
      | _ =>
        simp only [replacements, hanswer, hland]
        exact hlater
    | refused => cases hfault
    | @replaced o k _ hanswer hland hrun =>
      rw [replacements_kept hanswer hland]
      cases hsupported : ((st.note (.changed i)).place k).1.supported with
      | error f =>
        rw [settle_refused hanswer hland hsupported] at h
        cases h
        cases hfault
      | ok u => exact List.subset_append_of_subset_left _ (ih hrun)

/-! What a part of the walk adds to the set. -/

structure Awaits (st : State) (seen as : List Nat) : Prop where
  given : ∀ m ∈ as, m < st.next
  once : as.Nodup
  known : ∀ m ∈ seen, m < st.next
  unseen : ∀ m ∈ as, m ∉ seen

namespace Awaits

variable {seen as bs : List Nat}

theorem left (h : Awaits st seen (as ++ bs)) : Awaits st seen as where
  given := (List.forall_mem_append.mp h.given).1
  once := (List.nodup_append.mp h.once).1
  known := h.known
  unseen := (List.forall_mem_append.mp h.unseen).1

theorem given_right (h : Awaits st seen (as ++ bs)) : ∀ m ∈ bs, m < st.next :=
  (List.forall_mem_append.mp h.given).2

theorem hasSeen (h : Awaits st seen n.marks) : Pass.hasSeen seen n = false := by
  unfold Pass.hasSeen
  cases hmark : n.mark with
  | none => rfl
  | some m => simpa using h.unseen m (by rw [marks_eq, hmark]; exact List.mem_cons_self ..)

end Awaits

/-- From one state to the next, a part of the tree with marks `as` was walked: the set has grown by
different nodes, of which none is left in the marks `rest` that are still to be walked. -/
def Covers (st st' : State) (seen seen' as rest done : List Nat) : Prop :=
  ∃ new, seen' = new ++ seen ∧ Reuses st.next as st'.next (new ++ rest) ∧
    (st'.fault = none → done ⊆ new)

namespace Covers

variable {st st₁ st₂ : State} {seen seen₁ seen₂ as bs rest done done' : List Nat}

theorem refl (has : ∀ m ∈ as, m < st.next) : Covers st st seen seen as as [] :=
  ⟨[], rfl, .refl has, fun _ => List.nil_subset _⟩

theorem trans (h : Covers st st₁ seen seen₁ as rest done)
    (h' : Covers st₁ st₂ seen₁ seen₂ (rest ++ bs) [] done') (hbs : ∀ m ∈ bs, m < st.next)
    (hsound : st₁.fault = none) : Covers st st₂ seen seen₂ (as ++ bs) [] (done ++ done') := by
  obtain ⟨new, rfl, hreuses, hdone⟩ := h
  obtain ⟨new', rfl, hreuses', hdone'⟩ := h'
  have hbs' (m : Nat) (hm : m ∈ bs) : m < st₁.next := Nat.lt_of_lt_of_le (hbs m hm) hreuses.le
  obtain ⟨hnew, hrest⟩ := List.forall_mem_append.mp hreuses.lt
  have hfirst := hreuses.append (.refl hbs') hbs
  have hlater := hreuses'.frame hnew (List.forall_mem_append.mpr ⟨hrest, hbs'⟩)
  rw [← List.append_assoc] at hlater
  refine ⟨new' ++ new, (List.append_assoc ..).symm, ?_, fun hfault => ?_⟩
  · refine (hfirst.trans hlater).mono (fun _ => Nat.le_refl _) fun m => ?_
    simp only [List.count_append]
    omega
  · refine List.append_subset.mpr ⟨?_, ?_⟩
    · exact List.subset_append_of_subset_right _ (hdone hsound)
    · exact List.subset_append_of_subset_left _ (hdone' hfault)

theorem failed (h : Covers st st₁ seen seen₁ as rest done) (hfailed : st₁.fault ≠ none) :
    Covers st st₁ seen seen₁ (as ++ bs) [] done' := by
  obtain ⟨new, rfl, hreuses, -⟩ := h
  refine ⟨new, rfl, hreuses.mono (fun m => ?_) fun m => ?_, fun hfault => ?_⟩
  · rw [List.count_append]
    exact Nat.le_add_right _ _
  · simp only [List.count_append, List.count_nil]
    omega
  · exact absurd hfault hfailed

theorem fail (f : Fault) (has : ∀ m ∈ as, m < st.next) :
    Covers st (st.fail f) seen seen as [] done := by
  refine ⟨[], rfl, (Reuses.refl has).mono (fun _ => Nat.le_refl _) fun m => ?_, nofun⟩
  exact Nat.zero_le _

/-- What is still to be walked, there or further on, awaits the rest of the walk. -/
theorem awaits (h : Covers st st₁ seen seen₁ as rest done) (hall : Awaits st seen (as ++ bs)) :
    Awaits st₁ seen₁ (rest ++ bs) := by
  obtain ⟨new, rfl, hreuses, -⟩ := h
  have hbs' (m : Nat) (hm : m ∈ bs) : m < st₁.next :=
    Nat.lt_of_lt_of_le (hall.given_right m hm) hreuses.le
  have hframe := hreuses.append (.refl hbs') hall.given_right
  rw [List.append_assoc] at hframe
  obtain ⟨hnew, hlater⟩ := List.forall_mem_append.mp hframe.lt
  have honce := List.nodup_append.mp (hframe.nodup hall.once)
  refine ⟨hlater, honce.2.1, List.forall_mem_append.mpr ⟨hnew, fun m hm => ?_⟩, fun m hm hmem => ?_⟩
  · exact Nat.lt_of_lt_of_le (hall.known m hm) hreuses.le
  · rcases List.mem_append.mp hmem with hfresh | hold
    · exact honce.2.2 m hfresh m hm rfl
    · -- a seen mark was given out before, and then it stood in the part that was walked
      have hpos := List.count_pos_iff.mpr (List.mem_append_right new hm)
      have hless := hframe.old m (hall.known m hold)
      exact hall.unseen m (List.count_pos_iff.mp (Nat.lt_of_lt_of_le hpos hless)) hold

end Covers

def Landing.pending : Landing → List Nat
  | .kept _ => []
  | .left ns => marksItems (ns.map some)

def Landing.keeper : Landing → List Nat
  | .kept n => n.mark.toList
  | .left _ => []

theorem settle_covers (hstandard : env.Standard) {seen : List Nat}
    (h : settle env trail env.rules 0 n (st.note .entered) = (l, st'))
    (hn : ∀ m ∈ n.marks, m < st.next) :
    Covers st st' seen
      (replacements env trail env.rules 0 n (st.note .entered) ++ n.mark.toList ++ seen) n.marks
      l.below l.keeper := by
  have hreuses := settle_reuses hstandard (show env.rules.drop 0 = env.rules from rfl) h hn
  refine ⟨_, rfl, hreuses.mono (fun _ => Nat.le_refl _) fun m => ?_, fun hfault => ?_⟩
  · simp only [List.count_append]
    omega
  · cases l with
    | kept m => exact settle_mark h hfault
    | left ns => exact List.nil_subset _

theorem visitSlot_seen {fuel : Nat} {t : Tag} {hd : Head} {before after : List (Slot Node)}
    {s s' : Slot Node} {seen : List Nat}
    (hnode : ∀ {trail n l}, visit env fuel trail n st = (l, st') → Awaits st seen n.marks →
      ∃ seen', visitSeen env fuel trail n st seen = (l, st', seen') ∧
        Covers st st' seen seen' n.marks l.pending (l.done.filterMap mark))
    (hitems : ∀ {items items'},
      visitItems env fuel trail t hd before after [] items st = (items', st') →
      Awaits st seen (marksItems items) →
      ∃ seen', visitItemsSeen env fuel trail t hd before after [] items st seen =
          (items', st', seen') ∧
        Covers st st' seen seen' (marksItems items) [] (marksItems items'))
    (h : visitSlot env fuel trail t hd before after s st = (s', st'))
    (hawaits : Awaits st seen s.marks) :
    ∃ seen', visitSlotSeen env fuel trail t hd before after s st seen = (s', st', seen') ∧
      Covers st st' seen seen' s.marks [] s'.marks := by
  cases visitSlot_iff.mp h with
  | empty => exact ⟨seen, rfl, .refl nofun⟩
  | node hvisit =>
    rw [marks_one] at hawaits
    obtain ⟨seen', hrun, hcovers⟩ := hnode hvisit hawaits
    refine ⟨seen', by simp only [visitSlotSeen, hrun], ?_⟩
    rw [marks_one, marks_one]
    exact hcovers
  | items hvisit =>
    rw [marks_many] at hawaits
    obtain ⟨seen', hrun, hcovers⟩ := hitems hvisit hawaits
    refine ⟨seen', by simp only [visitSlotSeen, hrun], ?_⟩
    rw [marks_many, marks_many]
    exact hcovers

mutual

theorem visit_seen (hstandard : env.Standard) : (fuel : Nat) → {trail : Trail} → {n : Node} →
    {st st' : State} → {l : Landing} → {seen : List Nat} →
    visit env fuel trail n st = (l, st') → Awaits st seen n.marks →
    ∃ seen', visitSeen env fuel trail n st seen = (l, st', seen') ∧
      Covers st st' seen seen' n.marks l.pending (l.done.filterMap mark)
  | 0, trail, n, st, st', l, seen, h, hawaits => by
    rw [visit_zero] at h
    cases h
    exact ⟨seen, rfl, .fail _ hawaits.given⟩
  | fuel + 1, trail, n, st, st', l, seen, h, hawaits => by
    rw [visitSeen, hawaits.hasSeen]
    cases visit_succ_iff.mp h with
    | unsupported hunsupported =>
      simp only [hunsupported, Bool.false_eq_true, if_false]
      exact ⟨seen, rfl, .fail _ hawaits.given⟩
    | left hsupported hsettle =>
      simp only [hsupported, hsettle, Bool.false_eq_true, if_false]
      exact ⟨_, rfl, settle_covers hstandard hsettle hawaits.given⟩
    | @failed m _ hsupported hsettle hfault =>
      have hsettled : Covers st _ seen _ _ _ _ := settle_covers hstandard hsettle hawaits.given
      obtain ⟨t, hd, ss⟩ := m
      simp only [hsupported, hsettle, State.failed_iff.mpr hfault, Bool.false_eq_true, if_false,
        if_true]
      rw [← List.append_nil n.marks]
      exact ⟨_, rfl, hsettled.failed hfault⟩
    | @kept t hd ss ss' st₁ st₂ hsupported hsettle hsound hslots =>
      have hdown : Covers st (st₁.note (.descended t.mark)) seen _ n.marks (marksSlots ss)
          t.mark.toList := settle_covers hstandard hsettle hawaits.given
      rw [← List.append_nil n.marks] at hawaits ⊢
      obtain ⟨seen₂, hrun, hcovers⟩ :=
        visitSlots_seen hstandard fuel hslots (hdown.awaits hawaits).left
      refine ⟨seen₂, ?_, ?_⟩
      · simp only [hsupported, hsettle, State.failed_eq_false_iff.mpr hsound, Bool.false_eq_true,
          if_false, hrun]
      · rw [← List.append_nil (marksSlots ss)] at hcovers
        have hall := hdown.trans hcovers nofun hsound
        rw [← marks_mk t hd ss'] at hall
        rw [State.leave_eq]
        exact hall

theorem visitSlots_seen (hstandard : env.Standard) : (fuel : Nat) → {trail : Trail} → {t : Tag} →
    {hd : Head} → {before ss ss' : List (Slot Node)} → {st st' : State} → {seen : List Nat} →
    visitSlots env fuel trail t hd before ss st = (ss', st') → Awaits st seen (marksSlots ss) →
    ∃ seen', visitSlotsSeen env fuel trail t hd before ss st seen = (ss', st', seen') ∧
      Covers st st' seen seen' (marksSlots ss) [] (marksSlots ss')
  | fuel, trail, t, hd, before, [], ss', st, st', seen, h, hawaits => by
    rw [visitSlots_nil] at h
    cases h
    exact ⟨seen, by rw [visitSlotsSeen], .refl hawaits.given⟩
  | 0, trail, t, hd, before, s :: ss, ss', st, st', seen, h, hawaits => by
    rw [visitSlots_zero] at h
    cases h
    exact ⟨seen, rfl, .fail _ hawaits.given⟩
  | fuel + 1, trail, t, hd, before, s :: ss, ss', st, st', seen, h, hawaits => by
    rw [marksSlots_cons] at hawaits ⊢
    have hslot {s' : Slot Node} {st₁ : State}
        (hs : visitSlot env fuel trail t hd before ss s st = (s', st₁)) :=
      visitSlot_seen (fun h => visit_seen hstandard fuel h)
        (fun h => visitItems_seen hstandard fuel h) hs hawaits.left
    cases visitSlots_succ_iff.mp h with
    | failed hs hfault =>
      obtain ⟨seen₁, hrun, hcovers⟩ := hslot hs
      refine ⟨seen₁, ?_, hcovers.failed hfault⟩
      simp only [visitSlotsSeen_cons, hrun, State.failed_iff.mpr hfault, if_true]
    | next hs hsound hrest =>
      obtain ⟨seen₁, hrun₁, hcovers₁⟩ := hslot hs
      obtain ⟨seen₂, hrun₂, hcovers₂⟩ :=
        visitSlots_seen hstandard fuel hrest (hcovers₁.awaits hawaits)
      refine ⟨seen₂, ?_, ?_⟩
      · simp only [visitSlotsSeen_cons, hrun₁, State.failed_eq_false_iff.mpr hsound,
          Bool.false_eq_true, if_false, hrun₂]
      · rw [marksSlots_cons]
        exact hcovers₁.trans hcovers₂ hawaits.given_right hsound

theorem visitItems_seen (hstandard : env.Standard) : (fuel : Nat) → {trail : Trail} → {t : Tag} →
    {hd : Head} → {before after : List (Slot Node)} → {left items items' : List (Option Node)} →
    {st st' : State} → {seen : List Nat} →
    visitItems env fuel trail t hd before after left items st = (items', st') →
    Awaits st seen (marksItems items) →
    ∃ seen', visitItemsSeen env fuel trail t hd before after left items st seen =
        (items', st', seen') ∧
      Covers st st' seen seen' (marksItems items) [] (marksItems items')
  | fuel, trail, t, hd, before, after, left, [], items', st, st', seen, h, hawaits => by
    rw [visitItems_nil] at h
    cases h
    exact ⟨seen, by rw [visitItemsSeen], .refl hawaits.given⟩
  | 0, trail, t, hd, before, after, left, c :: items, items', st, st', seen, h, hawaits => by
    rw [visitItems_zero] at h
    cases h
    exact ⟨seen, rfl, .fail _ hawaits.given⟩
  | fuel + 1, trail, t, hd, before, after, left, none :: items, items', st, st', seen, h,
      hawaits => by
    obtain ⟨rest, rfl, hrest⟩ := visitItems_hole_iff.mp h
    obtain ⟨seen₁, hrun, hcovers⟩ := visitItems_seen hstandard fuel hrest hawaits
    exact ⟨seen₁, by rw [visitItemsSeen, hrun], hcovers⟩
  | fuel + 1, trail, t, hd, before, after, left, some c :: items, items', st, st', seen, h,
      hawaits => by
    rw [marksItems_some] at hawaits ⊢
    cases visitItems_succ_iff.mp h with
    | @failed l _ hvisit hfault =>
      obtain ⟨seen₁, hrun, hcovers⟩ := visit_seen hstandard fuel hvisit hawaits.left
      refine ⟨seen₁, ?_, hcovers.failed hfault⟩
      cases l <;> simp only [visitItemsSeen, hrun, State.failed_iff.mpr hfault, if_true] <;> rfl
    | @left ns _ _ _ hvisit hsound hrest =>
      obtain ⟨seen₁, hrun₁, hcovers₁⟩ := visit_seen hstandard fuel hvisit hawaits.left
      have hitems : marksItems (ns.map some ++ items) =
          (Landing.left ns).pending ++ marksItems items := marksItems_append _ _
      have hawaits₁ := hcovers₁.awaits hawaits
      rw [← hitems] at hawaits₁
      obtain ⟨seen₂, hrun₂, hcovers₂⟩ := visitItems_seen hstandard fuel hrest hawaits₁
      rw [hitems] at hcovers₂
      refine ⟨seen₂, ?_, hcovers₁.trans hcovers₂ hawaits.given_right hsound⟩
      simp only [visitItemsSeen, hrun₁, State.failed_eq_false_iff.mpr hsound, Bool.false_eq_true,
        if_false, hrun₂]
    | kept hvisit hsound hrest =>
      obtain ⟨seen₁, hrun₁, hcovers₁⟩ := visit_seen hstandard fuel hvisit hawaits.left
      obtain ⟨seen₂, hrun₂, hcovers₂⟩ :=
        visitItems_seen hstandard fuel hrest (hcovers₁.awaits hawaits)
      refine ⟨seen₂, ?_, ?_⟩
      · simp only [visitItemsSeen, hrun₁, State.failed_eq_false_iff.mpr hsound, Bool.false_eq_true,
          if_false, hrun₂]
      · rw [marksItems_some]
        exact hcovers₁.trans hcovers₂ hawaits.given_right hsound

end

end Unravel.Pass
