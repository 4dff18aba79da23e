import Mathlib.Data.List.Nodup
import Unravel.Proofs.Sharing.Move

/-! No step of a pass puts a node at a second position. Marks given out before stand in the tree at
most as often as they did, and each new mark stands there once; so a pass over a tree without a
shared node leaves one. -/

namespace Unravel

open Node

/-- Marks given out before do not come up more often, and new ones come up at most once. -/
structure Reuses (next : Nat) (as : List Nat) (next' : Nat) (bs : List Nat) : Prop where
  le : next ≤ next'
  old : ∀ m < next, bs.count m ≤ as.count m
  new : ∀ m, next ≤ m → bs.count m ≤ 1
  lt : ∀ m ∈ bs, m < next'

namespace Reuses

variable {next next' next'' : Nat} {as as' bs bs' cs : List Nat}

theorem refl (has : ∀ m ∈ as, m < next) : Reuses next as next as := by
  refine ⟨Nat.le_refl _, fun _ _ => Nat.le_refl _, fun m hm => ?_, has⟩
  rw [List.count_eq_zero.mpr fun hmem => Nat.not_lt.mpr hm (has m hmem)]
  exact Nat.zero_le 1

theorem trans (h : Reuses next as next' bs) (h' : Reuses next' bs next'' cs) :
    Reuses next as next'' cs := by
  refine ⟨Nat.le_trans h.le h'.le, fun m hm => ?_, fun m hm => ?_, h'.lt⟩
  · exact Nat.le_trans (h'.old m (Nat.lt_of_lt_of_le hm h.le)) (h.old m hm)
  · by_cases hm' : m < next'
    · exact Nat.le_trans (h'.old m hm') (h.new m hm)
    · exact h'.new m (Nat.not_lt.mp hm')

theorem mono (h : Reuses next as next' bs) (has : ∀ m, as.count m ≤ as'.count m)
    (hbs : ∀ m, bs'.count m ≤ bs.count m) : Reuses next as' next' bs' := by
  refine ⟨h.le, fun m hm => ?_, fun m hm => Nat.le_trans (hbs m) (h.new m hm), fun m hm => ?_⟩
  · exact Nat.le_trans (hbs m) (Nat.le_trans (h.old m hm) (has m))
  · have hpos := List.count_pos_iff.mpr hm
    exact h.lt m (List.count_pos_iff.mp (Nat.lt_of_lt_of_le hpos (hbs m)))

theorem append (h : Reuses next as next' bs) (h' : Reuses next' as' next'' bs')
    (has' : ∀ m ∈ as', m < next) : Reuses next (as ++ as') next'' (bs ++ bs') := by
  refine ⟨Nat.le_trans h.le h'.le, fun m hm => ?_, fun m hm => ?_, ?_⟩
  · have hfirst := h.old m hm
    have hsecond := h'.old m (Nat.lt_of_lt_of_le hm h.le)
    rw [List.count_append, List.count_append]
    omega
  · rw [List.count_append]
    by_cases hm' : m < next'
    · have hfirst := h.new m hm
      have hsecond := h'.old m hm'
      have hnone : as'.count m = 0 :=
        List.count_eq_zero.mpr fun hmem => Nat.not_lt.mpr hm (has' m hmem)
      omega
    · have hnone : bs.count m = 0 := List.count_eq_zero.mpr fun hmem => hm' (h.lt m hmem)
      have hsecond := h'.new m (Nat.not_lt.mp hm')
      omega
  · refine List.forall_mem_append.mpr ⟨fun m hm => ?_, h'.lt⟩
    exact Nat.lt_of_lt_of_le (h.lt m hm) h'.le

theorem frame (h : Reuses next as next' bs) (hcs : ∀ m ∈ cs, m < next) (has : ∀ m ∈ as, m < next) :
    Reuses next (cs ++ as) next' (cs ++ bs) := (refl hcs).append h has

theorem of_numbers (h : Numbers next bs next' cs) (hless : ∀ m, bs.count m ≤ as.count m)
    (has : ∀ m ∈ as, m < next) : Reuses next as next' cs := by
  have hnone (m : Nat) (hm : next ≤ m) : bs.count m = 0 := by
    have has' : as.count m = 0 :=
      List.count_eq_zero.mpr fun hmem => Nat.not_lt.mpr hm (has m hmem)
    have hbs := hless m
    omega
  refine ⟨h.le, fun m hm => ?_, fun m hm => ?_, fun m hm => ?_⟩
  · rw [h.count m, if_neg (by omega), Nat.add_zero]
    exact hless m
  · rw [h.count m, hnone m hm]
    split_ifs <;> omega
  · have hpos := List.count_pos_iff.mpr hm
    rw [h.count m] at hpos
    by_cases hold : m < next
    · exact Nat.lt_of_lt_of_le hold h.le
    · rw [hnone m (Nat.not_lt.mp hold)] at hpos
      split_ifs at hpos with hnew
      · exact hnew.2
      · omega

theorem nodup (h : Reuses next as next' bs) (has : as.Nodup) : bs.Nodup := by
  rw [List.nodup_iff_count_le_one] at has ⊢
  intro m
  by_cases hm : m < next
  · exact Nat.le_trans (h.old m hm) (has m)
  · exact h.new m (Nat.not_lt.mp hm)

end Reuses

namespace Pass

variable {env : Env} {trail : Trail} {f : Frame} {fs : Trail} {n : Node} {facts : Facts}
  {o : Outcome} {l : Landing}

def Landing.marks (l : Landing) : List Nat := marksItems (l.nodes.map some)

@[simp] theorem Landing.marks_kept (n : Node) : (Landing.kept n).marks = n.marks := by
  simp [Landing.marks, Landing.nodes]

@[simp] theorem Landing.marks_left (ns : List Node) :
    (Landing.left ns).marks = marksItems (ns.map some) := rfl

theorem Lands.marks_eq (h : Lands f o l) : l.marks = o.marks := by
  cases h with
  | replace => simp
  | remove => rfl
  | splice => rfl
  | lone => simp
  | nothing => rfl
  | wrap => simp [Tag.fresh]

theorem placeAll_numbers (st : State) (ns : List Node) :
    Numbers st.next (marksItems (ns.map some)) (st.placeAll ns).2.next
      (marksItems ((st.placeAll ns).1.map some)) := by
  induction ns generalizing st with
  | nil => exact .refl _ _
  | cons n ns ih =>
    simp only [State.placeAll, List.map_cons, marksItems_some]
    exact (numbers_number n st.next).append (ih (st.place n).2)

theorem install_numbers (st : State) (l : Landing) :
    Numbers st.next l.marks (st.install l).2.next (st.install l).1.marks := by
  cases l with
  | kept n =>
    simp only [Landing.marks_kept, State.install]
    exact numbers_number n st.next
  | left ns => exact placeAll_numbers st ns

theorem isSome_mark_install {st : State} {m : Node} (hm : m ∈ (st.install l).1.nodes) :
    m.Every fun c => c.mark.isSome = true := by
  obtain ⟨n, -, next, rfl⟩ := exists_of_mem_install hm
  exact isSome_mark_number n next

theorem count_plug_mk (trail : Trail) (n : Node) (m : Nat) :
    (trail.plug n).marks.count m =
      (trail.marks ++ n.mark.toList).count m + (marksSlots n.slots).count m := by
  obtain ⟨t, h, ss⟩ := n
  rw [Trail.count_plug, marks_mk, List.count_append, List.count_append, Nat.add_assoc]
  rfl

theorem marks_lt_of_plug {next : Nat} (h : (trail.plug n).Every (Placed next)) :
    (∀ m ∈ trail.marks ++ n.mark.toList, m < next) ∧ ∀ m ∈ marksSlots n.slots, m < next := by
  have hall := (every_placed_iff.mp h).2
  constructor
  · intro m hm
    have hpos := List.count_pos_iff.mpr hm
    exact hall m (List.count_pos_iff.mp (by rw [count_plug_mk]; omega))
  · intro m hm
    have hpos := List.count_pos_iff.mpr hm
    exact hall m (List.count_pos_iff.mp (by rw [count_plug_mk]; omega))

theorem Env.Standard.reuses_of_lands (hstandard : env.Standard) {i : Nat} {st : State}
    (hanswer : Answers env i trail st.facts n o) (hlands : Lands f o l)
    (hbelow : ∀ m ∈ marksSlots n.slots, m < st.next) :
    Reuses st.next (marksSlots n.slots) ((st.note (.changed i)).install l).2.next
      ((st.note (.changed i)).install l).1.marks := by
  refine .of_numbers (install_numbers (st.note (.changed i)) l) (fun m => ?_) hbelow
  rw [hlands.marks_eq]
  exact Rule.count_answer_le hstandard hanswer m

theorem Step.placed (hstandard : env.Standard) {a b : Node × State} (h : Step env a b)
    (ha : a.1.Every (Placed a.2.next)) :
    b.1.Every (Placed b.2.next) ∧ Reuses a.2.next a.1.marks b.2.next b.1.marks := by
  have hsame := Reuses.refl (every_placed_iff.mp ha).2
  cases h with
  | note => exact ⟨ha, hsame⟩
  | fail => exact ⟨ha, hsame⟩
  | learn =>
    rw [State.next_learn]
    exact ⟨ha, hsame⟩
  | leave =>
    rw [State.next_leave]
    exact ⟨ha, hsame⟩
  | @edit trail n st i o l hanswer hland =>
    obtain ⟨f, fs, rfl, hlands, htakes, heq⟩ := edit_cases (st.note (.changed i)) hland
    obtain ⟨hbeside, hbelow⟩ := marks_lt_of_plug ha
    have hlocal := hstandard.reuses_of_lands hanswer hlands hbelow
    rw [heq]
    have hreuses : Reuses st.next (Trail.plug (f :: fs) n).marks
        ((st.note (.changed i)).install l).2.next
        (Trail.plug fs (f.plugAll ((st.note (.changed i)).install l).1.nodes)).marks := by
      refine (hlocal.frame hbeside hbelow).mono (fun m => ?_) fun m => ?_
      · exact Nat.le_of_eq (by rw [count_plug_mk, List.count_append])
      · rw [Trail.count_plug, f.count_plugAll htakes, List.count_append, List.count_append,
          Trail.marks, Trail.marks, List.flatMap_cons, List.count_append, Landing.marks]
        omega
    refine ⟨every_placed_iff.mpr ⟨?_, hreuses.lt⟩, hreuses⟩
    exact Trail.every_exchange (fun _ => ()) (fun _ _ _ _ => rfl) (fun _ _ _ _ hc => hc) htakes
      rfl (fun hself => hself) (fun m hm => isSome_mark_install hm) (every_placed_iff.mp ha).1

theorem Steps.placed (hstandard : env.Standard) {a b : Node × State} (h : Steps env a b)
    (ha : a.1.Every (Placed a.2.next)) :
    b.1.Every (Placed b.2.next) ∧ Reuses a.2.next a.1.marks b.2.next b.1.marks := by
  induction h with
  | refl => exact ⟨ha, .refl (every_placed_iff.mp ha).2⟩
  | tail _ hstep ih =>
    obtain ⟨hplaced, hreuses⟩ := ih
    obtain ⟨hplaced', hreuses'⟩ := hstep.placed hstandard hplaced
    exact ⟨hplaced', hreuses.trans hreuses'⟩

structure Settled (tree : Node) (st : State) : Prop where
  tree : tree.Every (Placed st.next)
  recorded : st.facts.Recorded (Node.Every (Aged st.next))

theorem Step.settled (hstandard : env.Standard) {a b : Node × State} (h : Step env a b)
    (ha : Settled a.1 a.2) : Settled b.1 b.2 := by
  obtain ⟨hplaced, hreuses⟩ := h.placed hstandard ha.tree
  refine ⟨hplaced, ?_⟩
  cases h with
  | note => exact ha.recorded
  | fail => exact ha.recorded
  | @learn trail n st i fact hanswer =>
    have hmove := hstandard.learn_move hanswer
    rw [State.facts_learn, State.next_learn]
    refine ha.recorded.learn ?_
    rintro name fn rfl
    have hfn := (Trail.every_of_plug trail ha.tree).below hmove.function_mem_walk.1
    exact hfn.mono fun _ hc => hc.aged
  | @leave trail n st =>
    rw [State.leave_eq]
    dsimp only
    split
    · have hn := Trail.every_of_plug trail ha.tree
      exact ha.recorded.update (hn.mono fun _ hc => hc.aged)
    · exact ha.recorded
  | edit =>
    rw [State.facts_install]
    exact fun e he => (ha.recorded e he).mono fun _ hc => hc.mono hreuses.le

theorem Steps.settled (hstandard : env.Standard) {a b : Node × State} (h : Steps env a b)
    (ha : Settled a.1 a.2) :
    Settled b.1 b.2 ∧ Reuses a.2.next a.1.marks b.2.next b.1.marks := by
  refine ⟨?_, (h.placed hstandard ha.tree).2⟩
  induction h with
  | refl => exact ha
  | tail _ hstep ih => exact hstep.settled hstandard ih

end Pass
end Unravel
