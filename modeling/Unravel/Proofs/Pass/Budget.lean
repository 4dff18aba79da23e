import Unravel.Proofs.Pass.Step
import Unravel.Proofs.Rule.Keep
import Unravel.Proofs.Rule.Shrink

/-! Without inlining, changes are paid for by the weight of the tree and lessons by the names that are
not yet known. -/

namespace Unravel

open Node

namespace Pass

variable {env : Env} {σ : Nat}

def Env.Tame (env : Env) : Prop := ∀ i trail facts n o, Answers env i trail facts n o →
  Rule.Move ⟨trail, facts, env.settings, env.mutated⟩ n o

def Landing.weigh (σ : Nat) : Landing → Nat
  | .kept n => n.weigh σ
  | .left ns => weighItems σ (ns.map some)

def Landing.names : Landing → List String
  | .kept n => n.names
  | .left ns => namesItems (ns.map some)

theorem landing_of_land {trail : Trail} {o : Outcome} {l : Landing} (h : land trail o = some l) :
    o.isEdit = true ∧ l.weigh σ ≤ o.weigh σ ∧ l.names ⊆ o.names := by
  unfold land at h
  split at h
  · cases h
  · cases h
  · cases h
    exact ⟨rfl, Nat.le_refl _, List.Subset.refl _⟩
  · split at h
    · cases h
      exact ⟨rfl, Nat.le_refl _, List.Subset.refl _⟩
    · cases h
  · split at h
    · cases h
      refine ⟨rfl, ?_, List.Subset.refl _⟩
      simp only [Landing.weigh, Outcome.weigh]
      omega
    · split at h
      · cases h
        refine ⟨rfl, ?_, by simp [Landing.names, Outcome.names]⟩
        simp only [Landing.weigh, Outcome.weigh, List.map_cons, List.map_nil, weighItems]
        omega
      · cases h
        refine ⟨rfl, ?_, by simp [Landing.names, Outcome.names, Head.names]⟩
        simp only [Landing.weigh, Outcome.weigh, List.map_nil, weighItems, weigh, weighSlots,
          Head.weight]
        omega
      · cases h
        refine ⟨rfl, ?_, by simp [Landing.names, Outcome.names, Head.names]⟩
        simp only [Landing.weigh, Outcome.weigh, weigh, weighSlots, Head.weight]
        omega

theorem placeAll_keeps (st : State) (ns : List Node) :
    weighItems σ ((st.placeAll ns).1.map some) = weighItems σ (ns.map some) ∧
      namesItems ((st.placeAll ns).1.map some) = namesItems (ns.map some) := by
  induction ns generalizing st with
  | nil => exact ⟨rfl, rfl⟩
  | cons n ns ih =>
    obtain ⟨hweigh, hnames⟩ := ih (st.place n).2
    rw [State.place_eq] at hweigh hnames
    simp only [State.placeAll, List.map_cons, weighItems, namesItems_some, State.place_eq,
      weigh_number, names_number, hweigh, hnames, and_self]

theorem install_keeps (st : State) (l : Landing) :
    (st.install l).1.weigh σ = l.weigh σ ∧ (st.install l).1.names = l.names := by
  cases l with
  | kept n => exact ⟨weigh_number n st.next, names_number n st.next⟩
  | left ns => exact placeAll_keeps st ns

theorem weigh_fill_add_le {trail : Trail} {n : Node} {l : Landing} {k : Nat} (hfits : l.fits trail)
    (h : l.weigh σ + k ≤ n.weigh σ) : (trail.fill l).weigh σ + k ≤ (trail.plug n).weigh σ := by
  cases l with
  | kept m => exact Trail.weigh_plug_add_le h
  | left ns =>
    cases trail with
    | nil => cases hfits
    | cons f fs => exact Trail.weigh_plug_add_le (Frame.weigh_plugAll_add_le hfits h)

theorem names_fill_subset {trail : Trail} {n : Node} {l : Landing} (hfits : l.fits trail)
    (h : l.names ⊆ n.names) : (trail.fill l).names ⊆ (trail.plug n).names := by
  cases l with
  | kept m => exact Trail.names_plug_subset h
  | left ns =>
    cases trail with
    | nil => cases hfits
    | cons f fs => exact Trail.names_plug_subset (Frame.names_plugAll_subset hfits h)

structure Spends (σ : Nat) (a b : Node × State) : Prop where
  weigh : b.1.weigh σ + b.2.changes ≤ a.1.weigh σ + a.2.changes
  names : b.1.names ⊆ a.1.names
  missing : ∀ names, a.1.names ⊆ names →
    b.2.facts.missing names + b.2.lessons ≤ a.2.facts.missing names + a.2.lessons

theorem Step.spends (htame : env.Tame) {a b : Node × State} (h : Step env a b) :
    Spends σ a b := by
  cases h with
  | note hchange hlesson =>
    refine ⟨?_, List.Subset.refl _, fun names _ => ?_⟩
    · simp [State.changes_note, hchange]
    · simp [State.lessons_note, hlesson]
  | fail => exact ⟨Nat.le_refl _, List.Subset.refl _, fun names _ => Nat.le_refl _⟩
  | @learn trail n st i fact hanswer =>
    refine ⟨by simp, List.Subset.refl _, fun names hnames => ?_⟩
    simp only [State.facts_learn, State.lessons_learn]
    cases hnew : (st.facts.learn fact).2 with
    | false =>
      have hsame := (Facts.sameNames_learn hnew).missing_eq names
      simp [hsame]
    | true =>
      have hname : fact.name ∈ n.names :=
        (htame _ _ _ _ _ hanswer).names_subset (List.mem_singleton_self _)
      have hless := Facts.missing_learn_lt (hnames (trail.names_subset_plug n hname)) hnew
      simp only [if_true]
      omega
  | @edit trail n st i o l hanswer hland =>
    have hmove := htame _ _ _ _ _ hanswer
    obtain ⟨hedit, hweigh, hsub⟩ := landing_of_land (σ := σ) hland
    have hlt := hmove.weigh_lt (σ := σ) hedit
    obtain ⟨hkeep, hkeep'⟩ := install_keeps (σ := σ) (st.note (.changed i)) l
    have hfits : ((st.note (.changed i)).install l).1.fits trail :=
      fits_install (fits_of_land hland)
    refine ⟨?_, names_fill_subset hfits ?_, fun names _ => ?_⟩
    · have hlight := weigh_fill_add_le (σ := σ) (k := 1) (n := n) hfits (by omega)
      simp only [State.changes_install, State.changes_note, Event.isChange, if_true]
      omega
    · rw [hkeep']
      exact List.Subset.trans hsub hmove.names_subset
    · simp [State.lessons_note, Event.isLesson]
  | @leave trail n st =>
    refine ⟨by simp, List.Subset.refl _, fun names _ => ?_⟩
    rw [State.lessons_leave, State.leave_eq]
    have hsame := (Facts.sameNames_update st.facts n).missing_eq names
    dsimp only
    split <;> omega

theorem Steps.spends (htame : env.Tame) {a b : Node × State} (h : Steps env a b) :
    Spends σ a b := by
  induction h with
  | refl => exact ⟨Nat.le_refl _, List.Subset.refl _, fun _ _ => Nat.le_refl _⟩
  | tail _ hstep ih =>
    have hlast := hstep.spends (σ := σ) htame
    exact ⟨Nat.le_trans hlast.weigh ih.weigh, List.Subset.trans hlast.names ih.names,
      fun names hnames => Nat.le_trans
        (hlast.missing names (List.Subset.trans ih.names hnames)) (ih.missing names hnames)⟩

end Pass
end Unravel
