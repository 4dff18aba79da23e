import Unravel.Hoist

/-! The outline of a tree: its function declarations in pre-order, each with its place and its depth.
What becomes of a declaration is read off the outline, and what is left of a tree is read off the
places that are gone. -/

namespace Unravel.Hoist

open Node

/-- The way down to a node: the slot and the index in it, step by step. -/
abbrev Place := List (Nat × Nat)

namespace Place

def above : Place → Place → Bool
  | [], q => !q.isEmpty
  | _ :: _, [] => false
  | x :: p, y :: q => x == y && above p q

def Apart (p q : Place) : Prop := ∃ x p' y q', p = x :: p' ∧ q = y :: q' ∧ x ≠ y

theorem Apart.symm {p q : Place} (h : Apart p q) : Apart q p := by
  obtain ⟨x, p', y, q', rfl, rfl, hne⟩ := h
  exact ⟨y, q', x, p', rfl, rfl, hne.symm⟩

theorem Apart.above_eq_false {p q : Place} (h : Apart p q) : above p q = false := by
  obtain ⟨x, p', y, q', rfl, rfl, hne⟩ := h
  simp [above, hne]

theorem Apart.ne_append {p q : Place} (h : Apart p q) (r : Place) : q ≠ p ++ r := by
  obtain ⟨x, p', y, q', rfl, rfl, hne⟩ := h
  simp [hne.symm]

@[simp] theorem above_cons_cons (x : Nat × Nat) (p q : Place) :
    above (x :: p) (x :: q) = above p q := by
  simp [above]

end Place

def functionName? : Head → List (Slot Node) → Option String
  | .functionDeclaration, .one (some (.identifier _ name)) :: _ => some name
  | _, _ => none

/-- A function declaration of a tree. -/
structure Declaration where
  place : Place
  inList : Bool
  name : String
  node : Node

def Declaration.under (x : Nat × Nat) (d : Declaration) : Declaration :=
  { d with place := x :: d.place }

mutual

def declarations (inList : Bool) : Node → List Declaration
  | .mk t h ss =>
    (functionName? h ss).toList.map (⟨[], inList, ·, .mk t h ss⟩) ++ declarationsSlots 0 ss

def declarationsSlots (i : Nat) : List (Slot Node) → List Declaration
  | [] => []
  | .one none :: ss => declarationsSlots (i + 1) ss
  | .one (some c) :: ss =>
    (declarations false c).map (·.under (i, 0)) ++ declarationsSlots (i + 1) ss
  | .many cs :: ss => declarationsItems i 0 cs ++ declarationsSlots (i + 1) ss

def declarationsItems (i k : Nat) : List (Option Node) → List Declaration
  | [] => []
  | none :: cs => declarationsItems i (k + 1) cs
  | some c :: cs =>
    (declarations true c).map (·.under (i, k)) ++ declarationsItems i (k + 1) cs

end

mutual

/-- What is left of a tree when the nodes at some places are taken off their lists. -/
def without (gone : Place → Bool) : Node → Node
  | .mk t h ss => .mk t h (withoutSlots gone 0 ss)

def withoutSlots (gone : Place → Bool) (i : Nat) : List (Slot Node) → List (Slot Node)
  | [] => []
  | .one none :: ss => .one none :: withoutSlots gone (i + 1) ss
  | .one (some c) :: ss =>
    .one (some (without (fun p => gone ((i, 0) :: p)) c)) :: withoutSlots gone (i + 1) ss
  | .many cs :: ss => .many (withoutItems gone i 0 cs) :: withoutSlots gone (i + 1) ss

def withoutItems (gone : Place → Bool) (i k : Nat) : List (Option Node) → List (Option Node)
  | [] => []
  | none :: cs => none :: withoutItems gone i (k + 1) cs
  | some c :: cs =>
    if gone [(i, k)] then withoutItems gone i (k + 1) cs
    else some (without (fun p => gone ((i, k) :: p)) c) :: withoutItems gone i (k + 1) cs

end

/-! The places of what stands in the slots of a node start with the slot. -/

theorem starts_under (x : Nat × Nat) (ds : List Declaration) :
    ∀ d ∈ ds.map (·.under x), ∃ y p, d.place = y :: p ∧ y = x := by
  intro d hd
  obtain ⟨e, -, rfl⟩ := List.mem_map.mp hd
  exact ⟨x, e.place, rfl, rfl⟩

theorem starts_items (i k : Nat) (cs : List (Option Node)) :
    ∀ d ∈ declarationsItems i k cs, ∃ x p, d.place = x :: p ∧ x.1 = i ∧ k ≤ x.2 := by
  induction cs generalizing k with
  | nil => exact nofun
  | cons c cs ih =>
    have hlater : ∀ d ∈ declarationsItems i (k + 1) cs,
        ∃ x p, d.place = x :: p ∧ x.1 = i ∧ k ≤ x.2 := by
      intro d hd
      obtain ⟨x, p, hplace, hslot, hle⟩ := ih (k + 1) d hd
      exact ⟨x, p, hplace, hslot, Nat.le_of_succ_le hle⟩
    cases c with
    | none => exact hlater
    | some c =>
      intro d hd
      rcases List.mem_append.mp hd with hd | hd
      · obtain ⟨x, p, hplace, rfl⟩ := starts_under _ _ d hd
        exact ⟨(i, k), p, hplace, rfl, Nat.le_refl k⟩
      · exact hlater d hd

theorem starts_slots (i : Nat) (ss : List (Slot Node)) :
    ∀ d ∈ declarationsSlots i ss, ∃ x p, d.place = x :: p ∧ i ≤ x.1 := by
  induction ss generalizing i with
  | nil => exact nofun
  | cons s ss ih =>
    have hlater : ∀ d ∈ declarationsSlots (i + 1) ss, ∃ x p, d.place = x :: p ∧ i ≤ x.1 := by
      intro d hd
      obtain ⟨x, p, hplace, hle⟩ := ih (i + 1) d hd
      exact ⟨x, p, hplace, Nat.le_of_succ_le hle⟩
    match s with
    | .one none => exact hlater
    | .one (some c) =>
      intro d hd
      rcases List.mem_append.mp hd with hd | hd
      · obtain ⟨x, p, hplace, rfl⟩ := starts_under _ _ d hd
        exact ⟨(i, 0), p, hplace, Nat.le_refl i⟩
      · exact hlater d hd
    | .many cs =>
      intro d hd
      rcases List.mem_append.mp hd with hd | hd
      · obtain ⟨x, p, hplace, hslot, -⟩ := starts_items i 0 cs d hd
        exact ⟨x, p, hplace, Nat.le_of_eq hslot.symm⟩
      · exact hlater d hd

theorem inside_slots (i : Nat) (ss : List (Slot Node)) :
    ∀ d ∈ declarationsSlots i ss, d.place ≠ [] := by
  intro d hd
  obtain ⟨x, p, hplace, -⟩ := starts_slots i ss d hd
  rw [hplace]
  exact List.cons_ne_nil x p

theorem inList_of_root {inList : Bool} {n : Node} {d : Declaration}
    (hd : d ∈ declarations inList n) (hplace : d.place = []) : d.inList = inList := by
  obtain ⟨t, h, ss⟩ := n
  rcases List.mem_append.mp hd with hd | hd
  · obtain ⟨name, -, rfl⟩ := List.mem_map.mp hd
    rfl
  · exact absurd hplace (inside_slots 0 ss d hd)

def Beside (ds ds' : List Declaration) : Prop := ∀ d ∈ ds, ∀ e ∈ ds', Place.Apart d.place e.place

theorem beside_of_starts {ds ds' : List Declaration} (P : Nat × Nat → Prop)
    (h : ∀ d ∈ ds, ∃ x p, d.place = x :: p ∧ P x)
    (h' : ∀ d ∈ ds', ∃ x p, d.place = x :: p ∧ ¬ P x) : Beside ds ds' := by
  intro d hd e he
  obtain ⟨x, p, hx, hPx⟩ := h d hd
  obtain ⟨y, q, hy, hPy⟩ := h' e he
  exact ⟨x, p, y, q, hx, hy, fun heq => hPy (heq ▸ hPx)⟩

theorem beside_slots {ds : List Declaration} {i : Nat} (ss : List (Slot Node))
    (h : ∀ d ∈ ds, ∃ x p, d.place = x :: p ∧ x.1 = i) :
    Beside ds (declarationsSlots (i + 1) ss) := by
  refine beside_of_starts (·.1 = i) h fun d hd => ?_
  obtain ⟨x, p, hplace, hle⟩ := starts_slots (i + 1) ss d hd
  exact ⟨x, p, hplace, by omega⟩

theorem beside_items (ds : List Declaration) (i k : Nat) (cs : List (Option Node)) :
    Beside (ds.map (·.under (i, k))) (declarationsItems i (k + 1) cs) := by
  refine beside_of_starts (· = (i, k)) (starts_under (i, k) ds) fun d hd => ?_
  obtain ⟨x, p, hplace, -, hle⟩ := starts_items i (k + 1) cs d hd
  refine ⟨x, p, hplace, ?_⟩
  rintro rfl
  exact Nat.not_succ_le_self k hle

/-! What is left depends only on the places below. -/

mutual

theorem without_congr : (n : Node) → {gone gone' : Place → Bool} →
    (∀ x p, gone (x :: p) = gone' (x :: p)) → without gone n = without gone' n
  | .mk t h ss, _, _, hsame => by
    rw [without, without, withoutSlots_congr 0 ss fun i' k p _ => hsame (i', k) p]

theorem withoutSlots_congr (i : Nat) : (ss : List (Slot Node)) → {gone gone' : Place → Bool} →
    (∀ i' k p, i ≤ i' → gone ((i', k) :: p) = gone' ((i', k) :: p)) →
    withoutSlots gone i ss = withoutSlots gone' i ss
  | [], _, _, _ => rfl
  | .one none :: ss, _, _, hsame => by
    rw [withoutSlots, withoutSlots, withoutSlots_congr (i + 1) ss fun i' k p hle =>
      hsame i' k p (Nat.le_of_succ_le hle)]
  | .one (some c) :: ss, gone, gone', hsame => by
    have hfirst : without (fun p => gone ((i, 0) :: p)) c = without (fun p => gone' ((i, 0) :: p)) c :=
      without_congr c fun x p => hsame i 0 (x :: p) (Nat.le_refl i)
    rw [withoutSlots, withoutSlots, hfirst,
      withoutSlots_congr (i + 1) ss fun i' k p hle => hsame i' k p (Nat.le_of_succ_le hle)]
  | .many cs :: ss, _, _, hsame => by
    rw [withoutSlots, withoutSlots,
      withoutItems_congr i 0 cs fun k p _ => hsame i k p (Nat.le_refl i),
      withoutSlots_congr (i + 1) ss fun i' k p hle => hsame i' k p (Nat.le_of_succ_le hle)]

theorem withoutItems_congr (i k : Nat) : (cs : List (Option Node)) → {gone gone' : Place → Bool} →
    (∀ k' p, k ≤ k' → gone ((i, k') :: p) = gone' ((i, k') :: p)) →
    withoutItems gone i k cs = withoutItems gone' i k cs
  | [], _, _, _ => rfl
  | none :: cs, _, _, hsame => by
    rw [withoutItems, withoutItems, withoutItems_congr i (k + 1) cs fun k' p hle =>
      hsame k' p (Nat.le_of_succ_le hle)]
  | some c :: cs, gone, gone', hsame => by
    have hfirst : without (fun p => gone ((i, k) :: p)) c = without (fun p => gone' ((i, k) :: p)) c :=
      without_congr c fun x p => hsame k (x :: p) (Nat.le_refl k)
    rw [withoutItems, withoutItems, hsame k [] (Nat.le_refl k), hfirst,
      withoutItems_congr i (k + 1) cs fun k' p hle => hsame k' p (Nat.le_of_succ_le hle)]

end

/-! Where nothing is gone, everything is left. -/

mutual

theorem without_none : (n : Node) → without (fun _ => false) n = n
  | .mk t h ss => by rw [without, withoutSlots_none 0 ss]

theorem withoutSlots_none (i : Nat) : (ss : List (Slot Node)) →
    withoutSlots (fun _ => false) i ss = ss
  | [] => rfl
  | .one none :: ss => by rw [withoutSlots, withoutSlots_none (i + 1) ss]
  | .one (some c) :: ss => by rw [withoutSlots, without_none c, withoutSlots_none (i + 1) ss]
  | .many cs :: ss => by rw [withoutSlots, withoutItems_none i 0 cs, withoutSlots_none (i + 1) ss]

theorem withoutItems_none (i k : Nat) : (cs : List (Option Node)) →
    withoutItems (fun _ => false) i k cs = cs
  | [] => rfl
  | none :: cs => by rw [withoutItems, withoutItems_none i (k + 1) cs]
  | some c :: cs => by
    rw [withoutItems, if_neg Bool.false_ne_true, without_none c, withoutItems_none i (k + 1) cs]

end

end Unravel.Hoist
