import Mathlib.Data.List.Basic
import Unravel.Proofs.Tree.Every

/-! The marks of a tree, one for each marked node, and how often each one stands in it. Numbering adds
every mark of an interval once and leaves the others alone; a tree with a hole has the marks of the
trail and of what is in the hole. -/

namespace Unravel

def Slot.marks (s : Slot Node) : List Nat := (Node.walkSlots [s]).filterMap Node.mark

namespace Node

def marks (n : Node) : List Nat := n.walk.filterMap mark

def marksSlots (ss : List (Slot Node)) : List Nat := (walkSlots ss).filterMap mark

def marksItems (cs : List (Option Node)) : List Nat := (walkItems cs).filterMap mark

theorem mem_marks {n : Node} {m : Nat} : m ∈ n.marks ↔ ∃ c ∈ n.walk, c.mark = some m :=
  List.mem_filterMap

@[simp] theorem marks_mk (t : Tag) (h : Head) (ss : List (Slot Node)) :
    (Node.mk t h ss).marks = t.mark.toList ++ marksSlots ss := by
  obtain ⟨mark, loc⟩ := t
  cases mark with
  | none => rfl
  | some m => rfl

@[simp] theorem marksSlots_nil : marksSlots [] = [] := rfl

@[simp] theorem marksSlots_append (ss ss' : List (Slot Node)) :
    marksSlots (ss ++ ss') = marksSlots ss ++ marksSlots ss' := by
  simp only [marksSlots, walkSlots_append, List.filterMap_append]

@[simp] theorem marksSlots_cons (s : Slot Node) (ss : List (Slot Node)) :
    marksSlots (s :: ss) = s.marks ++ marksSlots ss := marksSlots_append [s] ss

@[simp] theorem marks_none : (Slot.one none).marks = [] := rfl

@[simp] theorem marks_one (c : Node) : (Slot.one (some c)).marks = c.marks := by
  simp only [Slot.marks, walkSlots, List.append_nil, marks]

@[simp] theorem marks_many (cs : List (Option Node)) : (Slot.many cs).marks = marksItems cs := by
  simp only [Slot.marks, walkSlots, List.append_nil, marksItems]

@[simp] theorem marksItems_nil : marksItems [] = [] := rfl

@[simp] theorem marksItems_none (cs : List (Option Node)) :
    marksItems (none :: cs) = marksItems cs := rfl

@[simp] theorem marksItems_some (c : Node) (cs : List (Option Node)) :
    marksItems (some c :: cs) = c.marks ++ marksItems cs := by
  simp only [marks, marksItems, walkItems, List.filterMap_append]

@[simp] theorem marksItems_append (cs cs' : List (Option Node)) :
    marksItems (cs ++ cs') = marksItems cs ++ marksItems cs' := by
  simp only [marksItems, walkItems_append, List.filterMap_append]

theorem marksItems_cons (c : Option Node) (cs : List (Option Node)) :
    marksItems (c :: cs) = marksItems [c] ++ marksItems cs := marksItems_append [c] cs

theorem marksItems_filterMap (cs : List (Option Node)) :
    marksItems ((cs.filterMap id).map some) = marksItems cs := by
  simp only [marksItems, walkItems_filterMap]

theorem marksItems_sublist {cs cs' : List (Option Node)} (h : cs.Sublist cs') :
    (marksItems cs).Sublist (marksItems cs') := by
  induction h with
  | slnil => exact .refl _
  | cons c _ ih =>
    rw [marksItems_cons c]
    exact ih.trans (List.sublist_append_right _ _)
  | @cons_cons cs cs' c _ ih =>
    rw [marksItems_cons c cs, marksItems_cons c cs']
    exact ih.append_left _

theorem map_mark_walk {n : Node} (h : n.Every fun c => c.mark.isSome = true) :
    n.walk.map mark = n.marks.map some := by
  unfold Every at h
  unfold marks
  generalize n.walk = cs at h ⊢
  induction cs with
  | nil => rfl
  | cons c cs ih =>
    obtain ⟨hc, hcs⟩ := List.forall_mem_cons.mp h
    obtain ⟨m, hm⟩ := Option.isSome_iff_exists.mp hc
    rw [List.map_cons, List.filterMap_cons_some hm, List.map_cons, ih hcs, hm]

theorem marks_of_unmarked {n : Node} (h : ∀ c ∈ n.walk, c.mark = none) : n.marks = [] :=
  List.filterMap_eq_nil_iff.mpr h

/-! Relabelling. -/

def Relabel.KeepsTags {τ : Type} (f : Relabel τ) : Prop := ∀ seat t h s, (f seat t h s).1.1 = t

section
variable {τ : Type} {f : Relabel τ}

mutual

theorem marks_relabel (hf : f.KeepsTags) (seat : Option Seat) (s : τ) :
    (n : Node) → (relabel f seat n s).1.marks = n.marks
  | .mk t h ss => by
    simp only [relabel, marks_mk, hf seat t h s, marksSlots_relabel hf]

theorem marksSlots_relabel (hf : f.KeepsTags) (h : Head) (fs : List Field) (s : τ) :
    (ss : List (Slot Node)) → marksSlots (relabelSlots f h fs ss s).1 = marksSlots ss
  | [] => rfl
  | .one none :: ss => by
    simp only [relabelSlots, marksSlots_cons, marksSlots_relabel hf]
  | .one (some c) :: ss => by
    simp only [relabelSlots, marksSlots_cons, marks_one, marks_relabel hf, marksSlots_relabel hf]
  | .many cs :: ss => by
    simp only [relabelSlots, marksSlots_cons, marks_many, marksItems_relabel hf,
      marksSlots_relabel hf]

theorem marksItems_relabel (hf : f.KeepsTags) (seat : Option Seat) (s : τ) :
    (cs : List (Option Node)) → marksItems (relabelItems f seat cs s).1 = marksItems cs
  | [] => rfl
  | none :: cs => by
    simp only [relabelItems, marksItems_none, marksItems_relabel hf]
  | some c :: cs => by
    simp only [relabelItems, marksItems_some, marks_relabel hf, marksItems_relabel hf]

end

end

@[simp] theorem marks_rename (n : Node) (old new : String) : (n.rename old new).1.marks = n.marks := by
  refine marks_relabel ?_ none 0 n
  intro seat t h count
  dsimp only
  split
  · split <;> rfl
  · rfl

/-- The marks `bs` are the marks `as` with each mark from `next` up to `next'` added once. -/
structure Numbers (next : Nat) (as : List Nat) (next' : Nat) (bs : List Nat) : Prop where
  le : next ≤ next'
  count : ∀ m, bs.count m = as.count m + if next ≤ m ∧ m < next' then 1 else 0

theorem Numbers.refl (next : Nat) (as : List Nat) : Numbers next as next as := by
  refine ⟨Nat.le_refl _, fun m => ?_⟩
  rw [if_neg (by omega), Nat.add_zero]

theorem Numbers.append {next next' next'' : Nat} {as as' bs bs' : List Nat}
    (h : Numbers next as next' bs) (h' : Numbers next' as' next'' bs') :
    Numbers next (as ++ as') next'' (bs ++ bs') := by
  refine ⟨Nat.le_trans h.le h'.le, fun m => ?_⟩
  have hle := h.le
  have hle' := h'.le
  rw [List.count_append, List.count_append, h.count m, h'.count m]
  split_ifs <;> omega

theorem numbers_tag (seat : Option Seat) (t : Tag) (h : Head) (next : Nat) :
    Numbers next t.mark.toList (numbering seat t h next).2
      (numbering seat t h next).1.1.mark.toList := by
  obtain ⟨mark, loc⟩ := t
  cases mark with
  | some m => exact .refl next [m]
  | none =>
    refine ⟨Nat.le_succ next, fun m => ?_⟩
    have hone : m = next ↔ next ≤ m ∧ m < next + 1 := by omega
    simp only [Option.toList_some, Option.toList_none, List.count_singleton, List.count_nil,
      Nat.zero_add, ← hone, beq_iff_eq, eq_comm (a := next)]

mutual

theorem numbers_relabel (seat : Option Seat) (next : Nat) : (n : Node) →
    Numbers next n.marks (relabel numbering seat n next).2 (relabel numbering seat n next).1.marks
  | .mk t h ss => by
    simp only [relabel, marks_mk]
    exact (numbers_tag seat t h next).append (numbers_relabelSlots h h.kind.fields _ ss)

theorem numbers_relabelSlots (h : Head) (fs : List Field) (next : Nat) : (ss : List (Slot Node)) →
    Numbers next (marksSlots ss) (relabelSlots numbering h fs ss next).2
      (marksSlots (relabelSlots numbering h fs ss next).1)
  | [] => .refl next []
  | .one none :: ss => numbers_relabelSlots h fs.tail next ss
  | .one (some c) :: ss => by
    simp only [relabelSlots, marksSlots_cons, marks_one]
    exact (numbers_relabel _ next c).append (numbers_relabelSlots h fs.tail _ ss)
  | .many cs :: ss => by
    simp only [relabelSlots, marksSlots_cons, marks_many]
    exact (numbers_relabelItems _ next cs).append (numbers_relabelSlots h fs.tail _ ss)

theorem numbers_relabelItems (seat : Option Seat) (next : Nat) : (cs : List (Option Node)) →
    Numbers next (marksItems cs) (relabelItems numbering seat cs next).2
      (marksItems (relabelItems numbering seat cs next).1)
  | [] => .refl next []
  | none :: cs => numbers_relabelItems seat next cs
  | some c :: cs => by
    simp only [relabelItems, marksItems_some]
    exact (numbers_relabel seat next c).append (numbers_relabelItems seat _ cs)

end

theorem numbers_number (n : Node) (next : Nat) :
    Numbers next n.marks (n.number next).2 (n.number next).1.marks := numbers_relabel none next n

theorem isSome_mark_number (n : Node) (next : Nat) :
    (n.number next).1.Every fun c => c.mark.isSome = true := by
  refine every_number (P := fun _ => True) ?_ (fun _ _ => trivial) next
  rintro seat ⟨⟨mark, loc⟩, h, ss⟩ s -
  cases mark <;> rfl

def Placed (next : Nat) (c : Node) : Prop := ∃ m ∈ c.mark, m < next

def Aged (next : Nat) (c : Node) : Prop := ∀ m ∈ c.mark, m < next

instance (next : Nat) : DecidablePred (Placed next) :=
  fun c => inferInstanceAs (Decidable (∃ m ∈ c.mark, m < next))

instance (next : Nat) : DecidablePred (Aged next) :=
  fun c => inferInstanceAs (Decidable (∀ m ∈ c.mark, m < next))

theorem Placed.aged {next : Nat} {c : Node} (h : c.Placed next) : c.Aged next := by
  obtain ⟨m, hmark, hm⟩ := h
  intro m' hm'
  cases Option.mem_unique hmark hm'
  exact hm

theorem Aged.mono {next next' : Nat} {c : Node} (h : c.Aged next) (hle : next ≤ next') :
    c.Aged next' := fun m hm => Nat.lt_of_lt_of_le (h m hm) hle

theorem Placed.mono {next next' : Nat} {c : Node} (h : c.Placed next) (hle : next ≤ next') :
    c.Placed next' := by
  obtain ⟨m, hmark, hm⟩ := h
  exact ⟨m, hmark, Nat.lt_of_lt_of_le hm hle⟩

theorem every_aged_iff {next : Nat} {n : Node} : n.Every (Aged next) ↔ ∀ m ∈ n.marks, m < next := by
  constructor
  · intro h m hm
    obtain ⟨c, hc, hmark⟩ := mem_marks.mp hm
    exact h c hc m hmark
  · intro h c hc m hmark
    exact h m (mem_marks.mpr ⟨c, hc, hmark⟩)

theorem every_placed_iff {next : Nat} {n : Node} :
    n.Every (Placed next) ↔ (n.Every fun c => c.mark.isSome = true) ∧ ∀ m ∈ n.marks, m < next := by
  constructor
  · intro h
    refine ⟨h.mono ?_, every_aged_iff.mp (h.mono fun _ hc => hc.aged)⟩
    rintro c ⟨m, hm, -⟩
    rw [Option.mem_def.mp hm]
    rfl
  · rintro ⟨hsome, hlt⟩ c hc
    obtain ⟨m, hm⟩ := Option.isSome_iff_exists.mp (hsome c hc)
    exact ⟨m, hm, hlt m (mem_marks.mpr ⟨c, hc, hm⟩)⟩

end Node

/-! Trees with a hole. -/

open Node

def Frame.marks (f : Frame) : List Nat :=
  f.tag.mark.toList ++ marksSlots f.before.reverse ++ marksSlots f.after ++
    match f.hole with
    | .single => []
    | .item left right => marksItems left.reverse ++ marksItems right

def Trail.marks (trail : Trail) : List Nat := trail.flatMap Frame.marks

theorem Frame.count_plugAll (f : Frame) {ns : List Node} (hf : f.Takes ns) (m : Nat) :
    (f.plugAll ns).marks.count m = f.marks.count m + (marksItems (ns.map some)).count m := by
  obtain ⟨t, h, before, hole, after⟩ := f
  cases hole with
  | single =>
    rcases hf with hf | ⟨n, rfl⟩
    · cases hf
    · simp [plugAll, Frame.marks, List.count_append]
      omega
  | item left right =>
    simp [plugAll, Frame.marks, List.count_append]
    omega

theorem Frame.count_plug (f : Frame) (n : Node) (m : Nat) :
    (f.plug n).marks.count m = f.marks.count m + n.marks.count m := by
  rw [← plugAll_singleton, f.count_plugAll (.inr ⟨n, rfl⟩)]
  simp

theorem Trail.count_plug (trail : Trail) (n : Node) (m : Nat) :
    (trail.plug n).marks.count m = trail.marks.count m + n.marks.count m := by
  induction trail generalizing n with
  | nil => simp [Trail.marks]
  | cons f fs ih =>
    rw [plug_cons, ih, Frame.count_plug, Trail.marks, Trail.marks, List.flatMap_cons,
      List.count_append]
    omega

end Unravel
