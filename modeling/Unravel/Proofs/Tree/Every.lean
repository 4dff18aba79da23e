import Unravel.Proofs.Tree.Weight

/-! What holds at every node of a tree. It holds at the nodes beside a hole and at those in the hole;
it survives new marks, and an edit survives on the way up to the root as soon as the node around the
hole looks the same from above. -/

namespace Unravel

def Slot.view {α : Type} (g : Node → α) : Slot Node → Slot α
  | .one c => .one (c.map g)
  | .many cs => .many (cs.map (·.map g))

abbrev Slot.heads : Slot Node → Slot Head := Slot.view Node.head

def Slot.map {α β : Type} (k : α → β) : Slot α → Slot β
  | .one c => .one (c.map k)
  | .many cs => .many (cs.map (·.map k))

theorem Slot.view_comp {α β : Type} (g : Node → α) (k : α → β) :
    Slot.view (k ∘ g) = Slot.map k ∘ Slot.view g := by
  funext slot
  cases slot with
  | one c => simp [view, map]
  | many cs => simp [view, map, Function.comp_def]

theorem Node.map_view_comp {α β : Type} {g : Node → α} {ss ss' : List (Slot Node)} (k : α → β)
    (hview : ss.map (Slot.view g) = ss'.map (Slot.view g)) :
    ss.map (Slot.view (k ∘ g)) = ss'.map (Slot.view (k ∘ g)) := by
  rw [Slot.view_comp, ← List.map_map, ← List.map_map, hview]

namespace Node

/-! Functions that go through slots and items node by node. -/

section
variable {α : Type} (f : Node → α)

theorem items_eq_map (g : List (Option Node) → List (Option α)) (hnil : g [] = [])
    (hnone : ∀ cs, g (none :: cs) = none :: g cs)
    (hsome : ∀ c cs, g (some c :: cs) = some (f c) :: g cs) (cs : List (Option Node)) :
    g cs = cs.map (·.map f) := by
  induction cs with
  | nil => exact hnil
  | cons c cs ih =>
    cases c with
    | none => rw [hnone, ih, List.map_cons, Option.map_none]
    | some c => rw [hsome, ih, List.map_cons, Option.map_some]

theorem slots_eq_map (g : List (Slot Node) → List (Slot α)) (hnil : g [] = [])
    (hnone : ∀ ss, g (.one none :: ss) = .one none :: g ss)
    (hone : ∀ c ss, g (.one (some c) :: ss) = .one (some (f c)) :: g ss)
    (hmany : ∀ cs ss, g (.many cs :: ss) = .many (cs.map (·.map f)) :: g ss) (ss : List (Slot Node)) :
    g ss = ss.map (Slot.view f) := by
  induction ss with
  | nil => exact hnil
  | cons s ss ih =>
    rw [List.map_cons, ← ih]
    match s with
    | .one none => exact hnone ss
    | .one (some c) => exact hone c ss
    | .many cs => exact hmany cs ss

end

theorem walkSlots_append (ss ss' : List (Slot Node)) :
    walkSlots (ss ++ ss') = walkSlots ss ++ walkSlots ss' := by
  induction ss with
  | nil => rfl
  | cons s ss ih =>
    match s with
    | .one none => exact ih
    | .one (some c) => simp only [List.cons_append, walkSlots, ih, List.append_assoc]
    | .many cs => simp only [List.cons_append, walkSlots, ih, List.append_assoc]

theorem walkSlots_cons (s : Slot Node) (ss : List (Slot Node)) :
    walkSlots (s :: ss) = walkSlots [s] ++ walkSlots ss := walkSlots_append [s] ss

theorem walkItems_append (cs cs' : List (Option Node)) :
    walkItems (cs ++ cs') = walkItems cs ++ walkItems cs' := by
  induction cs with
  | nil => rfl
  | cons c cs ih =>
    match c with
    | none => exact ih
    | some c => simp only [List.cons_append, walkItems, ih, List.append_assoc]

theorem walkItems_filterMap (cs : List (Option Node)) :
    walkItems ((cs.filterMap id).map some) = walkItems cs := by
  induction cs with
  | nil => rfl
  | cons c cs ih =>
    match c with
    | none => exact ih
    | some c => exact congrArg (c.walk ++ ·) ih

theorem self_mem_walk (n : Node) : n ∈ n.walk := by
  obtain ⟨t, h, ss⟩ := n
  exact List.mem_cons_self ..

def Every (P : Node → Prop) (n : Node) : Prop := ∀ c ∈ n.walk, P c

def EverySlots (P : Node → Prop) (ss : List (Slot Node)) : Prop := ∀ c ∈ walkSlots ss, P c

def EveryItems (P : Node → Prop) (cs : List (Option Node)) : Prop := ∀ c ∈ walkItems cs, P c

instance {P : Node → Prop} [DecidablePred P] (n : Node) : Decidable (n.Every P) :=
  inferInstanceAs (Decidable (∀ c ∈ n.walk, P c))

variable {P Q : Node → Prop}

theorem Every.self {n : Node} (h : n.Every P) : P n := h n n.self_mem_walk

theorem Every.mono {n : Node} (h : n.Every P) (hPQ : ∀ c, P c → Q c) : n.Every Q :=
  fun c hc => hPQ c (h c hc)

@[simp] theorem every_mk {t : Tag} {h : Head} {ss : List (Slot Node)} :
    (Node.mk t h ss).Every P ↔ P (.mk t h ss) ∧ EverySlots P ss := by
  simp only [Every, EverySlots, walk, List.forall_mem_cons]

@[simp] theorem everySlots_nil : EverySlots P [] := fun _ hc => nomatch hc

@[simp] theorem everySlots_none {ss : List (Slot Node)} :
    EverySlots P (.one none :: ss) ↔ EverySlots P ss := Iff.rfl

@[simp] theorem everySlots_one {c : Node} {ss : List (Slot Node)} :
    EverySlots P (.one (some c) :: ss) ↔ c.Every P ∧ EverySlots P ss := by
  simp only [Every, EverySlots, walkSlots, List.forall_mem_append]

@[simp] theorem everySlots_many {cs : List (Option Node)} {ss : List (Slot Node)} :
    EverySlots P (.many cs :: ss) ↔ EveryItems P cs ∧ EverySlots P ss := by
  simp only [EveryItems, EverySlots, walkSlots, List.forall_mem_append]

@[simp] theorem everyItems_nil : EveryItems P [] := fun _ hc => nomatch hc

@[simp] theorem everyItems_none {cs : List (Option Node)} :
    EveryItems P (none :: cs) ↔ EveryItems P cs := Iff.rfl

@[simp] theorem everyItems_some {c : Node} {cs : List (Option Node)} :
    EveryItems P (some c :: cs) ↔ c.Every P ∧ EveryItems P cs := by
  simp only [Every, EveryItems, walkItems, List.forall_mem_append]

theorem everySlots_append {ss ss' : List (Slot Node)} :
    EverySlots P (ss ++ ss') ↔ EverySlots P ss ∧ EverySlots P ss' := by
  simp only [EverySlots, walkSlots_append, List.forall_mem_append]

theorem everySlots_cons {s : Slot Node} {ss : List (Slot Node)} :
    EverySlots P (s :: ss) ↔ EverySlots P [s] ∧ EverySlots P ss := by
  rw [← List.singleton_append]
  exact everySlots_append

theorem everyItems_append {cs cs' : List (Option Node)} :
    EveryItems P (cs ++ cs') ↔ EveryItems P cs ∧ EveryItems P cs' := by
  simp only [EveryItems, walkItems_append, List.forall_mem_append]

theorem everyItems_iff {cs : List (Option Node)} :
    EveryItems P cs ↔ ∀ c, some c ∈ cs → c.Every P := by
  induction cs with
  | nil => simp
  | cons c cs ih =>
    match c with
    | none => simp [ih]
    | some c => simp [ih]

theorem everyItems_map {ns : List Node} : EveryItems P (ns.map some) ↔ ∀ n ∈ ns, n.Every P := by
  simp [everyItems_iff]

mutual

theorem walk_subset_walk {c : Node} : (n : Node) → c ∈ n.walk → c.walk ⊆ n.walk
  | .mk t h ss, hc => by
    rw [walk, List.mem_cons] at hc
    rcases hc with rfl | hc
    · exact List.Subset.refl _
    · exact List.subset_cons_of_subset _ (walk_subset_walkSlots ss hc)

theorem walk_subset_walkSlots {c : Node} : (ss : List (Slot Node)) → c ∈ walkSlots ss →
    c.walk ⊆ walkSlots ss
  | [], hc => nomatch hc
  | .one none :: ss, hc => walk_subset_walkSlots ss hc
  | .one (some d) :: ss, hc => by
    rw [walkSlots, List.mem_append] at hc
    rcases hc with hc | hc
    · exact List.subset_append_of_subset_left _ (walk_subset_walk d hc)
    · exact List.subset_append_of_subset_right _ (walk_subset_walkSlots ss hc)
  | .many cs :: ss, hc => by
    rw [walkSlots, List.mem_append] at hc
    rcases hc with hc | hc
    · exact List.subset_append_of_subset_left _ (walk_subset_walkItems cs hc)
    · exact List.subset_append_of_subset_right _ (walk_subset_walkSlots ss hc)

theorem walk_subset_walkItems {c : Node} : (cs : List (Option Node)) → c ∈ walkItems cs →
    c.walk ⊆ walkItems cs
  | [], hc => nomatch hc
  | none :: cs, hc => walk_subset_walkItems cs hc
  | some d :: cs, hc => by
    rw [walkItems, List.mem_append] at hc
    rcases hc with hc | hc
    · exact List.subset_append_of_subset_left _ (walk_subset_walk d hc)
    · exact List.subset_append_of_subset_right _ (walk_subset_walkItems cs hc)

end

theorem Every.below {n c : Node} (h : n.Every P) (hc : c ∈ n.walk) : c.Every P :=
  fun d hd => h d (walk_subset_walk n hc hd)

/-! New tags change nothing for a property that does not look at them. -/

section
variable {τ : Type} {f : Relabel τ}

@[simp] theorem head_relabel (hf : f.KeepsHeads) (seat : Option Seat) (n : Node) (s : τ) :
    (relabel f seat n s).1.head = n.head := by
  obtain ⟨t, h, ss⟩ := n
  exact hf seat t h s

/-- What is seen of a node depends on its head and on what is seen of its children. -/
def IsView {α : Type} (g : Node → α) : Prop :=
  ∀ (t t' : Tag) (h : Head) (ss ss' : List (Slot Node)),
    ss.map (Slot.view g) = ss'.map (Slot.view g) → g (.mk t h ss) = g (.mk t' h ss')

section
variable {α : Type} {g : Node → α}

mutual

theorem view_relabel (hf : f.KeepsHeads) (hg : IsView g) (seat : Option Seat) (s : τ) : (n : Node) →
    g (relabel f seat n s).1 = g n
  | .mk t h ss => by
    have hhead : (f seat t h s).1.2 = h := hf seat t h s
    simp only [relabel, hhead]
    exact hg _ _ _ _ _ (view_relabelSlots hf hg h h.kind.fields (f seat t h s).2 ss)

theorem view_relabelSlots (hf : f.KeepsHeads) (hg : IsView g) (h : Head) (fs : List Field) (s : τ) :
    (ss : List (Slot Node)) →
    (relabelSlots f h fs ss s).1.map (Slot.view g) = ss.map (Slot.view g)
  | [] => rfl
  | .one none :: ss => by
    simp only [relabelSlots, List.map_cons, view_relabelSlots hf hg h _ _ ss]
  | .one (some c) :: ss => by
    simp only [relabelSlots, List.map_cons, Slot.view, Option.map_some, view_relabel hf hg _ _ c,
      view_relabelSlots hf hg h _ _ ss]
  | .many cs :: ss => by
    simp only [relabelSlots, List.map_cons, Slot.view, view_relabelItems hf hg _ _ cs,
      view_relabelSlots hf hg h _ _ ss]

theorem view_relabelItems (hf : f.KeepsHeads) (hg : IsView g) (seat : Option Seat) (s : τ) :
    (cs : List (Option Node)) → (relabelItems f seat cs s).1.map (·.map g) = cs.map (·.map g)
  | [] => rfl
  | none :: cs => by simp only [relabelItems, List.map_cons, view_relabelItems hf hg _ _ cs]
  | some c :: cs => by
    simp only [relabelItems, List.map_cons, Option.map_some, view_relabel hf hg _ _ c,
      view_relabelItems hf hg _ _ cs]

end

end

theorem heads_relabelSlots (hf : f.KeepsHeads) (h : Head) (fs : List Field)
    (ss : List (Slot Node)) (s : τ) :
    (relabelSlots f h fs ss s).1.map Slot.heads = ss.map Slot.heads :=
  view_relabelSlots hf (fun _ _ _ _ _ _ => rfl) h fs s ss

def Relabel.Carries (f : Relabel τ) (P Q : Node → Prop) : Prop :=
  ∀ seat n s, P n → Q (relabel f seat n s).1

mutual

theorem every_relabel (hP : f.Carries P Q) (seat : Option Seat) (s : τ) :
    (n : Node) → n.Every P → (relabel f seat n s).1.Every Q
  | .mk t h ss, hn => by
    obtain ⟨hself, hss⟩ := every_mk.mp hn
    have hnew := hP seat (.mk t h ss) s hself
    simp only [relabel, every_mk] at hnew ⊢
    exact ⟨hnew, everySlots_relabel hP h _ _ ss hss⟩

theorem everySlots_relabel (hP : f.Carries P Q) (h : Head) (fs : List Field) (s : τ) :
    (ss : List (Slot Node)) → EverySlots P ss → EverySlots Q (relabelSlots f h fs ss s).1
  | [], _ => everySlots_nil
  | .one none :: ss, hss => by
    simp only [relabelSlots, everySlots_none] at hss ⊢
    exact everySlots_relabel hP h _ _ ss hss
  | .one (some c) :: ss, hss => by
    simp only [relabelSlots, everySlots_one] at hss ⊢
    exact ⟨every_relabel hP _ _ c hss.1, everySlots_relabel hP h _ _ ss hss.2⟩
  | .many cs :: ss, hss => by
    simp only [relabelSlots, everySlots_many] at hss ⊢
    exact ⟨everyItems_relabel hP _ _ cs hss.1, everySlots_relabel hP h _ _ ss hss.2⟩

theorem everyItems_relabel (hP : f.Carries P Q) (seat : Option Seat) (s : τ) :
    (cs : List (Option Node)) → EveryItems P cs → EveryItems Q (relabelItems f seat cs s).1
  | [], _ => everyItems_nil
  | none :: cs, hcs => by
    simp only [relabelItems, everyItems_none] at hcs ⊢
    exact everyItems_relabel hP _ _ cs hcs
  | some c :: cs, hcs => by
    simp only [relabelItems, everyItems_some] at hcs ⊢
    exact ⟨every_relabel hP _ _ c hcs.1, everyItems_relabel hP _ _ cs hcs.2⟩

end

end

section
variable {τ : Type} {f : Relabel τ}

mutual

theorem heads_seated_relabel (hf : f.KeepsHeads) (seat seat' : Option Seat) (s : τ) : (n : Node) →
    ((relabel f seat' n s).1.seated seat).map (fun p => (p.1.head, p.2)) =
      (n.seated seat).map (fun p => (p.1.head, p.2))
  | .mk t h ss => by
    have hhead : (f seat' t h s).1.2 = h := hf seat' t h s
    have hbelow := heads_seatedSlots_relabel hf h h.kind.fields (f seat' t h s).2 ss
    simp only [relabel, seated, hhead, List.map_cons, hbelow]
    rfl

theorem heads_seatedSlots_relabel (hf : f.KeepsHeads) (h : Head) (fs : List Field) (s : τ) :
    (ss : List (Slot Node)) →
    (seatedSlots h fs (relabelSlots f h fs ss s).1).map (fun p => (p.1.head, p.2)) =
      (seatedSlots h fs ss).map (fun p => (p.1.head, p.2))
  | [] => rfl
  | .one none :: ss => by
    simp only [relabelSlots, seatedSlots, heads_seatedSlots_relabel hf h _ _ ss]
  | .one (some c) :: ss => by
    simp only [relabelSlots, seatedSlots, List.map_append, heads_seated_relabel hf _ _ _ c,
      heads_seatedSlots_relabel hf h _ _ ss]
  | .many cs :: ss => by
    simp only [relabelSlots, seatedSlots, List.map_append, heads_seatedItems_relabel hf _ _ _ cs,
      heads_seatedSlots_relabel hf h _ _ ss]

theorem heads_seatedItems_relabel (hf : f.KeepsHeads) (seat seat' : Option Seat) (s : τ) :
    (cs : List (Option Node)) →
    (seatedItems seat (relabelItems f seat' cs s).1).map (fun p => (p.1.head, p.2)) =
      (seatedItems seat cs).map (fun p => (p.1.head, p.2))
  | [] => rfl
  | none :: cs => by
    simp only [relabelItems, seatedItems, heads_seatedItems_relabel hf _ _ _ cs]
  | some c :: cs => by
    simp only [relabelItems, seatedItems, List.map_append, heads_seated_relabel hf _ _ _ c,
      heads_seatedItems_relabel hf _ _ _ cs]

end

end

mutual

theorem exists_seat (seat : Option Seat) {c : Node} : (n : Node) → c ∈ n.walk →
    ∃ seat', (c, seat') ∈ n.seated seat
  | .mk t h ss, hc => by
    rw [walk, List.mem_cons] at hc
    rcases hc with rfl | hc
    · exact ⟨seat, List.mem_cons_self ..⟩
    · obtain ⟨seat', hmem⟩ := exists_seatSlots h h.kind.fields ss hc
      exact ⟨seat', List.mem_cons_of_mem _ hmem⟩

theorem exists_seatSlots (h : Head) (fs : List Field) {c : Node} : (ss : List (Slot Node)) →
    c ∈ walkSlots ss → ∃ seat', (c, seat') ∈ seatedSlots h fs ss
  | [], hc => nomatch hc
  | .one none :: ss, hc => exists_seatSlots h fs.tail ss hc
  | .one (some d) :: ss, hc => by
    rw [walkSlots, List.mem_append] at hc
    rcases hc with hc | hc
    · obtain ⟨seat', hmem⟩ := exists_seat (fs.head?.map (⟨h, ·⟩)) d hc
      exact ⟨seat', List.mem_append_left _ hmem⟩
    · obtain ⟨seat', hmem⟩ := exists_seatSlots h fs.tail ss hc
      exact ⟨seat', List.mem_append_right _ hmem⟩
  | .many cs :: ss, hc => by
    rw [walkSlots, List.mem_append] at hc
    rcases hc with hc | hc
    · obtain ⟨seat', hmem⟩ := exists_seatItems (fs.head?.map (⟨h, ·⟩)) cs hc
      exact ⟨seat', List.mem_append_left _ hmem⟩
    · obtain ⟨seat', hmem⟩ := exists_seatSlots h fs.tail ss hc
      exact ⟨seat', List.mem_append_right _ hmem⟩

theorem exists_seatItems (seat : Option Seat) {c : Node} : (cs : List (Option Node)) →
    c ∈ walkItems cs → ∃ seat', (c, seat') ∈ seatedItems seat cs
  | [], hc => nomatch hc
  | none :: cs, hc => exists_seatItems seat cs hc
  | some d :: cs, hc => by
    rw [walkItems, List.mem_append] at hc
    rcases hc with hc | hc
    · obtain ⟨seat', hmem⟩ := exists_seat seat d hc
      exact ⟨seat', List.mem_append_left _ hmem⟩
    · obtain ⟨seat', hmem⟩ := exists_seatItems seat cs hc
      exact ⟨seat', List.mem_append_right _ hmem⟩

end

abbrev unmarking : Relabel Unit := fun _ t h s => (({ t with mark := none }, h), s)

theorem unmarking_keepsHeads : unmarking.KeepsHeads := fun _ _ _ _ => rfl

@[simp] theorem head_number (n : Node) (next : Nat) : (n.number next).1.head = n.head :=
  head_relabel numbering_keepsHeads none n next

theorem every_number {n : Node} (hP : numbering.Carries P Q) (h : n.Every P) (next : Nat) :
    (n.number next).1.Every Q := every_relabel hP none next n h

@[simp] theorem head_unmarked (n : Node) : n.unmarked.head = n.head :=
  head_relabel unmarking_keepsHeads none n ()

theorem exists_of_mem_walk_unmarked {n c : Node} (hc : c ∈ n.unmarked.walk) :
    c.mark = none ∧ ∃ d ∈ n.walk, d.head = c.head := by
  have hcopy : unmarking.Carries (fun d => ∃ e ∈ n.walk, e.head = d.head)
      (fun d => d.mark = none ∧ ∃ e ∈ n.walk, e.head = d.head) := by
    rintro seat ⟨t, h, ss⟩ s hd
    exact ⟨rfl, hd⟩
  exact every_relabel hcopy none () n (fun d hd => ⟨d, hd, rfl⟩) c hc

end Node

/-! Trees with a hole. -/

namespace Frame

open Node

variable {P : Node → Prop}

def Beside (P : Node → Prop) (f : Frame) : Prop :=
  EverySlots P f.before.reverse ∧ EverySlots P f.after ∧
    match f.hole with
    | .single => True
    | .item left right => EveryItems P left.reverse ∧ EveryItems P right

theorem view_plug {α : Type} {g : Node → α} {c c' : Node} (f : Frame) (hg : g c = g c') :
    (f.plug c).slots.map (Slot.view g) = (f.plug c').slots.map (Slot.view g) := by
  cases hhole : f.hole with
  | single => simp [plug, slots, hhole, Slot.view, hg]
  | item left right => simp [plug, slots, hhole, Slot.view, hg]

theorem every_plug {f : Frame} {n : Node} :
    (f.plug n).Every P ↔ P (f.plug n) ∧ f.Beside P ∧ n.Every P := by
  obtain ⟨t, h, before, hole, after⟩ := f
  cases hole with
  | single =>
    simp only [plug, Beside, every_mk, everySlots_append, everySlots_one]
    constructor
    · rintro ⟨hself, hbefore, hn, hafter⟩
      exact ⟨hself, ⟨hbefore, hafter, trivial⟩, hn⟩
    · rintro ⟨hself, ⟨hbefore, hafter, -⟩, hn⟩
      exact ⟨hself, hbefore, hn, hafter⟩
  | item left right =>
    simp only [plug, Beside, every_mk, everySlots_append, everySlots_many, everyItems_append,
      everyItems_some]
    constructor
    · rintro ⟨hself, hbefore, ⟨hleft, hn, hright⟩, hafter⟩
      exact ⟨hself, ⟨hbefore, hafter, hleft, hright⟩, hn⟩
    · rintro ⟨hself, ⟨hbefore, hafter, hleft, hright⟩, hn⟩
      exact ⟨hself, hbefore, ⟨hleft, hn, hright⟩, hafter⟩

theorem every_plugAll {f : Frame} {ns : List Node} (hf : f.Takes ns) :
    (f.plugAll ns).Every P ↔ P (f.plugAll ns) ∧ f.Beside P ∧ ∀ n ∈ ns, n.Every P := by
  rcases hf with hf | ⟨n, rfl⟩
  · obtain ⟨t, h, before, hole, after⟩ := f
    cases hole with
    | single => cases hf
    | item left right =>
      simp only [plugAll, Beside, every_mk, everySlots_append, everySlots_many, everyItems_append,
        everyItems_map]
      constructor
      · rintro ⟨hself, hbefore, ⟨hleft, hns, hright⟩, hafter⟩
        exact ⟨hself, ⟨hbefore, hafter, hleft, hright⟩, hns⟩
      · rintro ⟨hself, ⟨hbefore, hafter, hleft, hright⟩, hns⟩
        exact ⟨hself, hbefore, ⟨hleft, hns, hright⟩, hafter⟩
  · rw [plugAll_singleton, every_plug]
    simp

end Frame

namespace Trail

open Node

variable {P : Node → Prop}

theorem every_of_plug (trail : Trail) {n : Node} (h : (trail.plug n).Every P) : n.Every P := by
  induction trail generalizing n with
  | nil => exact h
  | cons f fs ih => exact (Frame.every_plug.mp (ih h)).2.2

theorem enclosing_mem_walk {mark : Nat} {trail : Trail} {n m : Node}
    (h : trail.enclosing? mark n = some m) : m ∈ (trail.plug n).walk ∧ m.mark = some mark := by
  induction trail generalizing n with
  | nil => cases h
  | cons f fs ih =>
    rw [enclosing?] at h
    split at h
    · rename_i hmark
      cases h
      have hself : (f.plug n).Every (· ∈ (Trail.plug fs (f.plug n)).walk) :=
        every_of_plug fs fun _ hc => hc
      exact ⟨hself.self, by simpa [Frame.plug, Node.mark, Node.tag] using hmark⟩
    · exact ih h

/-- A property that sees the children of a node through a view survives an edit below the view. -/
theorem every_plug_of_view {α : Type} (view : Node → α)
    (hview : ∀ (f : Frame) c c', view c = view c' → view (f.plug c) = view (f.plug c'))
    (hP : ∀ (f : Frame) c c', view c = view c' → P (f.plug c) → P (f.plug c'))
    (trail : Trail) {c c' : Node} (hcc : view c = view c') (hc' : c'.Every P)
    (h : (trail.plug c).Every P) : (trail.plug c').Every P := by
  induction trail generalizing c c' with
  | nil => exact hc'
  | cons f fs ih =>
    obtain ⟨hself, hbeside, -⟩ := Frame.every_plug.mp (every_of_plug fs h)
    exact ih (hview f c c' hcc)
      (Frame.every_plug.mpr ⟨hP f c c' hcc hself, hbeside, hc'⟩) h

theorem every_exchange {α : Type} (view : Node → α)
    (hview : ∀ (f : Frame) c c', view c = view c' → view (f.plug c) = view (f.plug c'))
    (hP : ∀ (f : Frame) c c', view c = view c' → P (f.plug c) → P (f.plug c'))
    {f : Frame} {fs : Trail} {n : Node} {ns : List Node} (hf : f.Takes ns)
    (hsame : view (f.plug n) = view (f.plugAll ns)) (hself : P (f.plug n) → P (f.plugAll ns))
    (hns : ∀ m ∈ ns, m.Every P) (h : (Trail.plug (f :: fs) n).Every P) :
    (Trail.plug fs (f.plugAll ns)).Every P := by
  obtain ⟨hplug, hbeside, -⟩ := Frame.every_plug.mp (every_of_plug fs h)
  exact every_plug_of_view view hview hP fs hsame
    ((Frame.every_plugAll hf).mpr ⟨hself hplug, hbeside, hns⟩) h

end Trail
end Unravel
