import Mathlib.Data.List.Basic
import Mathlib.Data.Prod.Basic
import Unravel.Proofs.Renaming.Tree
import Unravel.Proofs.Tree.Fill
import Unravel.Rule.Basic

/-! Other names for all that a rule sees and answers: trails, facts, sites and outcomes. -/

namespace Unravel

open Node

variable {ν : String → String}

/-- A function that commutes with an exchange wherever its value is not the default does so
everywhere, for the exchange leads back. -/
theorem commutes_of_forward {α β : Type} {s : α → α} {φ : β → β} (hs : Function.Involutive s)
    (hφ : Function.Involutive φ) {P : α → Prop} (hP : ∀ a, P a → P (s a)) {F : α → β} {d : β}
    (hd : φ d = d) (h : ∀ a, P a → F a = d ∨ F (s a) = φ (F a)) {a : α} (ha : P a) :
    F (s a) = φ (F a) := by
  rcases h a ha with hdefault | hforward
  · rcases h (s a) (hP a ha) with hback | hback
    · rw [hback, hdefault, hd]
    · rw [hs a] at hback
      rw [hback, hφ]
  · exact hforward

/-! Trails. -/

def Hole.mapNames (ν : String → String) : Hole → Hole
  | .single => .single
  | .item left right =>
    .item (left.map (Option.map (Node.mapNames ν))) (right.map (Option.map (Node.mapNames ν)))

def Frame.mapNames (ν : String → String) (f : Frame) : Frame where
  tag := f.tag
  head := f.head.mapNames ν
  before := f.before.map (Slot.mapNames ν)
  hole := f.hole.mapNames ν
  after := f.after.map (Slot.mapNames ν)

abbrev Trail.mapNames (ν : String → String) (trail : Trail) : Trail := trail.map (Frame.mapNames ν)

theorem Slot.mapNames_involutive (hν : Function.Involutive ν) :
    Function.Involutive (Slot.mapNames ν) := by
  intro s
  have hitem : Function.Involutive (Option.map (Node.mapNames ν)) := by
    intro c
    cases c with
    | none => rfl
    | some c => exact congrArg some (c.mapNames_mapNames hν)
  cases s with
  | one c => exact congrArg Slot.one (hitem c)
  | many cs => exact congrArg Slot.many (hitem.list_map cs)

namespace Frame

variable (f : Frame) (n : Node)

theorem plug_mapNames : (f.mapNames ν).plug (n.mapNames ν) = (f.plug n).mapNames ν := by
  obtain ⟨t, h, before, hole, after⟩ := f
  cases hole with
  | single => simp [plug, mapNames, Hole.mapNames]
  | item left right => simp [plug, mapNames, Hole.mapNames]

@[simp] theorem inSequence_mapNames : (f.mapNames ν).inSequence = f.inSequence := by
  obtain ⟨t, h, before, hole, after⟩ := f
  cases hole <;> rfl

theorem seat?_mapNames : (f.mapNames ν).seat? = f.seat?.map (Seat.mapNames ν) := by
  simp only [seat?, field?, mapNames, Head.kind_mapNames, List.length_map]
  exact seat_mapNames _ _

end Frame

namespace Trail

variable (trail : Trail) (n : Node)

theorem plug_mapNames :
    Trail.plug (trail.mapNames ν) (n.mapNames ν) = (trail.plug n).mapNames ν := by
  induction trail generalizing n with
  | nil => rfl
  | cons f fs ih =>
    rw [plug_cons, ← ih, ← Frame.plug_mapNames]
    rfl

theorem seat?_mapNames : (trail.mapNames ν).seat? = trail.seat?.map (Seat.mapNames ν) := by
  cases trail with
  | nil => rfl
  | cons f fs => exact f.seat?_mapNames

@[simp] theorem inSequence_mapNames : Trail.inSequence (trail.mapNames ν) = trail.inSequence := by
  cases trail with
  | nil => rfl
  | cons f fs => exact f.inSequence_mapNames

@[simp] theorem passes_mapNames (mark : Nat) :
    Trail.passes (trail.mapNames ν) mark = trail.passes mark := by
  rw [passes, List.any_map]
  rfl

theorem enclosing?_mapNames (mark : Nat) :
    Trail.enclosing? mark (trail.mapNames ν) (n.mapNames ν) =
      (trail.enclosing? mark n).map (Node.mapNames ν) := by
  induction trail generalizing n with
  | nil => rfl
  | cons f fs ih =>
    have hrest := ih (f.plug n)
    rw [← Frame.plug_mapNames] at hrest
    simp only [List.map_cons, enclosing?, hrest]
    have htag : (f.mapNames ν).tag = f.tag := rfl
    rw [htag]
    split
    · rw [Frame.plug_mapNames]
      rfl
    · rfl

end Trail

/-! Facts. -/

namespace Table

variable {α : Type} {g : α → α}

def mapNames (ν : String → String) (g : α → α) (t : Table α) : Table α := t.map (Prod.map ν g)

section
variable (hν : Function.Injective ν) (t : Table α) (name : String)
include hν

theorem beq_mapNames (e : String × α) : ((Prod.map ν g e).1 == ν name) = (e.1 == name) := by
  rw [Prod.map_fst, Bool.eq_iff_iff, beq_iff_eq, beq_iff_eq, hν.eq_iff]

theorem get?_mapNames : (t.mapNames ν g).get? (ν name) = (t.get? name).map g := by
  have hsame : ((fun e : String × α => e.1 == ν name) ∘ Prod.map ν g) = fun e => e.1 == name := by
    funext e
    exact beq_mapNames hν name e
  rw [get?, mapNames, List.find?_map, hsame, get?]
  cases t.find? fun e => e.1 == name <;> rfl

theorem has_mapNames : (t.mapNames ν g).has (ν name) = t.has name := by
  rw [has, mapNames, List.any_map, has]
  exact List.any_congr rfl fun e => beq_mapNames hν name e

theorem set_mapNames (a : α) :
    (t.mapNames ν g).set (ν name) (g a) = (t.set name a).mapNames ν g := by
  unfold set
  rw [has_mapNames hν]
  split
  · simp only [mapNames, List.map_map]
    refine List.map_congr_left fun e _ => ?_
    simp only [Function.comp_apply, beq_mapNames hν name e]
    split <;> rfl
  · simp [mapNames]

end

end Table

def Fact.mapNames (ν : String → String) : Fact → Fact
  | .constant name v => .constant (ν name) v
  | .array name vs => .array (ν name) vs
  | .function name fn => .function (ν name) (fn.mapNames ν)

def Facts.mapNames (ν : String → String) (facts : Facts) : Facts where
  constants := facts.constants.mapNames ν id
  arrays := facts.arrays.mapNames ν id
  functions := facts.functions.mapNames ν (Node.mapNames ν)

namespace Facts

variable (facts : Facts)

theorem learn_mapNames (hν : Function.Injective ν) (fact : Fact) :
    (facts.mapNames ν).learn (fact.mapNames ν) =
      ((facts.learn fact).1.mapNames ν, (facts.learn fact).2) := by
  cases fact with
  | constant name v =>
    simp only [learn, Fact.mapNames, mapNames, Table.has_mapNames hν]
    rw [← Table.set_mapNames hν]
    rfl
  | array name vs =>
    simp only [learn, Fact.mapNames, mapNames, Table.has_mapNames hν]
    rw [← Table.set_mapNames hν]
    rfl
  | function name fn =>
    simp only [learn, Fact.mapNames, mapNames, Table.has_mapNames hν, Table.set_mapNames hν]

theorem refresh_mapNames {current current' : Nat → Option Node}
    (h : ∀ mark, current' mark = (current mark).map (Node.mapNames ν)) :
    (facts.mapNames ν).refresh current' = (facts.refresh current).mapNames ν := by
  simp only [refresh, mapNames, Table.mapNames, List.map_map]
  congr 1
  refine List.map_congr_left fun e _ => ?_
  obtain ⟨name, fn⟩ := e
  simp only [Function.comp_apply, Prod.map, mark_mapNames]
  cases fn.mark with
  | none => rfl
  | some mark =>
    simp only [Option.bind_some, h]
    cases current mark <;> rfl

theorem update_mapNames (n : Node) :
    (facts.mapNames ν).update (n.mapNames ν) = (facts.update n).mapNames ν := by
  refine refresh_mapNames facts fun mark => ?_
  rw [mark_mapNames]
  split <;> rfl

end Facts

/-! What rules see and answer. -/

def Site.mapNames (ν : String → String) (site : Site) : Site where
  trail := site.trail.mapNames ν
  facts := site.facts.mapNames ν
  settings := site.settings
  mutated := site.mutated.map ν

def Outcome.mapNames (ν : String → String) : Outcome → Outcome
  | .replace n => .replace (n.mapNames ν)
  | .splice ns => .splice (ns.map (Node.mapNames ν))
  | .remove => .remove
  | .learn fact => .learn (fact.mapNames ν)

namespace Site

variable (site : Site)

@[simp] theorem settings_mapNames : (site.mapNames ν).settings = site.settings := rfl

@[simp] theorem isReference_mapNames :
    isReference (site.mapNames ν).seat? = isReference site.seat? := by
  rw [seat?, seat?, mapNames, Trail.seat?_mapNames, isReference_map]

@[simp] theorem isWriteTarget_mapNames :
    isWriteTarget (site.mapNames ν).seat? = isWriteTarget site.seat? := by
  rw [seat?, seat?, mapNames, Trail.seat?_mapNames, isWriteTarget_map]

@[simp] theorem inSequence_mapNames : (site.mapNames ν).inSequence = site.inSequence :=
  Trail.inSequence_mapNames site.trail

theorem contains_map (hν : Function.Injective ν) (names : List String) (name : String) :
    (names.map ν).contains (ν name) = names.contains name := by
  rw [Bool.eq_iff_iff, List.contains_iff_mem, List.contains_iff_mem, List.mem_map]
  exact ⟨fun ⟨x, hx, heq⟩ => hν heq ▸ hx, fun h => ⟨name, h, rfl⟩⟩

theorem isConstantName_mapNames (hν : Function.Injective ν) (name : String) :
    (site.mapNames ν).isConstantName (ν name) = site.isConstantName name := by
  rw [isConstantName, isConstantName, mapNames, contains_map hν]

theorem function?_mapNames (hν : Function.Injective ν) (here : Node) (name : String) :
    (site.mapNames ν).function? (here.mapNames ν) (ν name) =
      (site.function? here name).map (Node.mapNames ν) := by
  simp only [function?, mapNames, Facts.mapNames, Table.get?_mapNames hν]
  cases site.facts.functions.get? name with
  | none => rfl
  | some fn =>
    simp only [Option.map_some, mark_mapNames, Trail.passes_mapNames, Trail.enclosing?_mapNames]
    cases fn.mark with
    | none => rfl
    | some mark =>
      simp only [Option.bind_some]
      split
      · cases site.trail.enclosing? mark here <;> rfl
      · rfl

end Site

/-! Twice the same exchange of names changes nothing. -/

section
variable (hν : Function.Involutive ν)
include hν

theorem Frame.mapNames_involutive : Function.Involutive (Frame.mapNames ν) := by
  rintro ⟨t, h, before, hole, after⟩
  have hslots : Function.Involutive (List.map (Slot.mapNames ν)) :=
    (Slot.mapNames_involutive hν).list_map
  have hhole : (hole.mapNames ν).mapNames ν = hole := by
    cases hole with
    | single => rfl
    | item left right =>
      simp [Hole.mapNames, Function.comp_def, Node.mapNames_mapNames hν]
  simp only [Frame.mapNames, h.mapNames_mapNames hν, hhole]
  rw [hslots before, hslots after]

theorem Table.mapNames_involutive {α : Type} {g : α → α} (hg : Function.Involutive g) :
    Function.Involutive (Table.mapNames ν g) :=
  (hν.prodMap hg).list_map

theorem Facts.mapNames_involutive : Function.Involutive (Facts.mapNames ν) := by
  rintro ⟨constants, arrays, functions⟩
  have hid {α : Type} : Function.Involutive (id : α → α) := fun _ => rfl
  simp only [Facts.mapNames, Facts.mk.injEq]
  exact ⟨Table.mapNames_involutive hν hid _, Table.mapNames_involutive hν hid _,
    Table.mapNames_involutive hν (mapNames_mapNames hν) _⟩

theorem Site.mapNames_involutive : Function.Involutive (Site.mapNames ν) := by
  rintro ⟨trail, facts, settings, mutated⟩
  simp only [Site.mapNames, Site.mk.injEq, Facts.mapNames_involutive hν facts, true_and]
  exact ⟨(Frame.mapNames_involutive hν).list_map trail, hν.list_map mutated⟩

theorem Outcome.mapNames_involutive : Function.Involutive (Outcome.mapNames ν) := by
  intro o
  cases o with
  | replace n => exact congrArg Outcome.replace (n.mapNames_mapNames hν)
  | splice ns =>
    have hmap : Function.Involutive (List.map (Node.mapNames ν)) :=
      Function.Involutive.list_map (mapNames_mapNames hν)
    exact congrArg Outcome.splice (hmap ns)
  | remove => rfl
  | learn fact =>
    cases fact with
    | constant name v => simp only [Outcome.mapNames, Fact.mapNames, hν name]
    | array name vs => simp only [Outcome.mapNames, Fact.mapNames, hν name]
    | function name fn => simp only [Outcome.mapNames, Fact.mapNames, hν name, mapNames_mapNames hν]

end

end Unravel
