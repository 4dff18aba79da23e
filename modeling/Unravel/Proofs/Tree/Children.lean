import Unravel.Proofs.Tree.Every

/-! Trees by their children: induction, and the recursions over slots as statements about all
children. -/

namespace Unravel

open Node

def childrenOf (ss : List (Slot Node)) : List Node := ss.flatMap Slot.children

@[simp] theorem childrenOf_nil : childrenOf [] = [] := rfl

theorem childrenOf_cons (s : Slot Node) (ss : List (Slot Node)) :
    childrenOf (s :: ss) = s.children ++ childrenOf ss := List.flatMap_cons

theorem childrenOf_append (ss ss' : List (Slot Node)) :
    childrenOf (ss ++ ss') = childrenOf ss ++ childrenOf ss' := List.flatMap_append

@[simp] theorem Slot.mem_children_one {c : Node} {child : Option Node} :
    c ∈ (Slot.one child).children ↔ child = some c := Option.mem_toList

@[simp] theorem Slot.mem_children_many {c : Node} {items : List (Option Node)} :
    c ∈ (Slot.many items).children ↔ some c ∈ items := by
  simp [Slot.children]

def leadingName? : List (Slot Node) → Option String
  | .one (some c) :: _ => c.name?
  | _ => none

def Slot.single : Slot Node → Option (Option Head)
  | .one c => some (c.map Node.head)
  | .many _ => none

theorem map_single_of_heads {ss ss' : List (Slot Node)}
    (hheads : ss.map Slot.heads = ss'.map Slot.heads) :
    ss.map Slot.single = ss'.map Slot.single := by
  let look : Slot Head → Option (Option Head)
    | .one c => some c
    | .many _ => none
  have hlook : Slot.single = look ∘ Slot.heads := by
    funext slot
    cases slot <;> rfl
  rw [hlook, ← List.map_map, ← List.map_map, hheads]

def Head.name? : Head → Option String
  | .identifier name => some name
  | _ => none

theorem Node.name?_eq_comp : name? = Head.name? ∘ head := by
  funext n
  obtain ⟨t, h, ss⟩ := n
  cases h <;> rfl

theorem name?_congr {c c' : Node} (hhead : c.head = c'.head) : c.name? = c'.name? := by
  rw [Node.name?_eq_comp]
  exact congrArg Head.name? hhead

theorem leadingName?_congr {ss ss' : List (Slot Node)}
    (hsame : ss.map Slot.single = ss'.map Slot.single) :
    leadingName? ss = leadingName? ss' := by
  match ss, ss' with
  | [], [] => rfl
  | [], _ :: _ => cases hsame
  | _ :: _, [] => cases hsame
  | slot :: _, slot' :: _ =>
    obtain ⟨hslot, -⟩ := List.cons.inj hsame
    match slot, slot' with
    | .one none, .one none => rfl
    | .one (some c), .one (some c') => exact name?_congr (Option.some.inj (Option.some.inj hslot))
    | .many _, .many _ => rfl
    | .one none, .one (some _) | .one (some _), .one none | .one _, .many _ | .many _, .one _ =>
      cases hslot

def Node.declaredName? (n : Node) : Option String :=
  if n.head = .variableDeclarator then leadingName? n.slots else none

theorem view_name?_of_heads {ss ss' : List (Slot Node)}
    (hheads : ss.map Slot.heads = ss'.map Slot.heads) :
    ss.map (Slot.view name?) = ss'.map (Slot.view name?) := by
  rw [Node.name?_eq_comp]
  exact map_view_comp Head.name? hheads

theorem Node.declaredName?_congr {t t' : Tag} {h : Head} {ss ss' : List (Slot Node)}
    (hview : ss.map (Slot.view name?) = ss'.map (Slot.view name?)) :
    (Node.mk t h ss).declaredName? = (Node.mk t' h ss').declaredName? := by
  have hfirst : leadingName? ss = leadingName? ss' := by
    cases ss with
    | nil =>
      cases List.map_eq_nil_iff.mp hview.symm
      rfl
    | cons s ss =>
      obtain ⟨s', rest, rfl, hs, -⟩ := List.map_eq_cons_iff.mp hview.symm
      obtain (_ | c) | cs := s <;> obtain (_ | c') | cs' := s'
      case one.some.one.some => exact (Option.some.inj (Slot.one.inj hs)).symm
      all_goals first | rfl | cases hs
  exact congrArg (fun name => if h = .variableDeclarator then name else none) hfirst

theorem children_view {α : Type} (g : Node → α) (ss : List (Slot Node)) :
    (childrenOf ss).map g = (ss.map (Slot.view g)).flatMap Slot.children := by
  induction ss with
  | nil => rfl
  | cons s ss ih =>
    rw [childrenOf_cons, List.map_append, ih, List.map_cons, List.flatMap_cons]
    congr 1
    match s with
    | .one none => rfl
    | .one (some c) => rfl
    | .many cs => simp [Slot.children, Slot.view, List.map_filterMap, List.filterMap_map]

theorem filterMap_children_congr {α : Type} {g : Node → Option α} {ss ss' : List (Slot Node)}
    (hview : ss.map (Slot.view g) = ss'.map (Slot.view g)) :
    (childrenOf ss).filterMap g = (childrenOf ss').filterMap g := by
  have hchildren : (childrenOf ss).map g = (childrenOf ss').map g := by
    rw [children_view, children_view, hview]
  calc (childrenOf ss).filterMap g = ((childrenOf ss).map g).filterMap id := by
        rw [List.filterMap_map]
        rfl
    _ = ((childrenOf ss').map g).filterMap id := by rw [hchildren]
    _ = (childrenOf ss').filterMap g := by
        rw [List.filterMap_map]
        rfl

/-! Maps over the children of a node. -/

theorem map_view_congr {α : Type} {f g : Node → α} {ss : List (Slot Node)}
    (h : ∀ c ∈ childrenOf ss, f c = g c) : ss.map (Slot.view f) = ss.map (Slot.view g) := by
  refine List.map_congr_left fun s hs => ?_
  have hslot : ∀ c ∈ s.children, f c = g c := fun c hc => h c (List.mem_flatMap.mpr ⟨s, hs, hc⟩)
  cases s with
  | one c =>
    cases c with
    | none => rfl
    | some c => simp [Slot.view, hslot c (by simp)]
  | many cs =>
    have hitems : ∀ c ∈ cs, c.map f = c.map g := by
      intro c hc
      cases c with
      | none => rfl
      | some c => simp [hslot c (by simpa using hc)]
    exact congrArg Slot.many (List.map_congr_left hitems)

theorem map_view_view {α : Type} (f : Node → α) (g : Node → Node) (ss : List (Slot Node)) :
    (ss.map (Slot.view g)).map (Slot.view f) = ss.map (Slot.view fun c => f (g c)) := by
  rw [List.map_map]
  refine List.map_congr_left fun s _ => ?_
  cases s with
  | one c => cases c <;> rfl
  | many cs => simp [Slot.view, Function.comp_def]

theorem map_view_self {f : Node → Node} {ss : List (Slot Node)} (h : ∀ c ∈ childrenOf ss, f c = c) :
    ss.map (Slot.view f) = ss := by
  rw [map_view_congr h]
  refine (List.map_congr_left fun s _ => ?_).trans (List.map_id ss)
  cases s with
  | one c => cases c <;> rfl
  | many cs => simp [Slot.view]

theorem Slot.view_eq_one {α : Type} {f : Node → α} {s : Slot Node} {a : α}
    (h : s.view f = .one (some a)) : ∃ c, s = .one (some c) ∧ f c = a := by
  cases s with
  | one c =>
    obtain ⟨c, rfl, hc⟩ := Option.map_eq_some_iff.mp (Slot.one.inj h)
    exact ⟨c, rfl, hc⟩
  | many cs => cases h

theorem Slot.view_eq_many {α : Type} {f : Node → α} {s : Slot Node} {bs : List (Option α)}
    (h : s.view f = .many bs) : ∃ cs, s = .many cs ∧ cs.map (·.map f) = bs := by
  cases s with
  | one c => cases h
  | many cs => exact ⟨cs, rfl, Slot.many.inj h⟩

theorem childrenOf_map_view (f : Node → Node) (ss : List (Slot Node)) :
    childrenOf (ss.map (Slot.view f)) = (childrenOf ss).map f := (children_view f ss).symm

theorem map_view_eq_one_cons {f : Node → Node} {ss ss' : List (Slot Node)} {c : Node}
    (h : ss.map (Slot.view f) = .one (some c) :: ss') :
    ∃ d rest, ss = .one (some d) :: rest ∧ f d = c ∧ rest.map (Slot.view f) = ss' := by
  obtain ⟨s, rest, rfl, hs, hrest⟩ := List.map_eq_cons_iff.mp h
  obtain ⟨d, rfl, hd⟩ := Slot.view_eq_one hs
  exact ⟨d, rest, rfl, hd, hrest⟩

theorem map_view_eq_one {f : Node → Node} {ss : List (Slot Node)} {c : Node}
    (h : ss.map (Slot.view f) = [.one (some c)]) : ∃ d, ss = [.one (some d)] ∧ f d = c := by
  obtain ⟨d, rest, rfl, hd, hrest⟩ := map_view_eq_one_cons h
  cases List.map_eq_nil_iff.mp hrest
  exact ⟨d, rfl, hd⟩

theorem map_view_eq_many {f : Node → Node} {ss : List (Slot Node)} {bs : List (Option Node)}
    (h : ss.map (Slot.view f) = [.many bs]) : ∃ cs, ss = [.many cs] ∧ cs.map (·.map f) = bs := by
  obtain ⟨s, rest, rfl, hs, hrest⟩ := List.map_eq_cons_iff.mp h
  cases List.map_eq_nil_iff.mp hrest
  obtain ⟨cs, rfl, hcs⟩ := Slot.view_eq_many hs
  exact ⟨cs, rfl, hcs⟩

namespace Frame

def earlier (f : Frame) : List Node :=
  childrenOf f.before.reverse ++
    match f.hole with
    | .single => []
    | .item left _ => left.reverse.filterMap id

def later (f : Frame) : List Node :=
  (match f.hole with
    | .single => []
    | .item _ right => right.filterMap id) ++ childrenOf f.after

theorem children_plugAll {f : Frame} {ns : List Node} (hf : f.Takes ns) :
    childrenOf (f.plugAll ns).slots = f.earlier ++ ns ++ f.later := by
  obtain ⟨t, h, before, hole, after⟩ := f
  simp only [plugAll, slots, earlier, later, childrenOf_append, childrenOf_cons]
  cases hole with
  | single =>
    rcases hf with hf | ⟨n, rfl⟩
    · cases hf
    · simp [Slot.children]
  | item left right => simp [Slot.children, List.filterMap_append, List.filterMap_map]

theorem children_plug (f : Frame) (n : Node) :
    childrenOf (f.plug n).slots = f.earlier ++ n :: f.later := by
  rw [← plugAll_singleton, children_plugAll (.inr ⟨n, rfl⟩), List.append_assoc]
  rfl

end Frame

namespace Node

section
variable {motive : Node → Prop}

mutual

@[induction_eliminator]
theorem induct (h : ∀ t hd ss, (∀ c ∈ childrenOf ss, motive c) → motive (.mk t hd ss)) :
    (n : Node) → motive n
  | .mk t hd ss => h t hd ss (inductSlots h ss)

theorem inductSlots (h : ∀ t hd ss, (∀ c ∈ childrenOf ss, motive c) → motive (.mk t hd ss)) :
    (ss : List (Slot Node)) → ∀ c ∈ childrenOf ss, motive c
  | [], c, hc => nomatch hc
  | .one none :: ss, c, hc => inductSlots h ss c hc
  | .one (some d) :: ss, c, hc => by
    rw [childrenOf_cons, List.mem_append, Slot.mem_children_one] at hc
    rcases hc with hc | hc
    · cases hc
      exact induct h d
    · exact inductSlots h ss c hc
  | .many cs :: ss, c, hc => by
    rw [childrenOf_cons, List.mem_append, Slot.mem_children_many] at hc
    rcases hc with hc | hc
    · exact inductItems h cs c hc
    · exact inductSlots h ss c hc

theorem inductItems (h : ∀ t hd ss, (∀ c ∈ childrenOf ss, motive c) → motive (.mk t hd ss)) :
    (cs : List (Option Node)) → ∀ c, some c ∈ cs → motive c
  | [], c, hc => nomatch hc
  | none :: cs, c, hc => by
    rcases List.mem_cons.mp hc with hc | hc
    · cases hc
    · exact inductItems h cs c hc
  | some d :: cs, c, hc => by
    rcases List.mem_cons.mp hc with hc | hc
    · cases hc
      exact induct h d
    · exact inductItems h cs c hc

end

end

theorem walkItems_eq (cs : List (Option Node)) : walkItems cs = (cs.filterMap id).flatMap walk := by
  induction cs with
  | nil => rfl
  | cons c cs ih =>
    cases c with
    | none => exact ih
    | some c => exact congrArg (c.walk ++ ·) ih

theorem walkSlots_eq (ss : List (Slot Node)) : walkSlots ss = (childrenOf ss).flatMap walk := by
  induction ss with
  | nil => rfl
  | cons s ss ih =>
    rw [childrenOf_cons, List.flatMap_append, ← ih]
    match s with
    | .one none => rfl
    | .one (some c) => simp [walkSlots, Slot.children]
    | .many cs => simp [walkSlots, walkItems_eq, Slot.children]

theorem reachItems_eq (cs : List (Option Node)) :
    reachItems cs = (cs.filterMap id).flatMap reach := by
  induction cs with
  | nil => rfl
  | cons c cs ih =>
    cases c with
    | none => exact ih
    | some c => exact congrArg (c.reach ++ ·) ih

theorem reachSlots_eq (ss : List (Slot Node)) : reachSlots ss = (childrenOf ss).flatMap reach := by
  induction ss with
  | nil => rfl
  | cons s ss ih =>
    rw [childrenOf_cons, List.flatMap_append, ← ih]
    match s with
    | .one none => rfl
    | .one (some c) => simp [reachSlots, Slot.children]
    | .many cs => simp [reachSlots, reachItems_eq, Slot.children]

theorem walk_mk (t : Tag) (h : Head) (ss : List (Slot Node)) :
    (Node.mk t h ss).walk = .mk t h ss :: (childrenOf ss).flatMap walk := by
  rw [walk, walkSlots_eq]

variable {P : Node → Prop}

theorem everySlots_iff {ss : List (Slot Node)} :
    EverySlots P ss ↔ ∀ c ∈ childrenOf ss, c.Every P := by
  induction ss with
  | nil => simp
  | cons s ss ih =>
    rw [everySlots_cons, ih, childrenOf_cons, List.forall_mem_append]
    match s with
    | .one none => simp
    | .one (some c) => simp
    | .many cs => simp [everyItems_iff]

theorem Every.child {t : Tag} {h : Head} {ss : List (Slot Node)} {c : Node}
    (hn : (Node.mk t h ss).Every P) (hc : c ∈ childrenOf ss) : c.Every P :=
  everySlots_iff.mp (every_mk.mp hn).2 c hc

theorem mem_reachSlots {ss : List (Slot Node)} {c d : Node} (hc : c ∈ childrenOf ss)
    (hd : d ∈ c.reach) : d ∈ reachSlots ss := by
  rw [reachSlots_eq]
  exact List.mem_flatMap.mpr ⟨c, hc, hd⟩

theorem exitsItems_eq_any (inLoop inSwitch : Bool) (cs : List (Option Node)) :
    exitsItems inLoop inSwitch cs = (cs.filterMap id).any (exits inLoop inSwitch) := by
  induction cs with
  | nil => rfl
  | cons c cs ih =>
    cases c with
    | none => exact ih
    | some c => exact congrArg (c.exits inLoop inSwitch || ·) ih

theorem exitsSlots_eq_any (inLoop inSwitch : Bool) (ss : List (Slot Node)) :
    exitsSlots inLoop inSwitch ss = (childrenOf ss).any (exits inLoop inSwitch) := by
  induction ss with
  | nil => rfl
  | cons s ss ih =>
    rw [childrenOf_cons, List.any_append, ← ih]
    match s with
    | .one none => rfl
    | .one (some c) => simp [exitsSlots, Slot.children]
    | .many cs => simp [exitsSlots, exitsItems_eq_any, Slot.children]

theorem exitsSlots_eq_false {inLoop inSwitch : Bool} {ss : List (Slot Node)} :
    exitsSlots inLoop inSwitch ss = false ↔
      ∀ c ∈ childrenOf ss, c.exits inLoop inSwitch = false := by
  rw [exitsSlots_eq_any, List.any_eq_false]
  simp only [Bool.not_eq_true]

end Node
end Unravel
