import Unravel.Proofs.Handle.Fill

/-! Edits through handles. An edit either fails before it writes anything, or it writes into the
slot of its handle and nowhere else. -/

namespace Unravel

open Node

/-! Slots by index. -/

namespace Slot

def isList {α : Type} : Slot α → Bool
  | .one _ => false
  | .many _ => true

def at? {α : Type} : Slot α → Option Nat → Option α
  | .one c, none => c
  | .many cs, some i => cs[i]?.join
  | _, _ => none

def splice {α : Type} : Slot α → Option Nat → List α → Slot α
  | .many cs, some i, as => .many (cs.take i ++ as.map some ++ cs.drop (i + 1))
  | _, _, as => .one as.head?

end Slot

namespace Workspace

inductive Seats (w : Workspace) (h : Handle) : Prop where
  | root : h.parent = none → h.field = none → h.index = none → Seats w h
  | slot {p : Named} {f : Field} {s : Slot (Option Nat)} : h.parent = some p → h.field = some f →
      w.slot? p.mark f = some s → (h.index.isSome = true → s.isList = true) → Seats w h

def Holds (w : Workspace) (h : Handle) : Prop :=
  ∃ p f s, h.parent = some p ∧ h.field = some f ∧ w.slot? p.mark f = some s ∧
    s.at? h.index = some (some h.node.mark)

/-- The list of the handle has become too short for its index. -/
def PastEnd (w : Workspace) (h : Handle) : Prop :=
  ∃ p f items i, h.parent = some p ∧ h.field = some f ∧ w.slot? p.mark f = some (.many items) ∧
    h.index = some i ∧ items.length ≤ i

def Found.slot (found : Found) : Slot Node :=
  match found.beside with
  | none => .one (some found.node)
  | some (left, right) => .many (left ++ some found.node :: right)

structure Finds (w : Workspace) (h : Handle) (found : Found) : Prop where
  parent : ∃ p, h.parent = some p ∧ w.find? p.mark = some found.owner
  field : h.field = some found.field
  slot : found.owner.slot? found.field = some found.slot
  node : found.node.mark = some h.node.mark
  index : h.index = found.beside.map (·.1.length)

variable {w : Workspace} {h : Handle}

theorem slot?_eq_some_iff {m : Nat} {f : Field} {s : Slot (Option Nat)} : w.slot? m f = some s ↔
    ∃ o u, w.find? m = some o ∧ o.slot? f = some u ∧ u.view mark = s := by
  unfold slot?
  simp only [Option.map_eq_some_iff, Option.bind_eq_some_iff]
  constructor
  · rintro ⟨u, ⟨o, ho, hu⟩, hs⟩
    exact ⟨o, u, ho, hu, hs⟩
  · rintro ⟨o, u, ho, hu, hs⟩
    exact ⟨u, ⟨o, ho, hu⟩, hs⟩

section
variable {p : Named} {f : Field} {o : Node} {u : Slot Node} (hparent : h.parent = some p)
  (hfield : h.field = some f) (ho : w.find? p.mark = some o) (hu : o.slot? f = some u)
include hparent hfield ho hu

theorem holds_iff : w.Holds h ↔ (u.view mark).at? h.index = some (some h.node.mark) := by
  have hslot : w.slot? p.mark f = some (u.view mark) := slot?_eq_some_iff.mpr ⟨o, u, ho, hu, rfl⟩
  constructor
  · rintro ⟨p', f', s, hp, hf, hs, hat⟩
    cases hparent.symm.trans hp
    cases hfield.symm.trans hf
    cases hslot.symm.trans hs
    exact hat
  · exact fun hat => ⟨p, f, u.view mark, hparent, hfield, hslot, hat⟩

theorem pastEnd_iff : w.PastEnd h ↔
    ∃ items i, u = .many items ∧ h.index = some i ∧ items.length ≤ i := by
  have hslot : w.slot? p.mark f = some (u.view mark) := slot?_eq_some_iff.mpr ⟨o, u, ho, hu, rfl⟩
  constructor
  · rintro ⟨p', f', items, i, hp, hf, hs, hi, hle⟩
    cases hparent.symm.trans hp
    cases hfield.symm.trans hf
    obtain ⟨cs, rfl, rfl⟩ := Slot.view_eq_many (Option.some.inj (hslot.symm.trans hs))
    exact ⟨cs, i, rfl, hi, by rwa [List.length_map] at hle⟩
  · rintro ⟨items, i, rfl, hi, hle⟩
    exact ⟨p, f, _, i, hparent, hfield, hslot, hi, by rwa [List.length_map]⟩

theorem locate_of_single (hi : h.index = none) :
    (¬ w.Holds h ∧ w.locate h = .error (.stale h.place)) ∨
      (w.Holds h ∧ ∃ found, w.locate h = .ok found ∧ w.Finds h found) := by
  rw [holds_iff hparent hfield ho hu, hi]
  unfold locate
  simp only [hparent, hfield, ho, hu, hi]
  match u, hu with
  | .one none, _ => exact .inl ⟨nofun, rfl⟩
  | .many cs, _ => exact .inl ⟨nofun, rfl⟩
  | .one (some n), hu =>
    by_cases hn : n.mark = some h.node.mark
    · refine .inr ⟨congrArg some hn, ⟨o, f, n, none⟩, if_pos (beq_iff_eq.mpr hn), ?_⟩
      exact ⟨⟨p, hparent, ho⟩, hfield, hu, hn, hi⟩
    · refine .inl ⟨fun hat => hn (Option.some.inj hat), if_neg fun heq => hn (beq_iff_eq.mp heq)⟩

theorem locate_of_item {cs : List (Option Node)} {i : Nat} (hcs : u = .many cs)
    (hi : h.index = some i) :
    (w.PastEnd h ∧ ¬ w.Holds h ∧ w.locate h = .error .pastEnd) ∨
      (¬ w.PastEnd h ∧ ¬ w.Holds h ∧ w.locate h = .error (.stale h.place)) ∨
      (w.Holds h ∧ ∃ found, w.locate h = .ok found ∧ w.Finds h found) := by
  rw [holds_iff hparent hfield ho hu, pastEnd_iff hparent hfield ho hu, hi]
  subst hcs
  have hat : (Slot.view mark (.many cs)).at? (some i) = cs[i]?.join.map mark := by
    show (cs.map (Option.map mark))[i]?.join = _
    rw [List.getElem?_map]
    cases cs[i]? <;> rfl
  rw [hat]
  unfold locate
  simp only [hparent, hfield, ho, hu, hi]
  by_cases hlt : i < cs.length
  · right
    have hpast : ¬ ∃ items j, Slot.many cs = .many items ∧ some i = some j ∧ items.length ≤ j := by
      rintro ⟨items, j, hitems, hj, hle⟩
      cases hitems
      cases hj
      omega
    have hget : cs[i]? = some cs[i] := List.getElem?_eq_getElem hlt
    rw [List.drop_eq_getElem_cons hlt, hget]
    cases hc : cs[i] with
    | none => exact .inl ⟨hpast, nofun, rfl⟩
    | some n =>
      by_cases hn : n.mark = some h.node.mark
      · refine .inr ⟨congrArg some hn, ⟨o, f, n, some (cs.take i, cs.drop (i + 1))⟩,
          if_pos (beq_iff_eq.mpr hn), ⟨p, hparent, ho⟩, hfield, ?_, hn, ?_⟩
        · have hsplit : cs.take i ++ some n :: cs.drop (i + 1) = cs := by
            rw [← hc, ← List.drop_eq_getElem_cons hlt, List.take_append_drop]
          show o.slot? f = some (.many (cs.take i ++ some n :: cs.drop (i + 1)))
          rw [hsplit, hu]
        · show h.index = some (cs.take i).length
          rw [hi, List.length_take_of_le (Nat.le_of_lt hlt)]
      · exact .inl ⟨hpast, fun heq => hn (Option.some.inj heq),
          if_neg fun heq => hn (beq_iff_eq.mp heq)⟩
  · left
    have hle : cs.length ≤ i := Nat.le_of_not_lt hlt
    rw [List.drop_eq_nil_of_le hle, List.getElem?_eq_none hle]
    exact ⟨⟨cs, i, rfl, rfl, hle⟩, nofun, rfl⟩

end

/-- How a handle's slot is looked up: the root has none, an index may lie past the end of its list,
and otherwise the slot is found exactly when it holds the node. -/
theorem locate_cases (hseat : w.Seats h) :
    (h.parent = none ∧ w.locate h = .error .rootEdit) ∨
      (w.PastEnd h ∧ ¬ w.Holds h ∧ w.locate h = .error .pastEnd) ∨
      (¬ w.PastEnd h ∧ ¬ w.Holds h ∧ w.locate h = .error (.stale h.place)) ∨
      (w.Holds h ∧ ∃ found, w.locate h = .ok found ∧ w.Finds h found) := by
  cases hseat with
  | root hparent hfield hindex =>
    left
    unfold locate
    rw [hparent]
    exact ⟨rfl, rfl⟩
  | @slot p f s hparent hfield hslot hlist =>
    right
    obtain ⟨o, u, ho, hu, rfl⟩ := slot?_eq_some_iff.mp hslot
    cases hi : h.index with
    | none =>
      right
      have hpast : ¬ w.PastEnd h := by
        rintro ⟨_, _, _, i, -, -, -, hsome, -⟩
        rw [hi] at hsome
        cases hsome
      rcases locate_of_single hparent hfield ho hu hi with ⟨hnot, heq⟩ | hfound
      · exact .inl ⟨hpast, hnot, heq⟩
      · exact .inr hfound
    | some i =>
      rw [hi] at hlist
      cases u with
      | one c => cases hlist rfl
      | many cs => exact locate_of_item hparent hfield ho hu rfl hi

end Workspace
namespace Edit

/-- The nodes that come into the slot: those given, and in the slot of one node an empty statement
for none and a block for several. -/
def nodes (h : Handle) : Edit → List Node
  | .replace new => [new]
  | .remove => []
  | .splice new =>
    match h.index, new with
    | some _, _ => new
    | none, [] => [.emptyStatement (.fresh none)]
    | none, [n] => [n]
    | none, _ :: _ :: _ => [.blockStatement (.fresh none) (new.map some)]

def remembered (h : Handle) (placed : List Node) : Edit → Handle
  | .replace _ => { h with node := (placed.head?.map Workspace.nameOf).getD h.node }
  | .remove => { h with removed := true }
  | .splice _ =>
    match h.index with
    | some _ => { h with removed := true }
    | none => { h with node := (placed.head?.map Workspace.nameOf).getD h.node }

def Applies (h : Handle) : Edit → Prop
  | .remove => h.inSequence = true
  | _ => True

end Edit

namespace Desk

def filled (d : Desk) (k : Nat) (found : Workspace.Found) (ns : List Node)
    (f : List Node → Handle) : Desk :=
  let adopted := d.workspace.adopt ns
  { workspace :=
      adopted.2.setSlot found.owner found.field (found.fill adopted.1) [found.node]
    handles := d.handles.set k (f adopted.1) }

section
variable {α β : Type} {d d' : Desk} {x : Work α} {g : α → Work β}

theorem run_bind_ok {a : α} (hx : x.run d = (.ok a, d')) : (x >>= g).run d = (g a).run d' := by
  show (x >>= g) d = g a d'
  show StateT.bind x (ExceptT.bindCont g) d = _
  unfold StateT.bind
  rw [show x d = _ from hx]
  rfl

theorem run_bind_error {fault : Fault} (hx : x.run d = (.error fault, d')) :
    (x >>= g).run d = (.error fault, d') := by
  show StateT.bind x (ExceptT.bindCont g) d = _
  unfold StateT.bind
  rw [show x d = _ from hx]
  rfl

end

variable {d : Desk} {k : Nat} {h : Handle} {found : Workspace.Found}

theorem run_locate_ok (hl : d.workspace.locate h = .ok found) :
    (locate h).run d = (.ok found, d) := by
  unfold locate
  have hget : (get : Work Desk).run d = (.ok d, d) := rfl
  rw [run_bind_ok hget, hl]
  rfl

theorem run_locate_error {fault : Fault} (hl : d.workspace.locate h = .error fault) :
    (locate h).run d = (.error fault, d) := by
  unfold locate
  have hget : (get : Work Desk).run d = (.ok d, d) := rfl
  rw [run_bind_ok hget, hl]
  rfl

theorem run_perform_error {e : Edit} {fault : Fault} (hl : d.workspace.locate h = .error fault)
    (he : e.Applies h) : (perform k h e).run d = (.error fault, d) := by
  have hreplace (new : Node) : (replace k h new).run d = (.error fault, d) :=
    run_bind_error (run_locate_error hl)
  cases e with
  | replace new => exact hreplace new
  | remove =>
    show (remove k h).run d = _
    unfold remove
    obtain ⟨i, hi⟩ := Option.isSome_iff_exists.mp he
    rw [hi]
    exact run_bind_error (run_locate_error hl)
  | splice new =>
    show (splice k h new).run d = _
    unfold splice
    cases hparent : h.parent with
    | none =>
      unfold Workspace.locate at hl
      rw [hparent] at hl
      cases hl
      rfl
    | some p =>
      cases h.index with
      | some i => exact run_bind_error (run_locate_error hl)
      | none =>
        match new with
        | [] => exact hreplace _
        | [n] => exact hreplace n
        | _ :: _ :: _ => exact hreplace _

theorem run_perform_refused {e : Edit} (he : ¬ e.Applies h) :
    (perform k h e).run d = (.error (.notInList h.place), d) := by
  cases e with
  | replace new => exact (he trivial).elim
  | splice new => exact (he trivial).elim
  | remove =>
    have hindex : h.index = none := Option.not_isSome_iff_eq_none.mp he
    show (remove k h).run d = _
    unfold remove
    rw [hindex]
    rfl

section
variable (hk : d.handles[k]? = some h)
include hk

theorem modify_eq_set (f : Handle → Handle) : d.handles.modify k f = d.handles.set k (f h) := by
  rw [List.modify_eq_set_getElem?, hk]
  rfl

theorem run_put (found : Workspace.Found) (ns : List Node) (f : List Node → Handle → Handle) :
    (do let placed ← adopt ns; fill found placed; update k (f placed) : Work Unit).run d =
      (.ok (), d.filled k found ns fun ps => f ps h) := by
  have hset := modify_eq_set hk (f (d.workspace.adopt ns).1)
  unfold filled
  dsimp only
  rw [← hset]
  rfl

theorem run_cut (found : Workspace.Found) (f : Handle → Handle) :
    (do fill found []; update k f : Work Unit).run d =
      (.ok (), d.filled k found [] fun _ => f h) := run_put hk found [] fun _ => f

theorem run_perform_ok {e : Edit} (hl : d.workspace.locate h = .ok found)
    (hparent : h.parent.isSome = true) (he : e.Applies h) :
    (perform k h e).run d = (.ok (), d.filled k found (e.nodes h) fun ps => e.remembered h ps) := by
  have hreplace (new : Node) : (replace k h new).run d = (.ok (), d.filled k found [new] fun ps =>
      { h with node := (ps.head?.map Workspace.nameOf).getD h.node }) :=
    (run_bind_ok (run_locate_ok hl)).trans (run_put hk found [new] _)
  obtain ⟨node, parent, field, index, ancestors, removed⟩ := h
  cases e with
  | replace new => exact hreplace new
  | remove =>
    cases index with
    | none => cases he
    | some i => exact (run_bind_ok (run_locate_ok hl)).trans (run_cut hk found _)
  | splice new =>
    cases parent with
    | none => cases hparent
    | some p =>
      cases index with
      | some i => exact (run_bind_ok (run_locate_ok hl)).trans (run_put hk found new _)
      | none =>
        match new with
        | [] => exact hreplace _
        | [n] => exact hreplace n
        | _ :: _ :: _ => exact hreplace _

end

end Desk
end Unravel
