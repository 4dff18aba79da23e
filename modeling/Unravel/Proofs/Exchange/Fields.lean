import Mathlib.Data.List.Nodup
import Unravel.Estree.Export
import Unravel.Proofs.Exchange.Spelled

/-! The fields of exported data. The exporter writes the children of a node in an order of its own;
it is the one in which they are walked, so export refuses the first node of the walk that has no
data. -/

namespace Unravel

open Node

/-! The names of fields. -/

theorem Field.name_ne_type (f : Field) : "type" ≠ f.name := by
  cases f <;> decide

theorem Field.name_ne_loc (f : Field) : f.name ≠ "loc" := by
  cases f <;> decide

theorem Kind.nodup_names (k : Kind) : (k.fields.map Field.name).Nodup := by
  cases k with
  | «foreign» name => exact List.nodup_nil
  | _ => decide

theorem Kind.nodup_fields (k : Kind) : k.fields.Nodup := k.nodup_names.of_map Field.name

/-! Loops that stop at the first refusal. -/

theorem bind_elim {α β : Type} (f : Option Fault) (a : α) (k : α → Except Fault β) :
    (f.elim (Except.ok a) Except.error >>= k) = f.elim (k a) Except.error := by
  cases f <;> rfl

theorem mapM_elim {α β : Type} {f : α → Except Fault β} {p : α → Option Fault} {g : α → β} {as : List α}
    (h : ∀ a ∈ as, f a = (p a).elim (.ok (g a)) .error) :
    as.mapM f = (as.findSome? p).elim (.ok (as.map g)) .error := by
  induction as with
  | nil => rfl
  | cons a as ih =>
    have hrest := ih fun b hb => h b (List.mem_cons_of_mem _ hb)
    rw [List.mapM_cons, h a (List.mem_cons_self ..), hrest, List.findSome?_cons, bind_elim]
    cases p a with
    | some f => rfl
    | none => exact bind_elim _ _ _

theorem findSome?_filterMap {α β γ : Type} (f : α → Option β) (p : β → Option γ) (as : List α) :
    (as.filterMap f).findSome? p = as.findSome? fun a => (f a).bind p := by
  rw [← List.head?_filterMap, List.filterMap_filterMap, List.head?_filterMap]

theorem findSome?_flatMap {α β γ : Type} (f : α → List β) (p : β → Option γ) (as : List α) :
    (as.flatMap f).findSome? p = as.findSome? fun a => (f a).findSome? p := by
  induction as with
  | nil => rfl
  | cons a as ih =>
    rw [List.flatMap_cons, List.findSome?_append, ih, List.findSome?_cons]
    cases (f a).findSome? p <;> rfl

namespace Estree

/-! The order of the fields. -/

def Member.field? : Member → Option Field
  | .child field => some field
  | .scalar .. => none

def Member.scalar? : Member → Option (String × Estree)
  | .scalar key data => some (key, data)
  | .child _ => none

def scalars (h : Head) : List (String × Estree) := (members h).filterMap Member.scalar?

/-- The children of a node are written in the order in which they are walked. -/
theorem fields_members (h : Head) : (members h).filterMap Member.field? = h.kind.fields := by
  cases h <;> rfl

theorem forall_members {P : Member → Prop} {h : Head}
    (hscalar : ∀ key data, (key, data) ∈ scalars h → P (.scalar key data))
    (hchild : ∀ f ∈ h.kind.fields, P (.child f)) : ∀ m ∈ members h, P m := by
  intro m hm
  cases m with
  | scalar key data => exact hscalar key data (List.mem_filterMap.mpr ⟨_, hm, rfl⟩)
  | child f =>
    refine hchild f ?_
    rw [← fields_members]
    exact List.mem_filterMap.mpr ⟨_, hm, rfl⟩

/-! What stands in a slot. -/

theorem slotOf_map {α β : Type} (h : Head) (as : List α) (f : Field) (g : α → β) :
    slotOf h (as.map g) f = (slotOf h as f).map g := by
  unfold slotOf
  cases h.kind.fields.findIdx? (· == f) with
  | none => rfl
  | some i => exact List.getElem?_map

theorem slotOf_eq {α : Type} {h : Head} {i : Nat} {f : Field} (hf : h.kind.fields[i]? = some f)
    (as : List α) : slotOf h as f = as[i]? := by
  obtain ⟨hlt, hi⟩ := List.getElem?_eq_some_iff.mp hf
  have hfind : h.kind.fields.findIdx? (· == f) = some i := by
    refine List.findIdx?_eq_some_iff_getElem.mpr ⟨hlt, by simp [hi], fun j hj heq => ?_⟩
    have hsame := (List.Nodup.getElem_inj_iff h.kind.nodup_fields).mp ((beq_iff_eq.mp heq).trans hi.symm)
    omega
  rw [slotOf, hfind]
  rfl

theorem mem_of_slotOf {α : Type} {h : Head} {as : List α} {f : Field} {a : α}
    (ha : slotOf h as f = some a) : a ∈ as := by
  obtain ⟨i, -, hi⟩ := Option.bind_eq_some_iff.mp ha
  exact List.mem_of_getElem? hi

theorem map_slotOf {α : Type} {h : Head} {as : List α} (has : as.length = h.kind.fields.length) :
    h.kind.fields.map (slotOf h as) = as.map some := by
  refine List.ext_getElem (by simp [has]) fun i hfields has => ?_
  rw [List.length_map] at hfields has
  rw [List.getElem_map, List.getElem_map, slotOf_eq (List.getElem?_eq_getElem hfields),
    List.getElem?_eq_getElem has]

/-- The slots of the children, in the order in which they are written, are all slots in their order. -/
theorem slots_members {α : Type} {h : Head} {as : List α} (has : as.length = h.kind.fields.length) :
    (members h).filterMap (fun m => m.field?.bind (slotOf h as)) = as := by
  calc (members h).filterMap (fun m => m.field?.bind (slotOf h as))
      = h.kind.fields.filterMap (slotOf h as) := by rw [← fields_members, List.filterMap_filterMap]
    _ = (h.kind.fields.map (slotOf h as)).filterMap id := by rw [List.filterMap_map]; rfl
    _ = as := by
      rw [map_slotOf has, List.filterMap_map]
      exact List.filterMap_some

def slotData (f : Node → Estree) : Slot Node → Estree
  | .one child => (child.map f).getD .null
  | .many items => .list (items.map fun c => (c.map f).getD .null)

theorem slotData_view (f : Node → Estree) (g : Node → Node) (s : Slot Node) :
    slotData f (s.view g) = slotData (fun c => f (g c)) s := by
  cases s with
  | one c => cases c <;> rfl
  | many cs => simp [slotData, Slot.view, Function.comp_def]

theorem map_slotData_view (f : Node → Estree) (g : Node → Node) (ss : List (Slot Node)) :
    (ss.map (Slot.view g)).map (slotData f) = ss.map (slotData fun c => f (g c)) := by
  rw [List.map_map]
  exact List.map_congr_left fun s _ => slotData_view f g s

theorem ofSlot_view (f : Node → Estree) (s : Slot Node) :
    ofSlot (s.view fun c => (c, f c)) = slotData f s := by
  cases s with
  | one c => cases c <;> rfl
  | many cs => simp [Slot.view, ofSlot, slotData, Function.comp_def]

theorem map_ofSlot_view (f : Node → Estree) (ss : List (Slot Node)) :
    (ss.map (Slot.view fun c => (c, f c))).map ofSlot = ss.map (slotData f) := by
  rw [List.map_map]
  exact List.map_congr_left fun s _ => ofSlot_view f s

/-! The fields of the data of a node. -/

def entries (h : Head) (es : List Estree) : List (String × Estree) :=
  ("type", .str (typeName h)) :: (members h).map (·.entry fun f => (slotOf h es f).getD .null)

theorem ofNode_mk (t : Tag) (h : Head) (ss : List (Slot Node)) :
    ofNode (.mk t h ss) = .object (entries h (ss.map (slotData ofNode)) ++ position t.loc) := by
  rw [entries, ← map_ofSlot_view]
  unfold ofNode
  rw [Node.fold, foldSlots_eq]
  simp only [slotOf_map]

theorem find?_entry {ms : List Member} {write : Field → Estree} {f : Field}
    (hscalars : ∀ p ∈ ms.filterMap Member.scalar?, p.1 ≠ f.name)
    (hnames : ((ms.filterMap Member.field?).map Field.name).Nodup)
    (hf : f ∈ ms.filterMap Member.field?) :
    (ms.map (·.entry write)).find? (·.1 == f.name) = some (f.name, write f) := by
  induction ms with
  | nil => cases hf
  | cons m ms ih =>
    cases m with
    | scalar key data =>
      have hkey : key ≠ f.name := hscalars _ (List.mem_cons_self ..)
      have hrest := ih (fun p hp => hscalars p (List.mem_cons_of_mem _ hp)) hnames hf
      simpa [Member.entry, hkey] using hrest
    | child g =>
      by_cases hname : g.name = f.name
      · have hsame : g = f := List.inj_on_of_nodup_map hnames (List.mem_cons_self ..) hf hname
        simp [Member.entry, hsame]
      · have hmem : f ∈ ms.filterMap Member.field? :=
          (List.mem_cons.mp hf).resolve_left fun heq => hname (heq ▸ rfl)
        have hrest := ih hscalars (List.nodup_cons.mp hnames).2 hmem
        simpa [Member.entry, hname] using hrest

theorem scalar_ne_name (h : Head) : ∀ p ∈ scalars h, ∀ f ∈ h.kind.fields, p.1 ≠ f.name := by
  cases h <;> simp [scalars, members, Member.scalar?, Head.kind, Kind.fields, Kind.shape, Field.name]

theorem find?_entries {h : Head} {es : List Estree} {i : Nat} {f : Field} {e : Estree}
    (hf : h.kind.fields[i]? = some f) (he : es[i]? = some e) (rest : List (String × Estree)) :
    (entries h es ++ rest).find? (·.1 == f.name) = some (f.name, e) := by
  have hmem : f ∈ h.kind.fields := List.mem_of_getElem? hf
  have hfound : ((members h).map (·.entry fun f => (slotOf h es f).getD .null)).find?
      (·.1 == f.name) = some (f.name, (slotOf h es f).getD .null) :=
    find?_entry (fun p hp => scalar_ne_name h p hp f hmem)
      (by rw [fields_members]; exact h.kind.nodup_names) (by rwa [fields_members])
  rw [entries, List.find?_append, List.find?_cons_of_neg (by simpa using Field.name_ne_type f), hfound,
    slotOf_eq hf, he]
  rfl

theorem get_field {h : Head} {es : List Estree} {i : Nat} {f : Field} {e : Estree}
    (hf : h.kind.fields[i]? = some f) (he : es[i]? = some e) (rest : List (String × Estree)) :
    (Estree.object (entries h es ++ rest)).get f.name = e := by
  rw [get, find?_entries hf he rest]
  rfl

theorem find?_scalar {ms : List Member} {write : Field → Estree} {key : String}
    (hkey : ∀ f ∈ ms.filterMap Member.field?, f.name ≠ key) :
    (ms.map (·.entry write)).find? (·.1 == key) = (ms.filterMap Member.scalar?).find? (·.1 == key) := by
  induction ms with
  | nil => rfl
  | cons m ms ih =>
    cases m with
    | scalar key' data =>
      have hrest := ih hkey
      by_cases hsame : key' = key
      · simp [Member.entry, Member.scalar?, hsame]
      · simpa [Member.entry, Member.scalar?, hsame] using hrest
    | child f =>
      have hname : f.name ≠ key := hkey f (List.mem_cons_self ..)
      have hrest := ih fun g hg => hkey g (List.mem_cons_of_mem _ hg)
      simpa [Member.entry, Member.scalar?, hname] using hrest

theorem get_scalar {h : Head} {key : String} (hkey : ∀ f ∈ h.kind.fields, f.name ≠ key)
    (es : List Estree) (rest : List (String × Estree)) :
    (Estree.object (entries h es ++ rest)).get key =
      (Estree.object (("type", .str (typeName h)) :: scalars h ++ rest)).get key := by
  have hscalar : ((members h).map (·.entry fun f => (slotOf h es f).getD .null)).find? (·.1 == key) =
      (scalars h).find? (·.1 == key) := find?_scalar (by rwa [fields_members])
  simp only [get, entries, List.cons_append, List.find?_cons, List.find?_append, hscalar]

/-! Export. -/

variable {refused : Node → Option Fault} {render : Node → Estree}

theorem exportSlot_eq {s : Slot Node}
    (h : ∀ c ∈ s.children, ofTree c = (refused c).elim (.ok (render c)) .error) :
    exportSlot (s.view fun c => (c, ofTree c)) =
      (s.children.findSome? refused).elim (.ok (slotData render s)) .error := by
  match s with
  | .one none => rfl
  | .one (some c) =>
    have hc : exportSlot ((Slot.one (some c)).view fun c => (c, ofTree c)) = ofTree c := rfl
    rw [hc, h c (by simp), Slot.children, Option.toList_some, List.findSome?_cons]
    cases refused c <;> rfl
  | .many cs =>
    have hitems : (cs.map (·.map fun c => (c, ofTree c))).mapM
        (fun c => (c.map (·.2)).getD (.ok .null)) = ((cs.filterMap id).findSome? refused).elim
          (.ok (cs.map fun c => (c.map render).getD .null)) .error := by
      rw [List.mapM_map, findSome?_filterMap]
      refine mapM_elim fun c hc => ?_
      cases c with
      | none => rfl
      | some c => exact h c (Slot.mem_children_many.mpr hc)
    rw [Slot.view, exportSlot, hitems, bind_elim]
    rfl

/-- The fields are written up to the first child that is refused. -/
theorem mapM_emit {h : Head} {ss : List (Slot Node)} (hss : ss.length = h.kind.fields.length)
    (hbelow : ∀ c ∈ childrenOf ss, ofTree c = (refused c).elim (.ok (render c)) .error) :
    (members h).mapM (·.emit fun f =>
        ((slotOf h (ss.map (Slot.view fun c => (c, ofTree c))) f).map exportSlot).getD (.ok .null)) =
      ((childrenOf ss).findSome? refused).elim
        (.ok ((members h).map (·.entry fun f => (slotOf h (ss.map (slotData render)) f).getD .null)))
        .error := by
  have hslots : (childrenOf ss).findSome? refused = (members h).findSome? fun m =>
      (m.field?.bind (slotOf h ss)).bind fun s => s.children.findSome? refused := by
    rw [← findSome?_filterMap, slots_members hss, childrenOf, findSome?_flatMap]
  rw [hslots]
  refine mapM_elim fun m _ => ?_
  cases m with
  | scalar key data => rfl
  | child f =>
    rw [Member.emit, slotOf_map]
    cases hs : slotOf h ss f with
    | none =>
      simp only [Member.field?, Member.entry, slotOf_map, hs, Option.bind_some, Option.map_none]
      rfl
    | some s =>
      have hslot := exportSlot_eq fun c hc => hbelow c (List.mem_flatMap.mpr ⟨s, mem_of_slotOf hs, hc⟩)
      rw [Option.map_some, Option.map_some, Option.getD_some, hslot, bind_elim]
      simp only [Member.field?, Member.entry, slotOf_map, hs, Option.bind_some, Option.map_some]
      rfl

/-- Export stops at the first child that is refused. -/
theorem ofTree_mk {t : Tag} {h : Head} {ss : List (Slot Node)} (hliteral : h.kind ≠ .literal)
    (hmodel : h.kind.isForeign = false) (hss : ss.length = h.kind.fields.length)
    (hbelow : ∀ c ∈ childrenOf ss, ofTree c = (refused c).elim (.ok (render c)) .error) :
    ofTree (.mk t h ss) = ((childrenOf ss).findSome? refused).elim
      (.ok (.object (entries h (ss.map (slotData render)) ++ position t.loc))) .error := by
  have hunfold : ofTree (.mk t h ss) = do
      let fields ← (members h).mapM (·.emit fun f =>
        ((slotOf h (ss.map (Slot.view fun c => (c, ofTree c))) f).map exportSlot).getD (.ok .null))
      return .object (("type", .str (typeName h)) :: fields ++ position t.loc) := by
    unfold ofTree
    rw [Node.fold, foldSlots_eq]
    cases h with
    | literal value => exact absurd rfl hliteral
    | «foreign» name => cases hmodel
    | _ => rfl
  rw [hunfold, mapM_emit hss hbelow, bind_elim]
  rfl

theorem ofTree_literal (t : Tag) (v : Value) (ss : List (Slot Node)) :
    ofTree (.mk t (.literal v) ss) = do return ofNode (← Spelling.literal t v) := by
  unfold ofTree
  rw [Node.fold]

theorem ofTree_spelled {t : Tag} {h : Head} {ss : List (Slot Node)} (hliteral : h.kind ≠ .literal)
    (hmodel : h.kind.isForeign = false) (hss : ss.length = h.kind.fields.length)
    (hbelow : ∀ c ∈ childrenOf ss, ofTree c = (refused c).elim (.ok (ofNode c.spelled)) .error) :
    ofTree (.mk t h ss) = ((childrenOf ss).findSome? refused).elim
      (.ok (ofNode (Node.mk t h ss).spelled)) .error := by
  rw [ofTree_mk hliteral hmodel hss hbelow, spelled_mk hliteral, ofNode_mk, map_slotData_view]

end Estree
end Unravel
