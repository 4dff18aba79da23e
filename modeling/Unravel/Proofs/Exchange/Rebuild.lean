import Unravel.Estree.Rebuild
import Unravel.Proofs.Exchange.Fields
import Unravel.Proofs.Exchange.Normal

/-! The data of a tree as a parser would give it. It is the data of the tree with braces, in which
every field of a node can be found under its name. -/

namespace Unravel

open Node

theorem Kind.ofName_name {k : Kind} (hk : k.isForeign = false) : Kind.ofName k.name = k := by
  cases k with
  | «foreign» name => cases hk
  | _ => rfl

namespace Estree

/-! Folds over data. -/

theorem foldItems_eq {α : Type} (f : Estree → Layer α → α) (es : List Estree) :
    foldItems f es = es.map fun e => (e, fold f e) := by
  induction es with
  | nil => rfl
  | cons e es ih => rw [foldItems, ih, List.map_cons]

theorem foldFields_eq {α : Type} (f : Estree → Layer α → α) (es : List (String × Estree)) :
    foldFields f es = es.map fun p => (p.1, p.2, fold f p.2) := by
  induction es with
  | nil => rfl
  | cons p es ih =>
    obtain ⟨key, e⟩ := p
    rw [foldFields, ih, List.map_cons]

theorem mapM_of_forall₂ {α β : Type} {f : α → Except Fault β} {as : List α} {bs : List β}
    (h : List.Forall₂ (fun a b => f a = .ok b) as bs) : as.mapM f = .ok bs := by
  induction h with
  | nil => rfl
  | cons hfirst _ ih =>
    rw [List.mapM_cons, hfirst, ih]
    rfl

/-! The data that a parser would give. -/

def dataKind (h : Head) : Kind := Kind.ofName (typeName h)

/-- The data of a tree without positions and with the fields that a parser adds. -/
def layout (n : Node) : Estree :=
  Node.fold (fun _ h slots =>
    .object (entries h (slots.map ofSlot) ++ defaults (dataKind h))) n

theorem layout_mk (t : Tag) (h : Head) (ss : List (Slot Node)) :
    layout (.mk t h ss) = .object (entries h (ss.map (slotData layout)) ++ defaults (dataKind h)) := by
  rw [← map_ofSlot_view]
  unfold layout
  rw [Node.fold, foldSlots_eq]

theorem type_entries (h : Head) (es : List Estree) (rest : List (String × Estree)) :
    (Estree.object (entries h es ++ rest)).get "type" = .str (typeName h) := by
  rw [get_scalar (fun f _ => (Field.name_ne_type f).symm)]
  rfl

theorem kindOf_entries (h : Head) (es : List Estree) (rest : List (String × Estree)) :
    kindOf (.object (entries h es ++ rest)) = dataKind h := by
  rw [kindOf, type_entries]
  rfl

theorem dataKind_of_ne {h : Head} (hforeign : h.kind.isForeign = false)
    (hregexp : (h.kind == .regexpLiteral) = false) : dataKind h = h.kind := by
  have hname := Kind.ofName_name hforeign
  cases h with
  | regexpLiteral pattern flags => cases hregexp
  | _ => exact hname

theorem dataKind_regexpLiteral (pattern flags : String) :
    dataKind (.regexpLiteral pattern flags) = .literal := Kind.ofName_name (k := .literal) rfl

theorem dataKind_eq {h : Head} (hforeign : h.kind.isForeign = false) :
    ((h.kind == .regexpLiteral) = false ∧ dataKind h = h.kind) ∨
      ∃ pattern flags, h = .regexpLiteral pattern flags ∧ dataKind h = .literal := by
  cases h with
  | regexpLiteral pattern flags =>
    exact .inr ⟨pattern, flags, rfl, dataKind_regexpLiteral pattern flags⟩
  | _ => exact .inl ⟨rfl, dataKind_of_ne hforeign rfl⟩

/-! What is carried over from one rendering of a tree to another. -/

theorem forall_scalar {P : Estree → Prop} (hvalue : ∀ v, P (ofValue v))
    (hregex : ∀ pattern flags, P (.object [("pattern", .str pattern), ("flags", .str flags)])) (h : Head) :
    ∀ p ∈ scalars h, P p.2 := by
  have hnull : P .null := hvalue .null
  have hstr : ∀ s, P (.str s) := fun s => hvalue (.str s)
  have hbool : ∀ b, P (.bool b) := fun b => hvalue (.bool b)
  cases h <;> simp [scalars, members, Member.scalar?, hvalue, hregex, hnull, hstr, hbool]

def Paired (R : Estree → Estree → Prop) (p q : String × Estree) : Prop := p.1 = q.1 ∧ R p.2 q.2

/-- The relation holds of scalars, and of lists if it holds of their items. -/
structure Carries (R : Estree → Estree → Prop) : Prop where
  value : ∀ v, R (ofValue v) (ofValue v)
  regex : ∀ pattern flags, R (.object [("pattern", .str pattern), ("flags", .str flags)])
    (.object [("pattern", .str pattern), ("flags", .str flags)])
  list : ∀ {items items'}, List.Forall₂ R items items' → R (.list items) (.list items')

namespace Carries

variable {R : Estree → Estree → Prop} {f g : Node → Estree}

theorem slotData (hR : Carries R) {s : Slot Node} (h : ∀ c ∈ s.children, R (f c) (g c)) :
    R (slotData f s) (slotData g s) := by
  cases s with
  | one c =>
    cases c with
    | none => exact hR.value .null
    | some c => exact h c (by simp)
  | many cs =>
    have hitems : ∀ c ∈ cs, R ((c.map f).getD .null) ((c.map g).getD .null) := by
      intro c hc
      cases c with
      | none => exact hR.value .null
      | some c => exact h c (Slot.mem_children_many.mpr hc)
    refine hR.list ?_
    rw [List.forall₂_map_left_iff, List.forall₂_map_right_iff]
    exact List.forall₂_same.mpr hitems

theorem entries (hR : Carries R) (hd : Head) {ss : List (Slot Node)}
    (h : ∀ c ∈ childrenOf ss, R (f c) (g c)) :
    List.Forall₂ (Paired R) (entries hd (ss.map (Estree.slotData f)))
      (Estree.entries hd (ss.map (Estree.slotData g))) := by
  have hchild (field : Field) : R ((slotOf hd (ss.map (Estree.slotData f)) field).getD .null)
      ((slotOf hd (ss.map (Estree.slotData g)) field).getD .null) := by
    rw [slotOf_map, slotOf_map]
    cases hs : slotOf hd ss field with
    | none => exact hR.value .null
    | some s => exact hR.slotData fun c hc => h c (List.mem_flatMap.mpr ⟨s, mem_of_slotOf hs, hc⟩)
  refine .cons ⟨rfl, hR.value (.str (typeName hd))⟩ ?_
  rw [List.forall₂_map_left_iff, List.forall₂_map_right_iff]
  refine List.forall₂_same.mpr (forall_members (fun key data hscalar => ?_) fun field _ => ?_)
  · exact ⟨rfl, forall_scalar (P := fun e => R e e) hR.value hR.regex hd _ hscalar⟩
  · exact ⟨rfl, hchild field⟩

end Carries

/-! Whether the data of a statement ends open. -/

theorem endsOpen_object (fields : List (String × Estree)) :
    endsOpen (.object fields) = endsOpenBy (.object fields) fun key =>
      ((fields.find? (·.1 == key)).map (endsOpen ·.2)).getD (.error .notApplicable) := by
  conv_lhs => unfold endsOpen
  rw [fold, foldFields_eq]
  refine congrArg (endsOpenBy (.object fields)) (funext fun key => ?_)
  rw [List.find?_map, Option.map_map]
  rfl

theorem rebuild_object (fields : List (String × Estree)) :
    rebuild (.object fields) = do
      let captures ← capturesElse (.object fields)
      let rebuilt ← (fields.filter (·.1 != "loc")).mapM fun p => do
        let data ← rebuild p.2
        return (p.1, if captures && p.1 == "consequent" then braced data else data)
      return .object (rebuilt ++ defaults (kindOf (.object fields))) := by
  conv_lhs => unfold rebuild
  rw [fold, foldFields_eq]
  simp only [List.filter_map, List.mapM_map, Function.comp_def]
  rfl

theorem rebuild_list (items : List Estree) :
    rebuild (.list items) = do return .list (← items.mapM rebuild) := by
  conv_lhs => unfold rebuild
  rw [fold, foldItems_eq]
  simp only [List.mapM_map, Function.comp_def]
  rfl

theorem scalar_ne (h : Head) : ∀ p ∈ scalars h, p.1 ≠ "consequent" ∧ p.1 ≠ "loc" := by
  cases h <;> simp [scalars, members, Member.scalar?]

theorem rebuild_carries : Carries fun e e' => rebuild e = .ok e' where
  value v := by cases v <;> rfl
  regex _ _ := rfl
  list h := by
    rw [rebuild_list, mapM_of_forall₂ h]
    rfl

def embrace (captures : Bool) (p : String × Estree) : String × Estree :=
  (p.1, if captures && p.1 == "consequent" then braced p.2 else p.2)

theorem mapM_embrace (captures : Bool) {ps qs : List (String × Estree)}
    (h : List.Forall₂ (Paired fun e e' => rebuild e = .ok e') ps qs) :
    (ps.mapM fun p => do
      let data ← rebuild p.2
      return (p.1, if captures && p.1 == "consequent" then braced data else data)) =
      Except.ok (qs.map (embrace captures)) := by
  refine mapM_of_forall₂ ?_
  rw [List.forall₂_map_right_iff]
  refine h.imp fun p q hpq => ?_
  obtain ⟨hkey, hdata⟩ := hpq
  rw [hdata, hkey]
  rfl

theorem filter_entries (h : Head) (es : List Estree) (loc : Option Loc) :
    (entries h es ++ position loc).filter (·.1 != "loc") = entries h es := by
  have hentries : ∀ p ∈ entries h es, (p.1 != "loc") = true := by
    refine List.forall_mem_cons.mpr ⟨rfl, List.forall_mem_map.mpr ?_⟩
    refine forall_members (fun key data hscalar => ?_) fun f _ => ?_
    · exact bne_iff_ne.mpr (scalar_ne h _ hscalar).2
    · exact bne_iff_ne.mpr f.name_ne_loc
  have hposition : (position loc).filter (·.1 != "loc") = [] := by
    cases loc <;> rfl
  rw [List.filter_append, List.filter_eq_self.mpr hentries, hposition, List.append_nil]

/-! The braces of data and those of trees. -/

theorem exists_ofNode_eq (n : Node) : ∃ fields, ofNode n = .object fields := by
  obtain ⟨t, h, ss⟩ := n
  exact ⟨_, ofNode_mk t h ss⟩

theorem get_slot {h : Head} {ss : List (Slot Node)} {i : Nat} {f : Field} {s : Slot Node}
    (hf : h.kind.fields[i]? = some f) (hs : ss[i]? = some s) (rest : List (String × Estree)) :
    (Estree.object (entries h (ss.map (slotData ofNode)) ++ rest)).get f.name =
      slotData ofNode s := by
  refine get_field hf ?_ rest
  rw [List.getElem?_map, hs]
  rfl

theorem follow_entries {h : Head} {ss : List (Slot Node)} {i : Nat} {f : Field} {c : Node}
    (hf : h.kind.fields[i]? = some f) (hs : ss[i]? = some (.one (some c)))
    (rest : List (String × Estree)) :
    (((entries h (ss.map (slotData ofNode)) ++ rest).find? (·.1 == f.name)).map
      (endsOpen ·.2)).getD (.error .notApplicable) = endsOpen (ofNode c) := by
  have he : (ss.map (slotData ofNode))[i]? = some (ofNode c) := by
    rw [List.getElem?_map, hs]
    rfl
  rw [find?_entries hf he]
  rfl

theorem endsOpen_ofNode (n : Node) : n.WellKinded → n.kind.isForeign = false →
    endsOpen (ofNode n) = .ok (Spelling.endsOpen n) := by
  induction n with
  | h t hd ss ih =>
    intro hn hforeign
    have hself := hn.self
    have hdata : (hd.kind == .regexpLiteral) = false → dataKind hd = hd.kind := dataKind_of_ne hforeign
    have hchild : ∀ c ∈ childrenOf ss, endsOpen (ofNode c) = .ok (Spelling.endsOpen c) := by
      intro c hc
      exact ih c hc (hn.child hc) (isForeign_of_child hself hc)
    rw [ofNode_mk, endsOpen_object, endsOpenBy, kindOf_entries]
    cases hd with
    | ifStatement =>
      obtain _ | ⟨-, _ | ⟨-, _ | ⟨halternate, _ | _⟩⟩⟩ := hself
      rename_i test consequent alternate
      rw [hdata rfl]
      have hget : (Estree.object (entries .ifStatement ([test, consequent, alternate].map
          (slotData ofNode)) ++ position t.loc)).get "alternate" = slotData ofNode alternate :=
        get_slot (i := 2) (f := .alternate) rfl rfl _
      rcases maybe_cases halternate with rfl | ⟨a, rfl⟩
      · simp only [Head.kind, hget]
        rfl
      · obtain ⟨fields, hfields⟩ := exists_ofNode_eq a
        have hobject : slotData ofNode (.one (some a)) = .object fields := hfields
        simp only [Head.kind, hget, hobject]
        exact (follow_entries (i := 2) (f := .alternate) rfl rfl _).trans
          (hchild a (by simp [childrenOf]))
    | whileStatement | labeledStatement =>
      obtain _ | ⟨-, _ | ⟨hbody, _ | _⟩⟩ := hself
      obtain ⟨body, rfl, -⟩ := exists_of_demand hbody
      rw [hdata rfl]
      exact (follow_entries (i := 1) (f := .body) rfl rfl _).trans (hchild body (by simp [childrenOf]))
    | forStatement =>
      obtain _ | ⟨-, _ | ⟨-, _ | ⟨-, _ | ⟨hbody, _ | _⟩⟩⟩⟩ := hself
      obtain ⟨body, rfl, -⟩ := exists_of_demand hbody
      rw [hdata rfl]
      exact (follow_entries (i := 3) (f := .body) rfl rfl _).trans (hchild body (by simp [childrenOf]))
    | forInStatement =>
      obtain _ | ⟨-, _ | ⟨-, _ | ⟨hbody, _ | _⟩⟩⟩ := hself
      obtain ⟨body, rfl, -⟩ := exists_of_demand hbody
      rw [hdata rfl]
      exact (follow_entries (i := 2) (f := .body) rfl rfl _).trans (hchild body (by simp [childrenOf]))
    | regexpLiteral pattern flags =>
      rw [dataKind_regexpLiteral]
      rfl
    | _ =>
      rw [hdata rfl]
      rfl

theorem capturesElse_ofNode {t : Tag} {h : Head} {ss : List (Slot Node)}
    (hn : (Node.mk t h ss).WellKinded) (hforeign : h.kind.isForeign = false) :
    (∃ test c a, Spelling.Captures h ss test c a ∧ capturesElse (ofNode (.mk t h ss)) = .ok true) ∨
    (∀ test c a, ¬ Spelling.Captures h ss test c a) ∧
      capturesElse (ofNode (.mk t h ss)) = .ok false := by
  have hself := hn.self
  have hkind := kindOf_entries h (ss.map (slotData ofNode)) (position t.loc)
  rw [ofNode_mk]
  unfold capturesElse
  obtain ⟨-, hdata⟩ | ⟨pattern, flags, rfl, hdata⟩ := dataKind_eq hforeign
  · rw [hkind, hdata]
    cases h with
    | ifStatement =>
      obtain _ | ⟨-, _ | ⟨hconsequent, _ | ⟨halternate, _ | _⟩⟩⟩ := hself
      obtain ⟨c, rfl, hrole⟩ := exists_of_demand hconsequent
      rename_i test alternate
      have hget : (Estree.object (entries .ifStatement ([test, .one (some c), alternate].map
          (slotData ofNode)) ++ position t.loc)).get "alternate" = slotData ofNode alternate :=
        get_slot (i := 2) (f := .alternate) rfl rfl _
      have hget' : (Estree.object (entries .ifStatement ([test, .one (some c), alternate].map
          (slotData ofNode)) ++ position t.loc)).get "consequent" = slotData ofNode (.one (some c)) :=
        get_slot (i := 1) (f := .consequent) rfl rfl _
      rcases maybe_cases halternate with rfl | ⟨a, rfl⟩
      · refine .inr ⟨?_, ?_⟩
        · rintro _ _ _ ⟨-, hslots, -⟩
          cases hslots
        · simp only [hget]
          rfl
      · obtain ⟨fields, hfields⟩ := exists_ofNode_eq a
        have hobject : slotData ofNode (.one (some a)) = .object fields := hfields
        have hopen := endsOpen_ofNode c (hn.child (by simp [childrenOf])) (isForeign_of_role hrole)
        have hopen' : endsOpen (slotData ofNode (.one (some c))) = .ok (Spelling.endsOpen c) := hopen
        simp only [hget, hobject, Head.kind, hget', hopen']
        cases hc : Spelling.endsOpen c with
        | true => exact .inl ⟨_, c, a, ⟨rfl, rfl, hc⟩, rfl⟩
        | false =>
          refine .inr ⟨?_, rfl⟩
          rintro _ _ _ ⟨-, hslots, hc'⟩
          cases hslots
          rw [hc] at hc'
          cases hc'
    | _ =>
      refine .inr ⟨?_, rfl⟩
      rintro _ _ _ ⟨hhead, -⟩
      cases hhead
  · rw [hkind, hdata]
    refine .inr ⟨?_, rfl⟩
    rintro _ _ _ ⟨hhead, -⟩
    cases hhead

theorem layout_blockStatement (t : Tag) (c : Node) :
    layout (.blockStatement t [some c]) = braced (layout c) := by
  have hkind : dataKind .blockStatement = .blockStatement :=
    Kind.ofName_name (k := .blockStatement) rfl
  rw [layout_mk, hkind]
  rfl

theorem map_embrace_false (ps : List (String × Estree)) : ps.map (embrace false) = ps := List.map_id ps

/-- The data of a tree with braces, by the data of the children with theirs: where the consequent would
capture the `else` it has braces more. -/
theorem layout_brace (t : Tag) (h : Head) (ss : List (Slot Node)) :
    (∃ test c a, Spelling.Captures h ss test c a) ∧
      layout (Spelling.brace (.mk t h ss)) =
        .object ((entries h (ss.map (slotData fun c => layout (Spelling.brace c)))).map (embrace true) ++
          defaults (dataKind h)) ∨
    (∀ test c a, ¬ Spelling.Captures h ss test c a) ∧
      layout (Spelling.brace (.mk t h ss)) =
        .object ((entries h (ss.map (slotData fun c => layout (Spelling.brace c)))).map (embrace false) ++
          defaults (dataKind h)) := by
  -- data asks for a capture before the children have their braces, a tree after it
  have hguard : (Spelling.guard h ss).map (Slot.view Spelling.brace) =
      Spelling.guard h (ss.map (Slot.view Spelling.brace)) :=
    Spelling.guard_map (fun c _ => Spelling.endsOpen_brace c)
      (fun c _ => Spelling.brace_blockStatement _ c)
  rw [Spelling.brace_mk, layout_mk, ← hguard]
  obtain ⟨test, c, a, ⟨rfl, rfl, hopen⟩, hguarded⟩ | ⟨hnone, hguarded⟩ := Spelling.guard_cases h ss
  · refine .inl ⟨⟨test, c, a, rfl, rfl, hopen⟩, ?_⟩
    have hblock : slotData (fun c => layout (Spelling.brace c))
        (.one (some (.blockStatement (.fresh none) [some c]))) = braced (layout (Spelling.brace c)) :=
      layout_blockStatement (.fresh none) (Spelling.brace c)
    rw [hguarded, map_slotData_view]
    simp only [List.map_cons, hblock]
    rfl
  · refine .inr ⟨hnone, ?_⟩
    rw [hguarded, map_slotData_view, map_embrace_false]

/-- The data of a tree, in the form that a parser would give, is that of the tree with braces. -/
theorem rebuild_ofNode (n : Node) : n.WellKinded → n.kind.isForeign = false →
    rebuild (ofNode n) = .ok (layout (Spelling.brace n)) := by
  induction n with
  | h t hd ss ih =>
    intro hn hforeign
    have hchild : ∀ c ∈ childrenOf ss, rebuild (ofNode c) = .ok (layout (Spelling.brace c)) := by
      intro c hc
      exact ih c hc (hn.child hc) (isForeign_of_child hn.self hc)
    have hfields := rebuild_carries.entries hd hchild
    have hrebuilt (captures : Bool) (hcaptures : capturesElse (ofNode (.mk t hd ss)) = .ok captures) :
        rebuild (ofNode (.mk t hd ss)) = .ok (.object
          ((entries hd (ss.map (slotData fun c => layout (Spelling.brace c)))).map (embrace captures) ++
            defaults (dataKind hd))) := by
      rw [ofNode_mk] at hcaptures ⊢
      rw [rebuild_object, filter_entries, kindOf_entries]
      refine bind_eq_ok.mpr ⟨captures, hcaptures, ?_⟩
      exact bind_eq_ok.mpr ⟨_, mapM_embrace captures hfields, rfl⟩
    obtain ⟨⟨test, c, a, hcapture⟩, hlayout⟩ | ⟨hnone, hlayout⟩ := layout_brace t hd ss
    · obtain ⟨-, -, -, -, hcaptures⟩ | ⟨hnone, -⟩ := capturesElse_ofNode hn hforeign
      · rw [hlayout, hrebuilt true hcaptures]
      · exact absurd hcapture (hnone test c a)
    · obtain ⟨test, c, a, hcapture, -⟩ | ⟨-, hcaptures⟩ := capturesElse_ofNode hn hforeign
      · exact absurd hcapture (hnone test c a)
      · rw [hlayout, hrebuilt false hcaptures]

end Estree
end Unravel
