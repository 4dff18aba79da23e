import Unravel.Proofs.Exchange.Rebuild

/-! The objects of exported data. Export refuses the first node of the walk that it has no data for;
otherwise its objects are those of the nodes of the walk, in the same order. -/

namespace Unravel

open Node

/-! Objects that stand for nodes. -/

namespace Estree

/-- Positions and patterns are objects without a type; all others stand for nodes. -/
def isNode : Estree → Bool
  | .object fields => fields.any (·.1 == "type")
  | _ => false

def Layer.gather {α : Type} : Layer (List α) → List α
  | .scalar => []
  | .list items => items.flatMap (·.2)
  | .object fields => fields.flatMap (·.2.2)

def nodes : Estree → List Estree :=
  fold fun e below => (if e.isNode then [e] else []) ++ below.gather

theorem nodes_list (items : List Estree) : (Estree.list items).nodes = items.flatMap nodes := by
  unfold nodes
  rw [fold, foldItems_eq, Layer.gather, List.flatMap_map]
  rfl

theorem nodes_object (fields : List (String × Estree)) :
    (Estree.object fields).nodes =
      (if (Estree.object fields).isNode then [.object fields] else []) ++
        fields.flatMap (·.2.nodes) := by
  unfold nodes
  rw [fold, foldFields_eq, Layer.gather, List.flatMap_map]

theorem nodes_scalar (h : Head) : ∀ p ∈ scalars h, p.2.nodes = [] := by
  refine forall_scalar (P := fun e => e.nodes = []) (fun v => ?_) (fun _ _ => rfl) h
  cases v <;> rfl

theorem nodes_position (loc : Option Loc) : (position loc).flatMap (·.2.nodes) = [] := by
  cases loc <;> rfl

theorem nodes_slotData (f : Node → Estree) (s : Slot Node) :
    (slotData f s).nodes = s.children.flatMap fun c => (f c).nodes := by
  match s with
  | .one none => rfl
  | .one (some c) => simp [slotData, Slot.children]
  | .many cs =>
    rw [slotData, nodes_list, List.flatMap_map, Slot.children]
    induction cs with
    | nil => rfl
    | cons c cs ih =>
      rw [List.flatMap_cons, ih]
      cases c <;> rfl

theorem nodes_entries {h : Head} {es : List Estree} (hes : es.length = h.kind.fields.length)
    {rest : List (String × Estree)} (hrest : rest.flatMap (·.2.nodes) = []) :
    (Estree.object (entries h es ++ rest)).nodes =
      .object (entries h es ++ rest) :: es.flatMap nodes := by
  have hmember : ∀ m ∈ members h, (m.entry fun f => (slotOf h es f).getD .null).2.nodes =
      (m.field?.bind (slotOf h es)).toList.flatMap nodes := by
    refine forall_members (fun key data hscalar => nodes_scalar h _ hscalar) fun f _ => ?_
    rw [Member.entry, Member.field?, Option.bind_some]
    cases slotOf h es f with
    | none => rfl
    | some e => exact (List.flatMap_singleton nodes e).symm
  have hmembers : ((members h).map (·.entry fun f => (slotOf h es f).getD .null)).flatMap (·.2.nodes) =
      es.flatMap nodes := by
    calc ((members h).map (·.entry fun f => (slotOf h es f).getD .null)).flatMap (·.2.nodes)
        = (members h).flatMap fun m => (m.field?.bind (slotOf h es)).toList.flatMap nodes := by
          rw [List.flatMap_map]
          exact List.flatMap_congr hmember
      _ = es.flatMap nodes := by
          rw [← List.flatMap_assoc, ← List.filterMap_eq_flatMap_toList, slots_members hes]
  have hself : (Estree.object (entries h es ++ rest)).isNode = true := by
    simp [isNode, entries]
  have htype : (Estree.str (typeName h)).nodes = [] := rfl
  rw [nodes_object, if_pos hself]
  simp [entries, htype, hmembers, hrest]

end Estree

namespace Node

def Fits (n : Node) : Prop := n.slots.length = n.kind.fields.length

theorem fits_of_conforms {n : Node} (hn : n.Conforms) : n.Fits :=
  (List.Forall₂.length_eq hn).symm.trans n.head.length_demands

end Node

namespace Estree

def Renders (render : Node → Estree) (rest : Tag → Head → List (String × Estree)) : Prop :=
  ∀ t h ss, render (.mk t h ss) = .object (entries h (ss.map (slotData render)) ++ rest t h)

theorem renders_ofNode : Renders ofNode fun t _ => position t.loc := ofNode_mk

theorem renders_layout : Renders layout fun _ h => defaults (dataKind h) := layout_mk

theorem Renders.nodes {render : Node → Estree} {rest : Tag → Head → List (String × Estree)}
    (hrender : Renders render rest) (hrest : ∀ t h, (rest t h).flatMap (·.2.nodes) = []) (n : Node) :
    n.Every Fits → (render n).nodes = n.walk.map render := by
  induction n with
  | h t hd ss ih =>
    intro hn
    have hfits : (ss.map (slotData render)).length = hd.kind.fields.length := by
      rw [List.length_map]
      exact hn.self
    rw [walk_mk, List.map_cons, hrender, nodes_entries hfits (hrest t hd)]
    refine congrArg (_ :: ·) ?_
    calc (ss.map (slotData render)).flatMap Estree.nodes
        = (childrenOf ss).flatMap fun c => (render c).nodes := by
          rw [List.flatMap_map, childrenOf, List.flatMap_assoc]
          exact List.flatMap_congr fun s _ => nodes_slotData _ s
      _ = (childrenOf ss).flatMap fun c => c.walk.map render :=
          List.flatMap_congr fun c hc => ih c hc (hn.child hc)
      _ = ((childrenOf ss).flatMap walk).map render := List.map_flatMap.symm

end Estree

namespace Node

/-! Spelling along the walk. -/

def refusal : Node → Option Fault
  | .mk t (.foreign name) _ => some (.unsupported name t.loc)
  | .mk t (.literal (.foreign type)) _ => some (.unsupported ("Literal[" ++ type ++ "]") t.loc)
  | _ => none

def integer? : Node → Option Int
  | .mk _ (.literal (.int k)) _ => some k
  | _ => none

/-- A node of a kind of the model has a slot for every field, and an integer that it carries is
within the limit up to which all integers are doubles. -/
structure Sized (n : Node) : Prop where
  slots : n.kind.isForeign = false → n.slots.length = n.kind.fields.length
  integers : ∀ k ∈ n.integer?, k.natAbs ≤ Number.integerLimit

instance : DecidablePred Sized := fun n =>
  decidable_of_iff ((n.kind.isForeign = false → n.slots.length = n.kind.fields.length) ∧
    ∀ k ∈ n.integer?, k.natAbs ≤ Number.integerLimit) ⟨fun h => ⟨h.1, h.2⟩, fun h => ⟨h.1, h.2⟩⟩

theorem Sized.childless {t : Tag} {v : Value} {ss : List (Slot Node)}
    (h : (Node.mk t (.literal v) ss).Sized) : ss = [] :=
  List.length_eq_zero_iff.mp (h.slots rfl)

theorem Sized.isExact {t : Tag} {v : Value} {ss : List (Slot Node)}
    (h : (Node.mk t (.literal v) ss).Sized) (hv : v.isPrimitive = true) : v.isExact = true := by
  cases v with
  | number n =>
    cases n with
    | int k => exact decide_eq_true (h.integers k rfl)
    | float => rfl
  | «foreign» => cases hv
  | _ => rfl

theorem ofTree_walk (n : Node) : n.Every Sized → Estree.ofTree n =
    (n.walk.findSome? refusal).elim (.ok (Estree.ofNode n.spelled)) .error := by
  induction n with
  | h t hd ss ih =>
    intro hn
    rw [walk_mk, List.findSome?_cons, findSome?_flatMap]
    obtain ⟨v, rfl⟩ | hliteral := hd.literal_or
    · cases hn.self.childless
      rw [Estree.ofTree_literal, spelled_literal]
      cases hv : v.isPrimitive with
      | true =>
        rw [Spelling.literal_eq (hn.self.isExact hv)]
        cases v <;> first | rfl | cases hv
      | false =>
        cases v with
        | «foreign» type => rfl
        | _ => cases hv
    · cases hmodel : hd.kind.isForeign with
      | true =>
        cases hd with
        | «foreign» name => rfl
        | _ => cases hmodel
      | false =>
        have hself : refusal (.mk t hd ss) = none := by
          cases hd with
          | literal v => exact absurd rfl hliteral
          | «foreign» name => cases hmodel
          | _ => rfl
        rw [hself]
        exact Estree.ofTree_spelled hliteral hmodel (hn.self.slots hmodel) fun c hc =>
          ih c hc (hn.child hc)

/-! The walk of the spelled tree. -/

def written (n : Node) : List Node := if n.kind = .literal then n.spelled.walk else [n.spelled]

theorem walk_spelled (n : Node) : n.Every Sized → n.spelled.walk = n.walk.flatMap written := by
  induction n with
  | h t hd ss ih =>
    intro hn
    obtain ⟨v, rfl⟩ | hliteral := hd.literal_or
    · cases hn.self.childless
      have hwritten : (Node.mk t (.literal v) []).written = (spelled (.mk t (.literal v) [])).walk :=
        if_pos rfl
      rw [walk_mk, List.flatMap_cons, hwritten]
      simp
    · have hwritten : (Node.mk t hd ss).written = [spelled (.mk t hd ss)] := if_neg hliteral
      have hbelow : (childrenOf ss).flatMap (fun c => c.spelled.walk) =
          ((childrenOf ss).flatMap walk).flatMap written := by
        rw [List.flatMap_assoc]
        exact List.flatMap_congr fun c hc => ih c hc (hn.child hc)
      rw [walk_mk, List.flatMap_cons, hwritten, ← hbelow, spelled_mk hliteral, walk_mk,
        childrenOf_map_view, List.flatMap_map]
      rfl

theorem every_fits_of_written {m : Node} (h : Written m) : m.Every Fits := by
  induction h with
  | name | literal => exact every_mk.mpr ⟨rfl, everySlots_nil⟩
  | minus t _ ih => exact every_mk.mpr ⟨rfl, everySlots_one.mpr ⟨ih, everySlots_nil⟩⟩

def Accepted (n : Node) : Prop := n.Sized ∧ refusal n = none

theorem isPrimitive_of_refusal {n : Node} (h : refusal n = none) : n.head.isPrimitive = true := by
  obtain ⟨t, hd, ss⟩ := n
  cases hd with
  | literal v =>
    cases v with
    | «foreign» => cases h
    | _ => rfl
  | _ => rfl

theorem isForeign_of_refusal {n : Node} (h : refusal n = none) : n.kind.isForeign = false := by
  obtain ⟨t, hd, ss⟩ := n
  cases hd with
  | «foreign» => cases h
  | _ => rfl

theorem every_fits_spelled (n : Node) : n.Every Accepted → n.spelled.Every Fits := by
  induction n with
  | h t hd ss ih =>
    intro hn
    obtain ⟨v, rfl⟩ | hliteral := hd.literal_or
    · rw [spelled_literal]
      exact every_fits_of_written (Value.written_spelled (isPrimitive_of_refusal hn.self.2) t)
    · rw [spelled_mk hliteral]
      refine every_mk.mpr ⟨?_, every_map_view.mpr fun c hc => ih c hc (hn.child hc)⟩
      have hslots : ss.length = hd.kind.fields.length := hn.self.1.slots (isForeign_of_refusal hn.self.2)
      exact (List.length_map _).trans hslots

theorem Portable.refusal_eq {n : Node} (hn : n.Portable) : refusal n = none := by
  obtain ⟨t, h, ss⟩ := n
  have hexact : h.isExact = true := hn.values.self
  have hforeign : h.kind.isForeign = false := hn.root
  cases h with
  | «foreign» name => cases hforeign
  | literal v =>
    cases v with
    | «foreign» type => cases hexact
    | _ => rfl
  | _ => rfl

theorem Portable.accepted {n : Node} (hn : n.Portable) : n.Accepted := by
  refine ⟨⟨fun _ => fits_of_conforms hn.kinds.self, fun k hk => ?_⟩, hn.refusal_eq⟩
  obtain ⟨t, h, ss⟩ := n
  have hexact : h.isExact = true := hn.values.self
  unfold integer? at hk
  split at hk
  · rename_i heq
    cases heq
    cases hk
    exact of_decide_eq_true hexact
  · cases hk

theorem Portable.every_accepted (n : Node) : n.Portable → n.Every Accepted := by
  induction n with
  | h t hd ss ih =>
    intro hn
    exact every_mk.mpr ⟨hn.accepted, everySlots_iff.mpr fun c hc => ih c hc (hn.child hc)⟩

theorem ofTree_of_accepted {n : Node} (hn : n.Every Accepted) :
    Estree.ofTree n = .ok (Estree.ofNode n.spelled) := by
  have hnone : n.walk.findSome? refusal = none :=
    List.findSome?_eq_none_iff.mpr fun c hc => (hn c hc).2
  rw [ofTree_walk n (hn.mono fun c hc => hc.1), hnone]
  rfl

end Node

/-! The objects of one node. -/

theorem Number.magnitude_cases (n : Number) (t : Tag) :
    (∃ name, n.magnitude t = .identifier t name) ∨ ∃ v, n.magnitude t = .literal t v := by
  unfold Number.magnitude
  split
  · exact .inr ⟨_, rfl⟩
  · split
    · exact .inl ⟨_, rfl⟩
    · split
      · split <;> exact .inr ⟨_, rfl⟩
      · exact .inr ⟨_, rfl⟩

theorem Value.spelled_cases (v : Value) (t : Tag) :
    (∃ name, v.spelled t = .identifier t name) ∨ (∃ w, v.spelled t = .literal t w) ∨
      ∃ x, v = .number x ∧ x.isNaN = false ∧ Spelling.isNegative x = true ∧
        v.spelled t = .unaryExpression t "-" (x.neg.magnitude (.fresh none)) := by
  cases v with
  | undefined => exact .inl ⟨_, rfl⟩
  | null | bool | str | «foreign» => exact .inr (.inl ⟨_, rfl⟩)
  | number x =>
    cases hnumber : x.isNaN with
    | true => exact .inl ⟨"NaN", if_pos hnumber⟩
    | false =>
      have hspelled : (Value.number x).spelled t = x.spelled t := if_neg (by simp [hnumber])
      rw [hspelled, Number.spelled]
      cases hsign : Spelling.isNegative x with
      | true => exact .inr (.inr ⟨x, rfl, hnumber, hsign, if_pos rfl⟩)
      | false =>
        rw [if_neg Bool.false_ne_true]
        exact (x.magnitude_cases t).imp id .inl

namespace Estree

/-- The objects that stand for one node: the data that it is exported as, and for a negative number
also the data under the minus. -/
inductive Rendered : Node → List Estree → Prop
  | node {t : Tag} {h : Head} {ss : List (Slot Node)} {d : Estree} : h.kind ≠ .literal →
    ofTree (.mk t h ss) = .ok d → d.get "type" = .str (typeName h) → Rendered (.mk t h ss) [d]
  | literal {t : Tag} {v : Value} {d : Estree} : ofTree (.literal t v) = .ok d →
    d.get "type" = .str "Literal" ∨ d.get "type" = .str "Identifier" → Rendered (.literal t v) [d]
  | lowered {t : Tag} {x : Number} {d a : Estree} : Spelling.isNegative x = true →
    ofTree (.literal t (.number x)) = .ok d → d.get "type" = .str "UnaryExpression" →
    d.get "operator" = .str "-" → d.get "argument" = a →
    ofTree (.literal (.fresh none) (.number x.neg)) = .ok a →
    Rendered (.literal t (.number x)) [d, a]

theorem type_ofNode (n : Node) : (ofNode n).get "type" = .str (typeName n.head) := by
  obtain ⟨t, h, ss⟩ := n
  rw [ofNode_mk, type_entries]
  rfl

theorem rendered_written {n : Node} (hn : n.Every Accepted) : Rendered n (n.written.map ofNode) := by
  have hown := ofTree_of_accepted hn
  obtain ⟨t, hd, ss⟩ := n
  obtain ⟨v, rfl⟩ | hliteral := hd.literal_or
  · cases hn.self.1.childless
    have hwritten : (Node.mk t (.literal v) []).written = (v.spelled t).walk := if_pos rfl
    rw [spelled_literal] at hown
    rw [hwritten]
    obtain ⟨name, hname⟩ | ⟨w, hw⟩ | ⟨x, rfl, hnumber, hsign, hx⟩ := v.spelled_cases t
    · rw [hname] at hown ⊢
      exact .literal hown (.inr (type_ofNode _))
    · rw [hw] at hown ⊢
      exact .literal hown (.inl (type_ofNode _))
    · rw [hx] at hown ⊢
      obtain ⟨hnumber', hsign'⟩ := Number.neg_of_isNegative hnumber hsign
      have hneg : (Value.number x.neg).spelled (.fresh none) = x.neg.magnitude (.fresh none) := by
        simp [Value.spelled, hnumber', Number.spelled, hsign']
      have haccepted : (Node.literal (.fresh none) (.number x.neg)).Every Accepted := by
        refine every_mk.mpr ⟨⟨⟨fun _ => rfl, ?_⟩, rfl⟩, everySlots_nil⟩
        intro k hk
        cases x with
        | float => cases hk
        | int m =>
          cases hk
          rw [Int.natAbs_neg]
          exact hn.self.1.integers m rfl
      have hargument := ofTree_of_accepted haccepted
      rw [spelled_literal, hneg] at hargument
      have hwalk : (x.neg.magnitude (.fresh none)).walk = [x.neg.magnitude (.fresh none)] := by
        obtain ⟨name, hm⟩ | ⟨w, hm⟩ := x.neg.magnitude_cases (.fresh none) <;> rw [hm] <;> rfl
      rw [walk, walkSlots, hwalk]
      exact .lowered hsign hown (type_ofNode _) rfl rfl hargument
  · have hwritten : (Node.mk t hd ss).written = [(Node.mk t hd ss).spelled] := if_neg hliteral
    have htype := type_ofNode (Node.mk t hd ss).spelled
    rw [spelled_mk hliteral] at htype
    rw [hwritten]
    refine .node hliteral hown ?_
    rw [spelled_mk hliteral]
    exact htype

variable {tree : Node}

/-- Export refuses the first node of the walk that is outside the model, with its kind and position.
Where there is none the objects of the data are those of the nodes of the walk, in its order. -/
theorem ofTree_covers_walk (htree : tree.Every Sized) :
    (∀ f, tree.walk.findSome? refusal = some f → ofTree tree = .error f) ∧
    (tree.walk.findSome? refusal = none → ∃ d groups, ofTree tree = .ok d ∧
      List.Forall₂ Rendered tree.walk groups ∧ d.nodes = groups.flatten) := by
  refine ⟨fun f hf => ?_, fun hnone => ?_⟩
  · rw [ofTree_walk tree htree, hf]
    rfl
  · have haccepted : tree.Every Accepted := fun c hc =>
      ⟨htree c hc, List.findSome?_eq_none_iff.mp hnone c hc⟩
    refine ⟨ofNode tree.spelled, tree.walk.map fun c => c.written.map ofNode,
      ofTree_of_accepted haccepted, ?_, ?_⟩
    · rw [List.forall₂_map_right_iff, List.forall₂_same]
      exact fun c hc => rendered_written (haccepted.below hc)
    · have hnodes := renders_ofNode.nodes (fun t _ => nodes_position t.loc) _
        (every_fits_spelled tree haccepted)
      rw [hnodes, walk_spelled tree htree, List.map_flatMap]
      rfl

/-- `[-1, , …]` with a node of one's own in the last place. -/
def signedEntry (c : Node) : Node :=
  .program (.fresh none) [some (.expressionStatement (.fresh none)
    (.arrayExpression (.fresh none) [some (.literal (.fresh none) (.int (-1))), none, some c]))]

theorem signedEntry_covers_walk :
    ofTree (signedEntry (.mk (.fresh (some ⟨4, 2⟩)) (.foreign "Mystery") [])) =
      .error (.unsupported "Mystery" (some ⟨4, 2⟩)) ∧
    ∃ d groups, ofTree (signedEntry (.identifier (.fresh none) "x")) = .ok d ∧
      List.Forall₂ Rendered (signedEntry (.identifier (.fresh none) "x")).walk groups ∧
      d.nodes = groups.flatten :=
  ⟨(ofTree_covers_walk (by decide +kernel)).1 _ rfl,
    (ofTree_covers_walk (by decide +kernel)).2 rfl⟩

end Estree
end Unravel
