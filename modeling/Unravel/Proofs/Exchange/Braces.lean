import Unravel.Proofs.Exchange.Dangling

/-! Exported statements: no consequent dangles in them, and apart from the braces that see to it they
are those of the tree. -/

namespace Unravel

open Node

/-! Trees that have a spelling. -/

namespace Spelling

variable {t : Tag} {m : Node}

theorem magnitude_ok {n : Number} (h : magnitude t n = .ok m) : m = n.magnitude t := by
  cases n with
  | int n =>
    obtain ⟨-, -, h⟩ := bind_eq_ok.mp h
    cases h
    rfl
  | float x =>
    rw [magnitude_eq (Number.fits_float x)] at h
    cases h
    rfl

theorem signed_ok {n : Number} (h : literal.signed t n = .ok m) : m = n.spelled t := by
  unfold literal.signed at h
  unfold Number.spelled
  split at h
  · rename_i hn
    obtain ⟨m', hm', h⟩ := bind_eq_ok.mp h
    cases h
    rw [if_pos hn, magnitude_ok hm']
  · rename_i hn
    rw [if_neg hn, magnitude_ok h]

theorem literal_ok {v : Value} (h : literal t v = .ok m) : m = v.spelled t ∧ v.isPrimitive = true := by
  cases v with
  | «foreign» => cases h
  | undefined | null | bool | str =>
    cases h
    exact ⟨rfl, rfl⟩
  | number n =>
    refine ⟨?_, rfl⟩
    cases n with
    | int n => exact signed_ok h
    | float x =>
      rw [Value.spelled]
      by_cases hx : x.isNaN = true
      · rw [literal, if_pos hx] at h
        cases h
        exact (if_pos hx).symm
      · rw [literal, if_neg hx] at h
        exact (signed_ok h).trans (if_neg hx).symm

end Spelling

namespace Estree

def fault? : Except Fault Estree → Option Fault
  | .ok _ => none
  | .error f => some f

theorem ofTree_ok (n : Node) : n.WellKinded → ∀ d, ofTree n = .ok d →
    d = ofNode n.spelled ∧ n.kind.isForeign = false ∧ n.Every fun c => c.head.isPrimitive = true := by
  induction n with
  | h t hd ss ih =>
    intro hn d h
    have hchild (c : Node) (hc : c ∈ childrenOf ss) :
        ofTree c = (fault? (ofTree c)).elim (.ok (ofNode c.spelled)) .error := by
      cases hd : ofTree c with
      | error f => rfl
      | ok d =>
        obtain ⟨rfl, -⟩ := ih c hc (hn.child hc) d hd
        rfl
    obtain ⟨v, rfl⟩ | hliteral := hd.literal_or
    · rw [ofTree_literal] at h
      obtain ⟨m, hm, h⟩ := bind_eq_ok.mp h
      cases h
      obtain ⟨rfl, hv⟩ := Spelling.literal_ok hm
      cases hn.self
      exact ⟨by rw [spelled_literal], rfl, every_mk.mpr ⟨hv, everySlots_nil⟩⟩
    · have hself : hd.kind.isForeign = false ∧ hd.isPrimitive = true := by
        cases hd with
        | literal v => exact absurd rfl hliteral
        | «foreign» name => cases h
        | _ => exact ⟨rfl, rfl⟩
      obtain ⟨hmodel, hprimitive⟩ := hself
      have hslots : ss.length = hd.kind.fields.length := fits_of_conforms hn.self
      rw [ofTree_spelled hliteral hmodel hslots hchild] at h
      cases hfault : (childrenOf ss).findSome? fun c => fault? (ofTree c) with
      | some f =>
        rw [hfault] at h
        cases h
      | none =>
        rw [hfault] at h
        refine ⟨(Except.ok.inj h).symm, hmodel, every_mk.mpr ⟨hprimitive, everySlots_iff.mpr fun c hc => ?_⟩⟩
        have hspelled : ofTree c = .ok (ofNode c.spelled) := by
          rw [hchild c hc, List.findSome?_eq_none_iff.mp hfault c hc]
          rfl
        exact (ih c hc (hn.child hc) _ hspelled).2.2

end Estree

namespace Spelling

/-! No consequent of a tree with braces captures an `else`. -/

theorem not_captures_guard (h : Head) (ss : List (Slot Node)) (test : Slot Node) (c a : Node) :
    ¬ Captures h (guard h ss) test c a := by
  obtain ⟨test', c', a', -, hguard⟩ | ⟨hnone, hguard⟩ := guard_cases h ss
  · rw [hguard]
    rintro ⟨-, hslots, hopen⟩
    cases hslots
    cases hopen
  · rw [hguard]
    exact hnone test c a

theorem not_captures_brace (n : Node) :
    (brace n).Every fun m => ∀ test c a, ¬ Captures m.head m.slots test c a := by
  induction n with
  | h t hd ss ih =>
    rw [brace_mk]
    refine every_mk.mpr ⟨not_captures_guard hd _, everySlots_guard (every_map_view.mpr ih) ?_⟩
    rintro _ _ _ - _ _ _ ⟨hhead, -⟩
    cases hhead

end Spelling

/-! Where statements of a well-kinded tree end. -/

inductive Node.Ending : Node → Prop
  | openIf (t : Tag) (test : Slot Node) (c : Node) :
    Ending (.mk t .ifStatement [test, .one (some c), .one none])
  | closedIf (t : Tag) (test : Slot Node) (c a : Node) :
    Ending (.mk t .ifStatement [test, .one (some c), .one (some a)])
  | body (t : Tag) {h : Head} (before : List (Slot Node)) (body : Node) : h.kind ∈ Estree.bodied →
    h.kind.fields[before.length]? = some .body →
    Spelling.endsOpen (.mk t h (before ++ [.one (some body)])) = Spelling.endsOpen body →
    Ending (.mk t h (before ++ [.one (some body)]))
  | plain (t : Tag) {h : Head} (ss : List (Slot Node)) : h.kind ∉ .ifStatement :: Estree.bodied →
    Spelling.endsOpen (.mk t h ss) = false → Ending (.mk t h ss)

theorem Node.Conforms.ending {n : Node} (hn : n.Conforms) : n.Ending := by
  obtain ⟨t, h, ss⟩ := n
  cases h with
  | ifStatement =>
    obtain _ | ⟨-, _ | ⟨hconsequent, _ | ⟨halternate, _ | _⟩⟩⟩ := hn
    obtain ⟨c, rfl, -⟩ := exists_of_demand hconsequent
    rcases maybe_cases halternate with rfl | ⟨a, rfl⟩
    · exact .openIf t _ c
    · exact .closedIf t _ c a
  | whileStatement | labeledStatement =>
    obtain _ | ⟨-, _ | ⟨hbody, _ | _⟩⟩ := hn
    obtain ⟨body, rfl, -⟩ := exists_of_demand hbody
    exact .body t [_] body (by decide) rfl rfl
  | forStatement =>
    obtain _ | ⟨-, _ | ⟨-, _ | ⟨-, _ | ⟨hbody, _ | _⟩⟩⟩⟩ := hn
    obtain ⟨body, rfl, -⟩ := exists_of_demand hbody
    exact .body t [_, _, _] body (by decide) rfl rfl
  | forInStatement =>
    obtain _ | ⟨-, _ | ⟨-, _ | ⟨hbody, _ | _⟩⟩⟩ := hn
    obtain ⟨body, rfl, -⟩ := exists_of_demand hbody
    exact .body t [_, _] body (by decide) rfl rfl
  | _ => exact .plain t ss (by simp [Head.kind, Estree.bodied]) rfl

namespace Estree

section
variable {render : Node → Estree} {rest : Tag → Head → List (String × Estree)}
  (hrender : Renders render rest)
include hrender

theorem Renders.get {t : Tag} {h : Head} {ss : List (Slot Node)} {i : Nat} {f : Field} {s : Slot Node}
    (hf : h.kind.fields[i]? = some f) (hs : ss[i]? = some s) :
    (render (.mk t h ss)).get f.name = slotData render s := by
  rw [hrender]
  refine get_field hf ?_ _
  rw [List.getElem?_map, hs]
  rfl

theorem Renders.kindOf (t : Tag) (h : Head) (ss : List (Slot Node)) :
    kindOf (render (.mk t h ss)) = dataKind h := by
  rw [hrender, kindOf_entries]

theorem Renders.ne_null (n : Node) : render n ≠ .null := by
  obtain ⟨t, h, ss⟩ := n
  rw [hrender]
  exact fun heq => nomatch heq

theorem Renders.kindOf_eq {n : Node} (hn : n.kind.isForeign = false) {k : Kind}
    (hk : k ∈ .ifStatement :: bodied) : Estree.kindOf (render n) = k ↔ n.kind = k := by
  obtain ⟨t, h, ss⟩ := n
  have hforeign : h.kind.isForeign = false := hn
  rw [hrender.kindOf]
  obtain ⟨-, hkind⟩ | ⟨pattern, flags, rfl, hkind⟩ := dataKind_eq hforeign
  · rw [hkind]
    rfl
  · rw [hkind]
    constructor
    · rintro rfl
      exact absurd hk (by decide)
    · rintro rfl
      exact absurd hk (by simp [Node.kind, Node.head, Head.kind, bodied])

theorem Renders.alternate_none {t : Tag} {test consequent : Slot Node} :
    (render (.mk t .ifStatement [test, consequent, .one none])).get "alternate" = .null :=
  have hget : (render (.mk t .ifStatement [test, consequent, .one none])).get "alternate" =
    slotData render (.one none) := hrender.get (i := 2) (f := .alternate) rfl rfl
  hget

theorem Renders.alternate_some {t : Tag} {test consequent : Slot Node} {a : Node} :
    (render (.mk t .ifStatement [test, consequent, .one (some a)])).get "alternate" = render a :=
  have hget : (render (.mk t .ifStatement [test, consequent, .one (some a)])).get "alternate" =
    slotData render (.one (some a)) := hrender.get (i := 2) (f := .alternate) rfl rfl
  hget

theorem Renders.consequent {t : Tag} {test alternate : Slot Node} {c : Node} :
    (render (.mk t .ifStatement [test, .one (some c), alternate])).get "consequent" = render c :=
  have hget : (render (.mk t .ifStatement [test, .one (some c), alternate])).get "consequent" =
    slotData render (.one (some c)) := hrender.get (i := 1) (f := .consequent) rfl rfl
  hget

theorem Renders.body {t : Tag} {h : Head} {before : List (Slot Node)} {c : Node}
    (hforeign : h.kind.isForeign = false) (hbodied : h.kind ∈ bodied)
    (hfield : h.kind.fields[before.length]? = some .body) :
    Estree.kindOf (render (.mk t h (before ++ [.one (some c)]))) = h.kind ∧
      (render (.mk t h (before ++ [.one (some c)]))).get "body" = render c := by
  have hget : (render (.mk t h (before ++ [.one (some c)]))).get "body" =
    slotData render (.one (some c)) := hrender.get (f := .body) hfield List.getElem?_concat_length
  have hmodel : (Node.mk t h (before ++ [.one (some c)])).kind.isForeign = false := hforeign
  exact ⟨(hrender.kindOf_eq hmodel (List.mem_cons_of_mem _ hbodied)).mpr rfl, hget⟩

theorem Renders.kindOf_ifStatement {t : Tag} {ss : List (Slot Node)} :
    Estree.kindOf (render (.mk t .ifStatement ss)) = .ifStatement :=
  (hrender.kindOf_eq rfl (List.mem_cons_self ..)).mpr rfl

theorem Renders.trails {n : Node} (hn : n.Conforms) (hforeign : n.kind.isForeign = false) {e : Estree}
    (h : Trails (render n) e) : ∃ c ∈ childrenOf n.slots, e = render c ∧
      (Spelling.endsOpen c = true → Spelling.endsOpen n = true) := by
  cases hn.ending with
  | openIf t test c =>
    cases h with
    | alternate _ halternate => exact absurd hrender.alternate_none halternate
    | consequent => exact ⟨c, by simp [childrenOf, Node.slots], hrender.consequent, fun _ => rfl⟩
    | body hkind =>
      rw [hrender.kindOf_ifStatement] at hkind
      exact absurd hkind (by decide)
  | closedIf t test c a =>
    cases h with
    | alternate => exact ⟨a, by simp [childrenOf, Node.slots], hrender.alternate_some, id⟩
    | consequent hopen =>
      have halternate := hopen.2
      rw [hrender.alternate_some] at halternate
      exact absurd halternate (hrender.ne_null a)
    | body hkind =>
      rw [hrender.kindOf_ifStatement] at hkind
      exact absurd hkind (by decide)
  | @body t hd before c hbodied hfield hends =>
    obtain ⟨hkind, hget⟩ := hrender.body (t := t) (c := c) hforeign hbodied hfield
    have hne : hd.kind ≠ .ifStatement := fun heq => by
      rw [heq] at hbodied
      exact absurd hbodied (by decide)
    cases h with
    | alternate hif => exact absurd (hkind.symm.trans hif) hne
    | consequent hopen => exact absurd (hkind.symm.trans hopen.1) hne
    | body => exact ⟨c, by simp [childrenOf, Node.slots], hget, fun hc => hends.trans hc⟩
  | @plain t hd ss hplain _ =>
    have hkind {k : Kind} (hk : k ∈ .ifStatement :: bodied) :
        Estree.kindOf (render (.mk t hd ss)) ≠ k := fun heq => by
      have hhead : hd.kind = k := (hrender.kindOf_eq hforeign hk).mp heq
      exact hplain (hhead ▸ hk)
    cases h with
    | alternate hif => exact absurd hif (hkind (List.mem_cons_self ..))
    | consequent hopen => exact absurd hopen.1 (hkind (List.mem_cons_self ..))
    | body hbodied => exact absurd rfl (hkind (List.mem_cons_of_mem _ hbodied))

theorem Renders.endsOpen_of_openIf {n : Node} (hn : n.Conforms) (hforeign : n.kind.isForeign = false)
    (h : OpenIf (render n)) : Spelling.endsOpen n = true := by
  obtain ⟨hif, halternate⟩ := h
  have hkind := (hrender.kindOf_eq hforeign (List.mem_cons_self ..)).mp hif
  cases hn.ending with
  | openIf => rfl
  | closedIf t test c a =>
    rw [hrender.alternate_some] at halternate
    exact absurd halternate (hrender.ne_null a)
  | @body t hd before c hbodied =>
    have hhead : hd.kind = .ifStatement := hkind
    rw [hhead] at hbodied
    exact absurd hbodied (by decide)
  | @plain t hd ss hplain =>
    have hhead : hd.kind = .ifStatement := hkind
    exact absurd (hhead ▸ List.mem_cons_self ..) hplain

theorem Renders.endsOpen_iff {n : Node} (hn : n.WellKinded) (hforeign : n.kind.isForeign = false) :
    EndsOpen (render n) ↔ Spelling.endsOpen n = true := by
  constructor
  · rintro ⟨inner, hpath, hopen⟩
    -- along the path every piece of data is that of a node
    generalize he : render n = e at hpath
    induction hpath using Relation.ReflTransGen.head_induction_on generalizing n with
    | refl =>
      rw [← he] at hopen
      exact hrender.endsOpen_of_openIf hn.self hforeign hopen
    | head hstep _ ih =>
      rw [← he] at hstep
      obtain ⟨c, hc, hlast, hends⟩ := hrender.trails hn.self hforeign hstep
      obtain ⟨t, h, ss⟩ := n
      exact hends (ih (hn.child hc) (isForeign_of_child hn.self hc) hlast.symm)
  · intro hopen
    induction n with
    | h t hd ss ih =>
      cases hn.self.ending with
      | openIf _ test c =>
        exact OpenIf.endsOpen ⟨hrender.kindOf_ifStatement, hrender.alternate_none⟩
      | closedIf _ test c a =>
        have hmem : a ∈ childrenOf [test, .one (some c), .one (some a)] := by simp [childrenOf]
        have halternate : (render (.mk t .ifStatement [test, .one (some c), .one (some a)])).get
            "alternate" = render a := hrender.alternate_some
        have hlast := Trails.alternate hrender.kindOf_ifStatement (halternate ▸ hrender.ne_null a)
        rw [halternate] at hlast
        exact .trans hlast (ih a hmem (hn.child hmem) (isForeign_of_child hn.self hmem) hopen)
      | body _ before c hbodied hfield hends =>
        have hmem : c ∈ childrenOf (before ++ [.one (some c)]) := by simp [childrenOf]
        obtain ⟨hkind, hget⟩ := hrender.body (t := t) (c := c) hforeign hbodied hfield
        have hlast := Trails.body (hkind.symm ▸ hbodied)
        rw [hget] at hlast
        exact .trans hlast (ih c hmem (hn.child hmem) (isForeign_of_child hn.self hmem) (hends ▸ hopen))
      | plain _ _ _ hclosed =>
        rw [hclosed] at hopen
        cases hopen

/-- The data of a node dangles just where its consequent would capture the `else`. -/
theorem Renders.dangling_iff {t : Tag} {h : Head} {ss : List (Slot Node)}
    (hn : (Node.mk t h ss).WellKinded) (hforeign : h.kind.isForeign = false) :
    Dangling (render (.mk t h ss)) ↔ ∃ test c a, Spelling.Captures h ss test c a := by
  constructor
  · rintro ⟨hif, halternate, hends⟩
    have hkind : h.kind = .ifStatement :=
      (hrender.kindOf_eq (n := .mk t h ss) hforeign (List.mem_cons_self ..)).mp hif
    cases hn.self.ending with
    | openIf => exact absurd hrender.alternate_none halternate
    | closedIf _ test c a =>
      have hmem : c ∈ childrenOf [test, .one (some c), .one (some a)] := by simp [childrenOf]
      rw [hrender.consequent,
        hrender.endsOpen_iff (hn.child hmem) (isForeign_of_child hn.self hmem)] at hends
      exact ⟨test, c, a, rfl, rfl, hends⟩
    | body _ before c hbodied =>
      rw [hkind] at hbodied
      exact absurd hbodied (by decide)
    | plain _ _ hplain => exact absurd (hkind ▸ List.mem_cons_self ..) hplain
  · rintro ⟨test, c, a, rfl, rfl, hopen⟩
    have hmem : c ∈ childrenOf [test, .one (some c), .one (some a)] := by simp [childrenOf]
    refine ⟨hrender.kindOf_ifStatement, ?_, ?_⟩
    · rw [hrender.alternate_some]
      exact hrender.ne_null a
    · rw [hrender.consequent, hrender.endsOpen_iff (hn.child hmem) (isForeign_of_child hn.self hmem)]
      exact hopen

end

/-! What export to a parser's form changes. -/

mutual

/-- The data in the form that a parser would give: positions are left out, the fields that a parser
sets are added, and a dangling consequent has braces around it. All else is the same. -/
inductive Exported : Estree → Estree → Prop
  | scalar {e : Estree} : e.isScalar = true → Exported e e
  | list {items items' : List Estree} : ExportedItems items items' →
    Exported (.list items) (.list items')
  | object {fields fields' : List (String × Estree)} : ¬ Dangling (.object fields) →
    ExportedFields (fields.filter (·.1 != "loc")) fields' →
    Exported (.object fields) (.object (fields' ++ defaults (kindOf (.object fields))))
  | dangling {fields fields' : List (String × Estree)} : Dangling (.object fields) →
    ExportedFields (fields.filter (·.1 != "loc")) fields' →
    Exported (.object fields)
      (.object (fields'.map (embrace true) ++ defaults (kindOf (.object fields))))

inductive ExportedItems : List Estree → List Estree → Prop
  | nil : ExportedItems [] []
  | cons {e e' : Estree} {items items' : List Estree} : Exported e e' → ExportedItems items items' →
    ExportedItems (e :: items) (e' :: items')

inductive ExportedFields : List (String × Estree) → List (String × Estree) → Prop
  | nil : ExportedFields [] []
  | cons {key : String} {e e' : Estree} {fields fields' : List (String × Estree)} : Exported e e' →
    ExportedFields fields fields' → ExportedFields ((key, e) :: fields) ((key, e') :: fields')

end

theorem exportedItems_of_forall₂ {es es' : List Estree} (h : List.Forall₂ Exported es es') :
    ExportedItems es es' := by
  induction h with
  | nil => exact .nil
  | cons hfirst _ ih => exact .cons hfirst ih

theorem exportedFields_of_forall₂ {ps qs : List (String × Estree)}
    (h : List.Forall₂ (Paired Exported) ps qs) : ExportedFields ps qs := by
  induction h with
  | nil => exact .nil
  | @cons p q ps qs hfirst _ ih =>
    obtain ⟨key, e⟩ := p
    obtain ⟨rfl, hdata⟩ := hfirst
    exact .cons hdata ih

theorem exported_carries : Carries Exported where
  value v := by cases v <;> exact .scalar rfl
  regex pattern flags := by
    have hdangling : ¬ Dangling (.object [("pattern", .str pattern), ("flags", .str flags)]) := by
      rintro ⟨hif, -⟩
      cases hif
    exact .object hdangling (.cons (.scalar rfl) (.cons (.scalar rfl) .nil))
  list h := .list (exportedItems_of_forall₂ h)

theorem exported_ofNode (n : Node) : n.WellKinded → n.kind.isForeign = false →
    Exported (ofNode n) (layout (Spelling.brace n)) := by
  induction n with
  | h t hd ss ih =>
    intro hn hforeign
    have hfields := exportedFields_of_forall₂ (exported_carries.entries hd fun c hc =>
      ih c hc (hn.child hc) (isForeign_of_child hn.self hc))
    rw [← filter_entries hd _ t.loc] at hfields
    have hkind := kindOf_entries hd (ss.map (slotData ofNode)) (position t.loc)
    have hdangling := renders_ofNode.dangling_iff hn hforeign
    rw [ofNode_mk] at hdangling ⊢
    obtain ⟨hcaptures, hlayout⟩ | ⟨hnone, hlayout⟩ := layout_brace t hd ss
    · rw [hlayout, ← hkind]
      exact .dangling (hdangling.mpr hcaptures) hfields
    · rw [hlayout, map_embrace_false, ← hkind]
      refine .object (fun hd => ?_) hfields
      obtain ⟨test, c, a, hcapture⟩ := hdangling.mp hd
      exact hnone test c a hcapture

theorem every_isForeign (n : Node) : n.WellKinded → n.kind.isForeign = false →
    n.Every fun c => c.kind.isForeign = false := by
  induction n with
  | h t hd ss ih =>
    intro hn hforeign
    refine every_mk.mpr ⟨hforeign, everySlots_iff.mpr fun c hc => ?_⟩
    exact ih c hc (hn.child hc) (isForeign_of_child hn.self hc)

theorem nodes_defaults (k : Kind) : (defaults k).flatMap (·.2.nodes) = [] := by
  cases k <;> rfl

theorem not_dangling_layout {n : Node} (hn : n.WellKinded) (hforeign : n.kind.isForeign = false) :
    ∀ e ∈ (layout (Spelling.brace n)).nodes, ¬ Dangling e := by
  have hbraced := Spelling.wellKinded_brace n hn
  rw [renders_layout.nodes (fun _ h => nodes_defaults (dataKind h)) _
    (hbraced.mono fun c => fits_of_conforms)]
  intro e he hdangling
  obtain ⟨m, hm, rfl⟩ := List.mem_map.mp he
  have hmodel : m.kind.isForeign = false :=
    every_isForeign _ hbraced (Spelling.kind_brace n ▸ hforeign) m hm
  obtain ⟨t, h, ss⟩ := m
  obtain ⟨test, c, a, hcaptures⟩ := (renders_layout.dangling_iff (hbraced.below hm) hmodel).mp hdangling
  exact Spelling.not_captures_brace n _ hm test c a hcaptures

variable {tree : Node} {d : Estree}

/-- Where the export of a tree succeeds no `else` of the printed statements changes its owner. -/
theorem rebuild_keeps_else (htree : tree.WellKinded) (hd : ofTree tree = .ok d) :
    ∃ d', rebuild d = .ok d' ∧ (∀ e ∈ d'.nodes, ¬ Dangling e) ∧
      (∀ e ∈ d'.nodes, ∀ rest : List Nesting.Token, rest.head? ≠ some .else →
        Nesting.parse (e.nesting.tokens ++ rest) = some (e.nesting, rest)) ∧
      Exported d d' := by
  obtain ⟨rfl, hforeign, hprimitive⟩ := ofTree_ok tree htree d hd
  have hspelled := wellKinded_spelled tree htree hprimitive
  have hmodel := isForeign_spelled hforeign hprimitive.self
  have hclear := not_dangling_layout hspelled hmodel
  refine ⟨layout (Spelling.brace tree.spelled), rebuild_ofNode _ hspelled hmodel, hclear, ?_,
    exported_ofNode _ hspelled hmodel⟩
  exact fun e he rest hrest => parse_nesting (fun c hc => hclear c (nodes_subset_nodes _ e he hc)) hrest

/-- An `if` whose consequent `while (b) if (c) ;` would take the `else` that follows it. -/
def capturingLoop : Node :=
  let name (x : String) : Option Node := some (.identifier (.fresh none) x)
  let empty : Option Node := some (.emptyStatement (.fresh none))
  .mk (.fresh (some ⟨1, 0⟩)) .ifStatement
    [.one (name "a"),
      .one (some (.mk (.fresh none) .whileStatement [.one (name "b"),
        .one (some (.mk (.fresh none) .ifStatement [.one (name "c"), .one empty, .one none]))])),
      .one empty]

theorem rebuild_keeps_else_capturingLoop :
    Dangling (ofNode capturingLoop) ∧ ∃ d', rebuild (ofNode capturingLoop) = .ok d' ∧
      (∀ e ∈ d'.nodes, ¬ Dangling e) ∧
      (∀ e ∈ d'.nodes, ∀ rest : List Nesting.Token, rest.head? ≠ some .else →
        Nesting.parse (e.nesting.tokens ++ rest) = some (e.nesting, rest)) ∧
      Exported (ofNode capturingLoop) d' := by
  have hkinds : capturingLoop.WellKinded := by decide +kernel
  exact ⟨(renders_ofNode.dangling_iff hkinds rfl).mpr ⟨_, _, _, rfl, rfl, rfl⟩,
    rebuild_keeps_else hkinds rfl⟩

end Estree
end Unravel
