import Unravel.Estree.Import
import Unravel.Proofs.Exchange.Cover

/-! Reading undoes writing: the data of a tree, in the form that a parser would give, reads as the
normal form of the tree. -/

namespace Unravel.Estree

open Node

theorem read_object (fields : List (String × Estree)) :
    read (.object fields) =
      ⟨.object fields, readNode (.object fields) (fields.map fun p => (p.1, read p.2)), []⟩ := by
  unfold read
  rw [fold, foldFields_eq]
  simp only [List.map_map, Function.comp_def]

theorem read_list (items : List Estree) :
    read (.list items) =
      { missing with data := .list items, items := items.map fun e => (e, toNode e) } := by
  unfold toNode read
  rw [fold, foldItems_eq]
  simp only [List.map_map, Function.comp_def]

theorem readNode_eq (e : Estree) (fields : List (String × Piece)) :
    readNode e fields = do
      let head ← toHead e (kindOf e)
      let slots ← (readings (kindOf e)).mapM fun p =>
        readSlot (((fields.find? (·.1 == p.1.name)).map (·.2)).getD missing) p.2
      return .mk ⟨none, loc? e⟩ head slots := rfl

/-! The scalars of a node. -/

theorem ofDouble_of_isPlain {x : Float} (hx : (Value.float x).IsPlain) :
    Number.ofDouble x = .float x := by
  have hspelled := hx.spelled (.fresh none)
  have hmagnitude : (Number.float x).magnitude (.fresh none) = .literal (.fresh none) (.float x) := by
    rw [Value.spelled] at hspelled
    split at hspelled
    · cases hspelled
    · rw [Number.spelled] at hspelled
      split at hspelled
      · cases hspelled
      · exact hspelled
  unfold Number.ofDouble
  cases hint : Double.toInt? x with
  | none => rfl
  | some k =>
    refine if_neg fun hlimit => ?_
    rw [Number.magnitude] at hmagnitude
    split at hmagnitude
    · cases hmagnitude
    · simp only [hint, if_pos (Nat.le_of_lt hlimit)] at hmagnitude
      cases hmagnitude

theorem toValue_ofValue {v : Value} (hv : v.IsPlain) : toValue (ofValue v) = v := by
  cases v with
  | undefined => cases hv.spelled (.fresh none)
  | null | bool | str => rfl
  | «foreign» => cases hv.primitive
  | number n =>
    cases n with
    | int n => rfl
    | float x => exact congrArg Value.number (ofDouble_of_isPlain hv)

theorem toHead_entries {h : Head} (hforeign : h.kind.isForeign = false)
    (hplain : ∀ v, h = .literal v → v.IsPlain) (es : List Estree) :
    toHead (.object (entries h es ++ defaults (dataKind h))) (dataKind h) = .ok h := by
  have hget : ∀ key, h.kind.fields.all (·.name != key) = true →
      (Estree.object (entries h es ++ defaults (dataKind h))).get key =
        (Estree.object (("type", .str (typeName h)) :: scalars h ++ defaults (dataKind h))).get key := by
    intro key hkey
    rw [List.all_eq_true] at hkey
    exact get_scalar (fun f hf => bne_iff_ne.mp (hkey f hf)) es _
  generalize Estree.object (entries h es ++ defaults (dataKind h)) = e at hget ⊢
  obtain ⟨hregexp, hdata⟩ | ⟨pattern, flags, rfl, hdata⟩ := dataKind_eq hforeign
  · rw [hdata] at hget ⊢
    cases h with
    | variableDeclaration kind =>
      have hkind : e.get "kind" = .str kind := hget "kind" rfl
      simp only [toHead, Head.kind, hkind, text]
    | identifier name =>
      have hname : e.get "name" = .str name := hget "name" rfl
      simp only [toHead, Head.kind, hname, text]
    | literal v =>
      have hregex : e.get "regex" = .null := hget "regex" rfl
      have hvalue : e.get "value" = ofValue v := hget "value" rfl
      simp only [toHead, Head.kind, hregex, hvalue, toValue_ofValue (hplain v rfl)]
    | property computed =>
      have hkind : e.get "kind" = .str "init" := hget "kind" rfl
      have hmethod : e.get "method" = .bool false := hget "method" rfl
      have hshort : e.get "shorthand" = .bool false := hget "shorthand" rfl
      have hcomputed : e.get "computed" = .bool computed := hget "computed" rfl
      simp [toHead, Head.kind, hkind, hmethod, hshort, hcomputed, text, isSet]
    | functionDeclaration | functionExpression =>
      have hgenerator : e.get "generator" = .bool false := hget "generator" rfl
      have hasync : e.get "async" = .bool false := hget "async" rfl
      have hisAsync : e.get "isAsync" = .bool false := hget "isAsync" rfl
      simp [toHead, toHead.plain, Head.kind, hgenerator, hasync, hisAsync, isSet]
    | unaryExpression operator | binaryExpression operator | logicalExpression operator
    | assignmentExpression operator =>
      have hoperator : e.get "operator" = .str operator := hget "operator" rfl
      simp only [toHead, Head.kind, hoperator, text]
    | updateExpression operator before =>
      have hoperator : e.get "operator" = .str operator := hget "operator" rfl
      have hbefore : e.get "prefix" = .bool before := hget "prefix" rfl
      simp only [toHead, Head.kind, hoperator, hbefore, text, isSet]
    | memberExpression computed =>
      have hcomputed : e.get "computed" = .bool computed := hget "computed" rfl
      simp only [toHead, Head.kind, hcomputed, isSet]
    | regexpLiteral pattern flags => cases hregexp
    | «foreign» name => cases hforeign
    | _ => rfl
  · rw [hdata] at hget ⊢
    have hregex : e.get "regex" = .object [("pattern", .str pattern), ("flags", .str flags)] :=
      hget "regex" rfl
    simp only [toHead, hregex]
    rfl

theorem loc?_entries (h : Head) (es : List Estree) :
    loc? (.object (entries h es ++ defaults (dataKind h))) = none := by
  have hdefaults : ∀ p ∈ defaults (dataKind h), p.1 ≠ "loc" := by
    generalize dataKind h = k
    cases k <;> simp [defaults, functionFlags]
  have hget : (Estree.object (entries h es ++ defaults (dataKind h))).get "loc" = .null := by
    have hnone : (("type", Estree.str (typeName h)) :: scalars h ++ defaults (dataKind h)).find?
        (·.1 == "loc") = none := by
      refine List.find?_eq_none.mpr fun p hp => ?_
      rw [beq_iff_eq]
      simp only [List.cons_append, List.mem_cons, List.mem_append] at hp
      rcases hp with rfl | hp | hp
      · exact (by decide : "type" ≠ "loc")
      · exact (scalar_ne h p hp).2
      · exact hdefaults p hp
    rw [get_scalar fun f _ => Field.name_ne_loc f, get, hnone]
    rfl
  rw [loc?, hget]
  rfl

/-! The children of a node. -/

inductive Reading.Fits : Reading → Demand → Prop
  | required (r : Role) : Fits .required (.one r)
  | optional (r : Role) : Fits .optional (.maybe r)
  | name : Fits .name (.one .name)
  | list (r : Role) : Fits .list (.many r)
  | names : Fits .names (.many .name)
  | holes (r : Role) : Fits .holes (.sparse r)

/-- The children are read from the fields of the slots, in their order. -/
theorem fields_readings (k : Kind) : (readings k).map (·.1) = k.fields := by
  cases k <;> rfl

theorem readings_fit {h : Head} (hforeign : h.kind.isForeign = false) :
    List.Forall₂ (fun p d => Reading.Fits p.2 d) (readings (dataKind h)) h.demands := by
  obtain ⟨hregexp, hdata⟩ | ⟨pattern, flags, rfl, hdata⟩ := dataKind_eq hforeign
  · rw [hdata]
    cases h with
    | «foreign» name => exact .nil
    | _ => repeat' constructor
  · rw [hdata]
    exact .nil

section
variable {F : Node → Estree} {G : Node → Node}

structure Reads (F : Node → Estree) (G : Node → Node) (c : Node) : Prop where
  node : toNode (F c) = .ok (G c)
  present : F c ≠ .null
  name : c.kind = .identifier → (F c).get "type" = .str "Identifier"

theorem Reads.readName {c : Node} (hc : Reads F G c) (hname : c.kind = .identifier) :
    readName (F c) (toNode (F c)) = .ok (G c) := by
  rw [Estree.readName, hc.name hname]
  exact hc.node

theorem data_read (e : Estree) : (read e).data = e := by
  cases e <;> rfl

theorem mapM_items {α : Type} {cs : List (Option Node)}
    {f : Estree × Except Fault Node → Except Fault α} {g : Option Node → α}
    (h : ∀ c ∈ cs, f ((c.map F).getD .null, toNode ((c.map F).getD .null)) = .ok (g c)) :
    (read (slotData F (.many cs))).items.mapM f = .ok (cs.map g) := by
  rw [slotData, read_list]
  refine mapM_of_forall₂ ?_
  rw [List.map_map, List.forall₂_map_left_iff, List.forall₂_map_right_iff]
  exact List.forall₂_same.mpr h

theorem readSlot_one {r : Reading} {c : Node} (hc : Reads F G c)
    (hname : r = .name → c.kind = .identifier) (hr : r = .required ∨ r = .optional ∨ r = .name) :
    readSlot (read (slotData F (.one (some c)))) r = .ok (.one (some (G c))) := by
  have hnode : (read (slotData F (.one (some c)))).node = .ok (G c) := hc.node
  have hdata : (read (slotData F (.one (some c)))).data = F c := data_read _
  have hpresent := hc.present
  rcases hr with rfl | rfl | rfl
  · rw [readSlot, hnode]
    rfl
  · rw [readSlot, hdata, hnode]
    cases hF : F c with
    | null => exact absurd hF hpresent
    | _ => rfl
  · have hread : readName (F c) (read (slotData F (.one (some c)))).node = .ok (G c) :=
      hc.readName (hname rfl)
    rw [readSlot, hdata, hread]
    rfl

theorem exists_items {d : Demand} {s : Slot Node} (hs : d.admits s = true)
    (hd : d.admits (.many []) = true) : ∃ cs, s = .many cs := by
  cases s with
  | one c => cases d <;> first | cases hs | cases hd
  | many cs => exact ⟨cs, rfl⟩

theorem exists_of_admits_many {r : Role} {cs : List (Option Node)}
    (hs : (Demand.many r).admits (.many cs) = true) {c : Option Node} (hc : c ∈ cs) :
    ∃ n, c = some n ∧ r.admits n.kind = true := by
  have hadmits := List.all_eq_true.mp hs c hc
  cases c with
  | none => cases hadmits
  | some n => exact ⟨n, rfl, hadmits⟩

theorem readSlot_slotData {r : Reading} {d : Demand} {s : Slot Node} (hfits : r.Fits d)
    (hs : d.admits s = true) (hreads : ∀ c ∈ s.children, Reads F G c) :
    readSlot (read (slotData F s)) r = .ok (s.view G) := by
  cases hfits with
  | required r =>
    obtain ⟨c, rfl, -⟩ := exists_of_demand hs
    exact readSlot_one (hreads c (by simp)) (fun hr => by cases hr) (.inl rfl)
  | optional r =>
    rcases maybe_cases hs with rfl | ⟨c, rfl⟩
    · rfl
    · exact readSlot_one (hreads c (by simp)) (fun hr => by cases hr) (.inr (.inl rfl))
  | name =>
    obtain ⟨c, rfl, hname⟩ := exists_of_demand hs
    exact readSlot_one (hreads c (by simp)) (fun _ => beq_iff_eq.mp hname) (.inr (.inr rfl))
  | list r =>
    obtain ⟨cs, rfl⟩ := exists_items hs rfl
    have hlist : (read (slotData F (.many cs))).items.mapM (fun p => do return some (← p.2)) =
        .ok (cs.map (·.map G)) := mapM_items fun c hc => by
      obtain ⟨n, rfl, -⟩ := exists_of_admits_many hs hc
      have hn := hreads n (Slot.mem_children_many.mpr hc)
      exact congrArg (Except.map some) hn.node
    exact bind_eq_ok.mpr ⟨_, rfl, bind_eq_ok.mpr ⟨_, hlist, rfl⟩⟩
  | names =>
    obtain ⟨cs, rfl⟩ := exists_items hs rfl
    have hlist : (read (slotData F (.many cs))).items.mapM
        (fun p => do return some (← readName p.1 p.2)) = .ok (cs.map (·.map G)) :=
      mapM_items fun c hc => by
        obtain ⟨n, rfl, hname⟩ := exists_of_admits_many hs hc
        have hn := hreads n (Slot.mem_children_many.mpr hc)
        exact congrArg (Except.map some) (hn.readName (beq_iff_eq.mp hname))
    exact bind_eq_ok.mpr ⟨_, rfl, bind_eq_ok.mpr ⟨_, hlist, rfl⟩⟩
  | holes r =>
    obtain ⟨cs, rfl⟩ := exists_items hs rfl
    refine bind_eq_ok.mpr ⟨_, mapM_items fun c hc => ?_, rfl⟩
    cases c with
    | none => rfl
    | some n =>
      have hn := hreads n (Slot.mem_children_many.mpr hc)
      have hnode : (do return some (← toNode (F n))) = Except.ok (some (G n)) :=
        congrArg (Except.map some) hn.node
      dsimp only [Option.map_some, Option.getD_some]
      split
      · rename_i hnull
        exact absurd hnull hn.present
      · exact hnode

theorem readSlots {look : Field → Piece} {rs : List (Field × Reading)} {ds : List Demand}
    {ss : List (Slot Node)}
    (hlook : ∀ (i : Nat) f s, (rs.map (·.1))[i]? = some f → ss[i]? = some s →
      look f = read (slotData F s))
    (hfits : List.Forall₂ (fun p d => Reading.Fits p.2 d) rs ds)
    (hss : List.Forall₂ (fun d s => d.admits s = true) ds ss)
    (hreads : ∀ c ∈ childrenOf ss, Reads F G c) :
    rs.mapM (fun p => readSlot (look p.1) p.2) = .ok (ss.map (Slot.view G)) := by
  refine mapM_of_forall₂ ?_
  induction hfits generalizing ss with
  | nil =>
    cases hss
    exact .nil
  | @cons p _ _ _ hfit _ ih =>
    obtain _ | ⟨hs, hss⟩ := hss
    rename_i s ss
    rw [childrenOf_cons, List.forall_mem_append] at hreads
    refine .cons ?_ (ih (fun i => hlook (i + 1)) hss hreads.2)
    have hfirst : look p.1 = read (slotData F s) := hlook 0 p.1 s rfl rfl
    rw [hfirst]
    exact readSlot_slotData hfit hs hreads.1

end

theorem type_layout {c : Node} (hc : c.kind = .identifier) :
    (layout c).get "type" = .str "Identifier" := by
  obtain ⟨t, h, ss⟩ := c
  rw [layout_mk, type_entries]
  cases h with
  | identifier name => rfl
  | _ => cases hc

theorem layout_ne_null (c : Node) : layout c ≠ .null := by
  obtain ⟨t, h, ss⟩ := c
  rw [layout_mk]
  exact fun hnull => nomatch hnull

/-- The data of a regular expression is read with the fields of a literal. Both have none. -/
theorem fields_dataKind {h : Head} (hforeign : h.kind.isForeign = false) :
    (readings (dataKind h)).map (·.1) = h.kind.fields := by
  rw [fields_readings]
  obtain ⟨-, hdata⟩ | ⟨pattern, flags, rfl, hdata⟩ := dataKind_eq hforeign
  · rw [hdata]
  · rw [hdata]
    rfl

theorem find?_pieces {h : Head} {ss : List (Slot Node)} {F : Node → Estree} {i : Nat} {f : Field}
    {s : Slot Node} (hf : h.kind.fields[i]? = some f) (hs : ss[i]? = some s)
    (rest : List (String × Estree)) :
    ((((entries h (ss.map (slotData F)) ++ rest).map fun p => (p.1, read p.2)).find?
      (·.1 == f.name)).map (·.2)).getD missing = read (slotData F s) := by
  have he : (ss.map (slotData F))[i]? = some (slotData F s) := by
    rw [List.getElem?_map, hs]
    rfl
  have hfind := find?_entries hf he rest
  rw [List.find?_map]
  simp only [Function.comp_def, hfind]
  rfl

theorem toNode_layout (n : Node) : n.WellKinded → n.kind.isForeign = false → n.Every IsPlain →
    toNode (layout n) = .ok n.bare := by
  induction n with
  | h t hd ss ih =>
    intro hn hforeign hplain
    have hforeign : hd.kind.isForeign = false := hforeign
    -- besides reading as itself, a child must not look like a hole, and a name must look like one
    have hchild : ∀ c ∈ childrenOf ss, Reads layout bare c := by
      intro c hc
      have hnode := ih c hc (hn.child hc) (isForeign_of_child hn.self hc) (hplain.child hc)
      exact ⟨hnode, layout_ne_null c, type_layout⟩
    have hhead := toHead_entries hforeign (fun v hv => (hplain.self v hv).1) (ss.map (slotData layout))
    have hself : List.Forall₂ (fun d s => d.admits s = true) hd.demands ss := hn.self
    have hslots := readSlots
      (fun i f s hf hs => find?_pieces (fields_dataKind hforeign ▸ hf) hs (defaults (dataKind hd)))
      (readings_fit hforeign) hself hchild
    have hkind := kindOf_entries hd (ss.map (slotData layout)) (defaults (dataKind hd))
    have hloc := loc?_entries hd (ss.map (slotData layout))
    rw [layout_mk, bare_mk, toNode, read_object]
    generalize entries hd (ss.map (slotData layout)) ++ defaults (dataKind hd) = fields at *
    have hnode := readNode_eq (.object fields) (fields.map fun p => (p.1, read p.2))
    rw [hkind, hloc] at hnode
    exact hnode.trans (bind_eq_ok.mpr ⟨hd, hhead, bind_eq_ok.mpr ⟨_, hslots, rfl⟩⟩)

/-- Import undoes export: the data of a tree that can be written down reads as its normal form, and a
normal form is its own. -/
theorem toNode_rebuild_ofTree {n : Node} (hn : n.Portable) :
    (do toNode (← rebuild (← ofTree n))) = .ok n.normal ∧ n.normal.normal = n.normal := by
  have hkinds : n.spelled.WellKinded :=
    wellKinded_spelled n hn.kinds (hn.values.mono fun _ => Head.isPrimitive_of_isExact)
  have hroot : n.spelled.kind.isForeign = false :=
    isForeign_spelled hn.root (Head.isPrimitive_of_isExact hn.values.self)
  have hplain : n.spelled.Every IsPlain := every_isPlain_spelled n hn.values
  have hdata : ofTree n = .ok (ofNode n.spelled) := ofTree_of_accepted (Portable.every_accepted n hn)
  have hbraced : rebuild (ofNode n.spelled) = .ok (layout (Spelling.brace n.spelled)) :=
    rebuild_ofNode _ hkinds hroot
  have hread : toNode (layout (Spelling.brace n.spelled)) = .ok n.normal :=
    toNode_layout _ (Spelling.wellKinded_brace _ hkinds) (Spelling.kind_brace n.spelled ▸ hroot)
      (Spelling.every_isPlain_brace _ hplain)
  refine ⟨?_, normal_normal hn.values⟩
  exact bind_eq_ok.mpr ⟨_, hdata, bind_eq_ok.mpr ⟨_, hbraced, hread⟩⟩

/-- An `if` in front of an `else`, with a literal, a hole and a regular expression in its test. -/
def dangling (t : Tag) (v : Value) : Node :=
  .mk t .ifStatement
    [.one (some (.arrayExpression t
        [none, some (.literal t v), some (.mk t (.regexpLiteral "a+" "g") [])])),
      .one (some (.mk t .whileStatement [.one (some (.identifier t "x")),
        .one (some (.mk t .ifStatement [.one (some (.identifier t "y")),
          .one (some (.emptyStatement t)), .one none]))])),
      .one (some (.emptyStatement t))]

def guarded (t : Tag) (m : Node) : Node :=
  .mk t .ifStatement
    [.one (some (.arrayExpression t [none, some m, some (.mk t (.regexpLiteral "a+" "g") [])])),
      .one (some (.blockStatement t [some (.mk t .whileStatement [.one (some (.identifier t "x")),
        .one (some (.mk t .ifStatement [.one (some (.identifier t "y")),
          .one (some (.emptyStatement t)), .one none]))])])),
      .one (some (.emptyStatement t))]

theorem normal_dangling (t : Tag) (v : Value) :
    (dangling t v).normal = guarded (.fresh none) (Spelling.brace (v.spelled t)).bare := rfl

theorem spelled_negZero (t : Tag) :
    (Value.float (-0.0)).spelled t = .unaryExpression t "-" (.literal (.fresh none) (.int 0)) := by
  have hnumber : Number.isNaN (.float (-0.0)) = false := by decide +kernel
  have hnegative : Spelling.isNegative (.float (-0.0)) = true := by decide +kernel
  have hfinite : (-(-0.0 : Float)).isInf = false := by decide +kernel
  have hzero : Double.toInt? (-(-0.0)) = some 0 := by decide +kernel
  simp [Value.spelled, hnumber, Number.spelled, hnegative, Number.neg, Number.magnitude, hfinite, hzero,
    Number.integerLimit]

theorem toNode_rebuild_dangling :
    (do toNode (← rebuild (← ofTree (dangling ⟨some 1, some ⟨2, 4⟩⟩ (.float (-0.0)))))) =
      .ok (guarded (.fresh none)
        (.unaryExpression (.fresh none) "-" (.literal (.fresh none) (.int 0)))) := by
  have hportable : (dangling ⟨some 1, some ⟨2, 4⟩⟩ (.float (-0.0))).Portable :=
    ⟨rfl, by decide +kernel, by decide +kernel⟩
  rw [(toNode_rebuild_ofTree hportable).1, normal_dangling, spelled_negZero]
  rfl

end Unravel.Estree
