import Unravel.Proofs.Exchange.Sign
import Unravel.Proofs.Grammar.Inert
import Unravel.Proofs.Pass.Exact
import Unravel.Spelling
import Unravel.Tree.Fold

/-! The spelling of a tree, as a function: every exact tree has one, it is as well-kinded as the tree,
and its literals are spelled as they are. -/

namespace Unravel

open Node

/-! Folds over the children of a node. -/

theorem foldItems_eq {α : Type} (f : Node.Layer α) (cs : List (Option Node)) :
    foldItems f cs = cs.map (·.map fun c => (c, fold f c)) :=
  items_eq_map (fun c => (c, fold f c)) (foldItems f) rfl (fun _ => rfl) (fun _ _ => rfl) cs

theorem foldSlots_eq {α : Type} (f : Node.Layer α) (ss : List (Slot Node)) :
    foldSlots f ss = ss.map (Slot.view fun c => (c, fold f c)) :=
  slots_eq_map (fun c => (c, fold f c)) (foldSlots f) rfl (fun _ => rfl) (fun _ _ => rfl)
    (fun cs ss => by rw [foldSlots, foldItems_eq]) ss

/-! The spelling of values. -/

namespace Number

def magnitude (t : Tag) : Number → Node
  | .int n => .literal t (.int n)
  | .float x =>
    if x.isInf then .identifier t "Infinity"
    else match Double.toInt? x with
      | some n => if n.natAbs ≤ integerLimit then .literal t (.int n) else .literal t (.float x)
      | none => .literal t (.float x)

def spelled (t : Tag) (n : Number) : Node :=
  if Spelling.isNegative n then .unaryExpression t "-" (n.neg.magnitude (.fresh none))
  else n.magnitude t

def isNaN : Number → Bool
  | .int _ => false
  | .float x => x.isNaN

theorem neg_of_isNegative {n : Number} (hnumber : n.isNaN = false)
    (hn : Spelling.isNegative n = true) : n.neg.isNaN = false ∧ Spelling.isNegative n.neg = false := by
  cases n with
  | int n =>
    have hn : n < 0 := of_decide_eq_true hn
    exact ⟨rfl, decide_eq_false (by omega)⟩
  | float x =>
    have hx : Double.isNegative x = true := hn
    obtain ⟨hneg, hsign⟩ := Double.neg_number hnumber
    rw [hx] at hsign
    exact ⟨hneg, hsign⟩

end Number

namespace Value

def spelled (t : Tag) : Value → Node
  | .undefined => .identifier t "undefined"
  | .number n => if n.isNaN then .identifier t "NaN" else n.spelled t
  | v => .literal t v

structure IsPlain (v : Value) : Prop where
  primitive : v.isPrimitive = true
  spelled : ∀ t, v.spelled t = .literal t v

end Value

theorem Spelling.magnitude_eq {n : Number} (hn : n.Fits) (t : Tag) :
    Spelling.magnitude t n = .ok (n.magnitude t) := by
  cases n with
  | int n =>
    obtain ⟨x, hx⟩ := hn
    simp only [Spelling.magnitude, Number.magnitude, hx]
    rfl
  | float x =>
    rw [Spelling.magnitude, Number.magnitude, apply_ite Except.ok]
    refine if_congr Iff.rfl rfl ?_
    cases Double.toInt? x with
    | none => rfl
    | some n => exact (apply_ite Except.ok _ _ _).symm

theorem Spelling.signed_eq {n : Number} (hn : (Value.number n).isExact = true) (t : Tag) :
    Spelling.literal.signed t n = .ok (n.spelled t) := by
  unfold Spelling.literal.signed Number.spelled
  split
  · rw [magnitude_eq (Number.fits_neg_of_isExact hn)]
    rfl
  · exact magnitude_eq (Number.fits_of_isExact hn) t

theorem Spelling.literal_eq {v : Value} (hv : v.isExact = true) (t : Tag) :
    Spelling.literal t v = .ok (v.spelled t) := by
  cases v with
  | undefined | null | bool | str => rfl
  | foreign => cases hv
  | number n =>
    have hsigned := signed_eq hv t
    cases n with
    | int n => exact hsigned
    | float x =>
      rw [literal, Value.spelled, apply_ite Except.ok, ← hsigned]
      rfl

/-- What a literal can be spelled as: a name, a literal that is spelled as it is, or a minus in front
of one of them. -/
inductive Written : Node → Prop
  | name (t : Tag) (x : String) : Written (.identifier t x)
  | literal (t : Tag) {v : Value} : v.IsPlain → Written (.literal t v)
  | minus (t : Tag) {m : Node} : Written m → Written (.unaryExpression t "-" m)

theorem Number.written_magnitude {n : Number} (hnumber : n.isNaN = false)
    (hn : Spelling.isNegative n = false) (t : Tag) : Written (n.magnitude t) := by
  have hself : ∀ u, (Value.number n).spelled u = n.magnitude u := by
    intro u
    simp [Value.spelled, hnumber, spelled, hn]
  cases n with
  | int n => exact .literal t ⟨rfl, hself⟩
  | float x =>
    by_cases hinf : x.isInf = true
    · rw [magnitude, if_pos hinf]
      exact .name t "Infinity"
    · cases hint : Double.toInt? x with
      | none =>
        have hliteral : ∀ u, (Number.float x).magnitude u = .literal u (.float x) := by
          intro u
          simp [magnitude, hinf, hint]
        rw [hliteral]
        exact .literal t ⟨rfl, fun u => (hself u).trans (hliteral u)⟩
      | some k =>
        by_cases hlimit : k.natAbs ≤ integerLimit
        · have hliteral : (Number.float x).magnitude t = .literal t (.int k) := by
            simp [magnitude, hinf, hint, hlimit]
          have hsign : Spelling.isNegative (.int k) = false :=
            decide_eq_false (Int.not_lt.mpr (Double.nonneg_of_toInt? hn hint))
          rw [hliteral]
          refine .literal t ⟨rfl, fun u => ?_⟩
          simp [Value.spelled, isNaN, spelled, hsign, magnitude]
        · have hliteral : ∀ u, (Number.float x).magnitude u = .literal u (.float x) := by
            intro u
            simp [magnitude, hinf, hint, hlimit]
          rw [hliteral]
          exact .literal t ⟨rfl, fun u => (hself u).trans (hliteral u)⟩

def Head.isPrimitive : Head → Bool
  | .literal v => v.isPrimitive
  | _ => true

theorem Head.isPrimitive_of_isExact {h : Head} (hh : h.isExact = true) : h.isPrimitive = true := by
  cases h with
  | literal v =>
    cases v with
    | «foreign» => cases hh
    | _ => rfl
  | _ => rfl

theorem Value.written_spelled {v : Value} (hv : v.isPrimitive = true) (t : Tag) :
    Written (v.spelled t) := by
  cases v with
  | undefined => exact .name t "undefined"
  | null | bool | str => exact .literal t ⟨rfl, fun _ => rfl⟩
  | «foreign» => cases hv
  | number n =>
    rw [spelled]
    split
    · exact .name t "NaN"
    · rename_i hnumber
      rw [Bool.not_eq_true] at hnumber
      rw [Number.spelled]
      split
      · rename_i hn
        obtain ⟨hnumber', hn'⟩ := Number.neg_of_isNegative hnumber hn
        exact .minus t (Number.written_magnitude hnumber' hn' _)
      · rename_i hn
        exact Number.written_magnitude hnumber (Bool.not_eq_true _ ▸ hn) t

namespace Written

variable {m : Node}

theorem isExpression (h : Written m) : m.kind.isExpression = true := by
  cases h <;> rfl

theorem wellKinded (h : Written m) : m.WellKinded := by
  induction h with
  | name | literal => exact every_mk.mpr ⟨.nil, everySlots_nil⟩
  | minus t hm ih =>
    exact every_mk.mpr ⟨.cons hm.isExpression .nil, everySlots_one.mpr ⟨ih, everySlots_nil⟩⟩

end Written

/-! The spelling of trees. -/

theorem Head.literal_or (h : Head) : (∃ v, h = .literal v) ∨ h.kind ≠ .literal := by
  cases h with
  | literal v => exact .inl ⟨v, rfl⟩
  | _ => exact .inr fun hkind => nomatch hkind

namespace Node

def spelling : Node.Layer Node := fun t h slots =>
  match h with
  | .literal v => v.spelled t
  | h => .mk t h (slots.map (Slot.map (·.2)))

def spelled (n : Node) : Node := fold spelling n

theorem spelled_literal (t : Tag) (v : Value) (ss : List (Slot Node)) :
    spelled (.mk t (.literal v) ss) = v.spelled t := by
  rw [spelled, fold, spelling]

theorem spelled_mk {h : Head} (hliteral : h.kind ≠ .literal) (t : Tag) (ss : List (Slot Node)) :
    spelled (.mk t h ss) = .mk t h (ss.map (Slot.view spelled)) := by
  have hslots : (foldSlots spelling ss).map (Slot.map (·.2)) = ss.map (Slot.view spelled) := by
    rw [foldSlots_eq, List.map_map, ← Slot.view_comp]
    rfl
  cases h with
  | literal v => exact absurd rfl hliteral
  | _ => exact congrArg (Node.mk t _) hslots

/-- A tree that can be written down: it is well-kinded and exact, and its root is of a kind of the
model. -/
structure Portable (n : Node) : Prop where
  root : n.kind.isForeign = false
  kinds : n.WellKinded
  values : n.Exact

theorem isForeign_of_role {r : Role} {k : Kind} (h : r.admits k = true) : k.isForeign = false := by
  cases k with
  | «foreign» name => cases r <;> cases h
  | _ => rfl

theorem maybe_cases {r : Role} {s : Slot Node} (h : (Demand.maybe r).admits s = true) :
    s = .one none ∨ ∃ c, s = .one (some c) := by
  cases s with
  | one c =>
    cases c with
    | none => exact .inl rfl
    | some c => exact .inr ⟨c, rfl⟩
  | many cs => cases h

theorem isForeign_of_child {t : Tag} {h : Head} {ss : List (Slot Node)}
    (hn : (Node.mk t h ss).Conforms) {c : Node} (hc : c ∈ childrenOf ss) : c.kind.isForeign = false := by
  obtain ⟨d, -, hrole⟩ := exists_demand_of_child hn hc
  exact isForeign_of_role hrole

theorem Portable.child {t : Tag} {h : Head} {ss : List (Slot Node)} (hn : (Node.mk t h ss).Portable)
    {c : Node} (hc : c ∈ childrenOf ss) : c.Portable :=
  ⟨isForeign_of_child hn.kinds.self hc, hn.kinds.child hc, hn.values.child hc⟩

/-! Spelling exchanges expressions for expressions. -/

theorem Demand.admits_view {f : Node → Node} {d : Demand} {s : Slot Node}
    (hf : ∀ c ∈ s.children, d.role.admits c.kind = true → d.role.admits (f c).kind = true)
    (h : d.admits s = true) : d.admits (s.view f) = true := by
  cases s with
  | one c =>
    cases c with
    | none => exact h
    | some c => exact Demand.admits_one_of_role h (hf c (by simp) (Demand.role_of_admits_one h))
  | many cs =>
    have hitem : ∀ c, some c ∈ cs → d.role.admits (f c).kind = true := fun c hc =>
      hf c (Slot.mem_children_many.mpr hc) (Demand.role_of_admits_many h hc)
    cases d with
    | one | maybe => cases h
    | many r =>
      refine List.all_eq_true.mpr fun o ho => ?_
      obtain ⟨c, hc, rfl⟩ := List.mem_map.mp ho
      cases c with
      | none => exact List.all_eq_true.mp h none hc
      | some c => exact hitem c hc
    | sparse r =>
      refine List.all_eq_true.mpr fun o ho => ?_
      obtain ⟨c, hc, rfl⟩ := List.mem_map.mp ho
      cases c with
      | none => rfl
      | some c => exact hitem c hc

theorem conforms_map {f : Node → Node} {t : Tag} {h : Head} {ss : List (Slot Node)}
    (hf : ∀ c ∈ childrenOf ss, ∀ r : Role, r.admits c.kind = true → r.admits (f c).kind = true)
    (hn : (Node.mk t h ss).Conforms) : (Node.mk t h (ss.map (Slot.view f))).Conforms := by
  unfold Conforms at hn ⊢
  simp only [head, slots] at hn ⊢
  generalize h.demands = ds at hn ⊢
  induction hn with
  | nil => exact .nil
  | @cons d s ds ss hslot _ ih =>
    rw [childrenOf_cons, List.forall_mem_append] at hf
    obtain ⟨hfirst, hrest⟩ := hf
    exact .cons (Demand.admits_view (fun c hc => hfirst c hc _) hslot) (ih hrest)

theorem every_map_view {P : Node → Prop} {f : Node → Node} {ss : List (Slot Node)} :
    EverySlots P (ss.map (Slot.view f)) ↔ ∀ c ∈ childrenOf ss, (f c).Every P := by
  rw [everySlots_iff, childrenOf_map_view, List.forall_mem_map]

theorem admits_spelled {r : Role} {n : Node} (hn : n.head.isPrimitive = true)
    (h : r.admits n.kind = true) : r.admits n.spelled.kind = true := by
  obtain ⟨t, hd, ss⟩ := n
  obtain ⟨v, rfl⟩ | hliteral := hd.literal_or
  · have hwritten := Value.written_spelled hn t
    have hkind : (Node.mk t (.literal v) ss).kind = .literal := rfl
    rw [hkind] at h
    rw [spelled_literal]
    exact Role.admits_expression h rfl (by decide) (by decide) hwritten.isExpression
  · rw [spelled_mk hliteral]
    exact h

theorem wellKinded_spelled (n : Node) : n.WellKinded → (n.Every fun c => c.head.isPrimitive = true) →
    n.spelled.WellKinded := by
  induction n with
  | h t hd ss ih =>
    intro hn hprimitive
    obtain ⟨v, rfl⟩ | hliteral := hd.literal_or
    · rw [spelled_literal]
      exact (Value.written_spelled hprimitive.self t).wellKinded
    · have hself : (Node.mk t hd (ss.map (Slot.view spelled))).Conforms :=
        conforms_map (fun c hc r => admits_spelled (hprimitive.child hc).self) hn.self
      rw [spelled_mk hliteral]
      refine every_mk.mpr ⟨hself, every_map_view.mpr fun c hc => ?_⟩
      exact ih c hc (hn.child hc) (hprimitive.child hc)

theorem isForeign_spelled {n : Node} (hroot : n.kind.isForeign = false)
    (hn : n.head.isPrimitive = true) : n.spelled.kind.isForeign = false := by
  obtain ⟨t, hd, ss⟩ := n
  obtain ⟨v, rfl⟩ | hliteral := hd.literal_or
  · have hwritten := Value.written_spelled hn t
    rw [spelled_literal]
    exact isForeign_of_role (r := .expression) hwritten.isExpression
  · rw [spelled_mk hliteral]
    exact hroot

def IsPlain (n : Node) : Prop := ∀ v, n.head = .literal v → v.IsPlain ∧ n.slots = []

end Node

theorem Written.every_isPlain {m : Node} (h : Written m) : m.Every Node.IsPlain := by
  induction h with
  | name => exact every_mk.mpr ⟨fun v hv => (nomatch hv), everySlots_nil⟩
  | literal t hv =>
    refine every_mk.mpr ⟨fun v hv' => ?_, everySlots_nil⟩
    cases hv'
    exact ⟨hv, rfl⟩
  | minus t _ ih =>
    exact every_mk.mpr ⟨fun v hv => (nomatch hv), everySlots_one.mpr ⟨ih, everySlots_nil⟩⟩

namespace Node

theorem every_isPlain_spelled (n : Node) : n.Exact → n.spelled.Every IsPlain := by
  induction n with
  | h t hd ss ih =>
    intro hexact
    obtain ⟨v, rfl⟩ | hliteral := hd.literal_or
    · rw [spelled_literal]
      exact (Value.written_spelled (Head.isPrimitive_of_isExact hexact.self) t).every_isPlain
    · rw [spelled_mk hliteral]
      refine every_mk.mpr ⟨fun v hv => ?_, every_map_view.mpr fun c hc => ih c hc (hexact.child hc)⟩
      cases hv
      exact absurd rfl hliteral

theorem spelled_of_isPlain (n : Node) : n.Every IsPlain → n.spelled = n := by
  induction n with
  | h t hd ss ih =>
    intro hn
    obtain ⟨v, rfl⟩ | hliteral := hd.literal_or
    · obtain ⟨hv, hss⟩ := hn.self v rfl
      have hss : ss = [] := hss
      rw [spelled_literal, hv.spelled, hss]
    · rw [spelled_mk hliteral, map_view_self fun c hc => ih c hc (hn.child hc)]

end Node
end Unravel
