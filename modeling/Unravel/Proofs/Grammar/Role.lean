import Mathlib.Data.List.Forall2
import Unravel.Proofs.Tree.Children
import Unravel.Tree.Query

/-! The grammar of trees: which kinds the slots of each kind hold. A tree is well-kinded when each of
its nodes conforms to the grammar. -/

namespace Unravel

def Kind.isExpression : Kind → Bool
  | .identifier | .literal | .regexpLiteral | .thisExpression | .arrayExpression
  | .objectExpression | .functionExpression | .unaryExpression | .updateExpression
  | .binaryExpression | .logicalExpression | .assignmentExpression | .conditionalExpression
  | .callExpression | .newExpression | .memberExpression | .sequenceExpression => true
  | _ => false

inductive Role where
  | expression
  | statement
  | block
  | name
  | target
  | start
  | loopTarget
  | declarator
  | switchCase
  | property
  | handler
deriving DecidableEq, Repr

def Role.admits : Role → Kind → Bool
  | .expression, k => k.isExpression
  | .statement, k => k.isStatement
  | .block, k => k == .blockStatement
  | .name, k => k == .identifier
  | .target, k => k == .identifier || k == .memberExpression
  | .start, k => k.isExpression || k == .variableDeclaration
  | .loopTarget, k => k == .identifier || k == .memberExpression || k == .variableDeclaration
  | .declarator, k => k == .variableDeclarator
  | .switchCase, k => k == .switchCase
  | .property, k => k == .property
  | .handler, k => k == .catchClause

inductive Demand where
  | one (role : Role)
  | maybe (role : Role)
  | many (role : Role)
  | sparse (role : Role)
deriving DecidableEq, Repr

namespace Demand

def role : Demand → Role
  | .one r | .maybe r | .many r | .sparse r => r

def admits : Demand → Slot Node → Bool
  | .one r, .one (some c) => r.admits c.kind
  | .maybe r, .one c => c.all (r.admits ·.kind)
  | .many r, .many cs => cs.all (·.any (r.admits ·.kind))
  | .sparse r, .many cs => cs.all (·.all (r.admits ·.kind))
  | _, _ => false

end Demand

def Head.demands : Head → List Demand
  | .program | .blockStatement => [.many .statement]
  | .expressionStatement => [.one .expression]
  | .ifStatement => [.one .expression, .one .statement, .maybe .statement]
  | .labeledStatement => [.one .name, .one .statement]
  | .breakStatement | .continueStatement => [.maybe .name]
  | .returnStatement => [.maybe .expression]
  | .throwStatement | .unaryExpression _ => [.one .expression]
  | .tryStatement => [.one .block, .maybe .handler, .maybe .block]
  | .catchClause => [.one .name, .one .block]
  | .switchStatement => [.one .expression, .many .switchCase]
  | .switchCase => [.maybe .expression, .many .statement]
  | .whileStatement => [.one .expression, .one .statement]
  | .doWhileStatement => [.one .statement, .one .expression]
  | .forStatement => [.maybe .start, .maybe .expression, .maybe .expression, .one .statement]
  | .forInStatement => [.one .loopTarget, .one .expression, .one .statement]
  | .functionDeclaration => [.one .name, .many .name, .one .block]
  | .functionExpression => [.maybe .name, .many .name, .one .block]
  | .variableDeclaration _ => [.many .declarator]
  | .variableDeclarator => [.one .name, .maybe .expression]
  | .arrayExpression => [.sparse .expression]
  | .objectExpression => [.many .property]
  | .property _ | .binaryExpression _ | .logicalExpression _ => [.one .expression, .one .expression]
  | .updateExpression _ _ => [.one .target]
  | .assignmentExpression _ => [.one .target, .one .expression]
  | .conditionalExpression => [.one .expression, .one .expression, .one .expression]
  | .callExpression | .newExpression => [.one .expression, .many .expression]
  | .memberExpression computed =>
    [.one .expression, .one (if computed then .expression else .name)]
  | .sequenceExpression => [.many .expression]
  | .emptyStatement | .identifier _ | .literal _ | .regexpLiteral _ _ | .thisExpression
  | .foreign _ => []

namespace Node

def Conforms (n : Node) : Prop :=
  List.Forall₂ (fun d s => d.admits s = true) n.head.demands n.slots

instance : DecidablePred Conforms := fun n =>
  inferInstanceAs (Decidable (List.Forall₂ (fun d s => d.admits s = true) n.head.demands n.slots))

/-- Every slot of the tree holds what the grammar demands there. -/
abbrev WellKinded (tree : Node) : Prop := tree.Every Conforms

end Node

/-! The grammar asks for the heads of children only. -/

def Demand.admitsHeads : Demand → Slot Head → Bool
  | .one r, .one (some h) => r.admits h.kind
  | .maybe r, .one h => h.all (r.admits ·.kind)
  | .many r, .many hs => hs.all (·.any (r.admits ·.kind))
  | .sparse r, .many hs => hs.all (·.all (r.admits ·.kind))
  | _, _ => false

theorem Demand.admits_eq_heads (d : Demand) (s : Slot Node) : d.admits s = d.admitsHeads s.heads := by
  obtain (_ | c) | cs := s
  · cases d <;> rfl
  · cases d <;> rfl
  · cases d with
    | one | maybe => rfl
    | many =>
      simp [admits, admitsHeads, Slot.view, Option.any_map, Function.comp_def, Node.kind]
    | sparse =>
      simp [admits, admitsHeads, Slot.view, Option.all_map, Function.comp_def, Node.kind]

theorem Demand.admits_congr {d : Demand} {s s' : Slot Node} (hheads : s.heads = s'.heads) :
    d.admits s = d.admits s' := by
  rw [admits_eq_heads, admits_eq_heads, hheads]

theorem Node.conforms_congr {t t' : Tag} {h : Head} {ss ss' : List (Slot Node)}
    (hheads : ss.map Slot.heads = ss'.map Slot.heads) (hn : (Node.mk t h ss).Conforms) :
    (Node.mk t' h ss').Conforms := by
  unfold Conforms at hn ⊢
  simp only [head, slots] at hn ⊢
  generalize h.demands = ds at hn ⊢
  induction ss generalizing ss' ds with
  | nil =>
    cases List.map_eq_nil_iff.mp hheads.symm
    exact hn
  | cons s ss ih =>
    obtain ⟨s', rest, rfl, hs, hrest⟩ := List.map_eq_cons_iff.mp hheads.symm
    obtain _ | ⟨hslot, htail⟩ := hn
    exact .cons (Demand.admits_congr hs ▸ hslot) (ih hrest.symm _ htail)

/-! Fields and demands go together. -/

namespace Head

variable {h : Head} {i : Nat} {d : Demand} {field : Field}

theorem length_demands (h : Head) : h.demands.length = h.kind.fields.length := by
  cases h <;> rfl

theorem isReference_of_name (hd : h.demands[i]? = some d) (hfield : h.kind.fields[i]? = some field)
    (hrole : d.role = .name) : (Seat.mk h field).isReference = false := by
  rcases i with _ | _ | _ | _ | i <;> cases h <;> cases hd <;> cases hfield <;>
    first | rfl | cases hrole | skip
  rename_i computed
  cases computed with
  | false => rfl
  | true => cases hrole

theorem isWriteTarget_of_target (hd : h.demands[i]? = some d)
    (hfield : h.kind.fields[i]? = some field) (hrole : d.role = .target ∨ d.role = .loopTarget) :
    (Seat.mk h field).isWriteTarget = true := by
  rcases i with _ | _ | _ | _ | i <;> cases h <;> cases hd <;> cases hfield <;>
    first | rfl | exact absurd hrole (by decide) | skip
  rename_i computed
  cases computed <;> exact absurd hrole (by decide)

end Head

theorem Kind.isStatement_of_isExpression {k : Kind} (h : k.isExpression = true) :
    k.isStatement = false := by
  cases k <;> first | rfl | cases h

/-- A role that a seat can have: where a name is read it is not one of names, and where nothing is
written it is not one of targets. -/
structure Role.Sits (r : Role) (seat : Option Seat) : Prop where
  read : isReference seat = true → r ≠ .name
  unwritten : isWriteTarget seat = false → r ≠ .target ∧ r ≠ .loopTarget

theorem Head.sits {h : Head} {i : Nat} {d : Demand} (hd : h.demands[i]? = some d) :
    d.role.Sits (h.kind.fields[i]?.map (⟨h, ·⟩)) := by
  have hlt := (List.getElem?_eq_some_iff.mp hd).1
  rw [length_demands] at hlt
  have hfield := List.getElem?_eq_getElem hlt
  rw [hfield, Option.map_some]
  refine ⟨fun hread hname => ?_, fun hwrite => not_or.mp fun htarget => ?_⟩
  · have hclosed := isReference_of_name hd hfield hname
    simp [isReference, hclosed] at hread
  · have hwritten := isWriteTarget_of_target hd hfield htarget
    simp [isWriteTarget, hwritten] at hwrite

namespace Role

variable {r : Role} {k k' : Kind}

theorem admits_expression (h : r.admits k = true) (hk : k.isExpression = true)
    (hid : k ≠ .identifier) (hmember : k ≠ .memberExpression) (hk' : k'.isExpression = true) :
    r.admits k' = true := by
  have hstatement := Kind.isStatement_of_isExpression hk
  cases r <;> simp only [admits, Bool.or_eq_true, beq_iff_eq] at h ⊢
  case expression => exact hk'
  case start => exact .inl hk'
  case statement => simp [h] at hstatement
  all_goals grind [Kind.isExpression]

theorem eq_statement (h : r.admits k = true) (hk : k.isStatement = true)
    (hblock : k ≠ .blockStatement) (hdecl : k ≠ .variableDeclaration) : r = .statement := by
  have hexpression : k.isExpression = false := by
    cases hk' : k.isExpression with
    | false => rfl
    | true => simp [Kind.isStatement_of_isExpression hk'] at hk
  cases r <;> simp only [admits, Bool.or_eq_true, beq_iff_eq] at h
  case statement => rfl
  all_goals grind [Kind.isStatement]

theorem Sits.admits_of_member {seat : Option Seat} (hr : r.Sits seat)
    (hwrite : isWriteTarget seat = false) (h : r.admits .memberExpression = true)
    (hk : k.isExpression = true) : r.admits k = true := by
  have hopen := hr.unwritten hwrite
  cases r <;> simp_all [admits, Kind.isStatement]

theorem Sits.admits_of_identifier {seat : Option Seat} (hr : r.Sits seat)
    (hread : isReference seat = true) (hwrite : isWriteTarget seat = false)
    (h : r.admits .identifier = true) (hk : k.isExpression = true) : r.admits k = true := by
  have hname := hr.read hread
  have hopen := hr.unwritten hwrite
  cases r <;> simp_all [admits, Kind.isStatement]

end Role

namespace Demand

variable {d : Demand} {n m : Node}

theorem role_of_admits_one (h : d.admits (.one (some n)) = true) : d.role.admits n.kind = true := by
  cases d with
  | one | maybe => exact h
  | many | sparse => cases h

theorem admits_one_of_role (h : d.admits (.one (some n)) = true)
    (hm : d.role.admits m.kind = true) : d.admits (.one (some m)) = true := by
  cases d with
  | one | maybe => exact hm
  | many | sparse => cases h

theorem role_of_admits_many {cs : List (Option Node)} (h : d.admits (.many cs) = true)
    (hn : some n ∈ cs) : d.role.admits n.kind = true := by
  cases d with
  | one | maybe => cases h
  | many | sparse => exact List.all_eq_true.mp h _ hn

theorem admits_many_append {cs cs' : List (Option Node)} :
    d.admits (.many (cs ++ cs')) = (d.admits (.many cs) && d.admits (.many cs')) := by
  cases d with
  | one | maybe => rfl
  | many | sparse => exact List.all_append

theorem admits_many_map {ns : List Node} (h : d.admits (.many [some n]) = true)
    (hns : ∀ m ∈ ns, d.role.admits m.kind = true) : d.admits (.many (ns.map some)) = true := by
  cases d with
  | one | maybe => cases h
  | many | sparse =>
    refine List.all_eq_true.mpr fun c hc => ?_
    obtain ⟨m, hm, rfl⟩ := List.mem_map.mp hc
    exact hns m hm

end Demand

theorem Node.exists_of_demand {r : Role} {s : Slot Node} (h : (Demand.one r).admits s = true) :
    ∃ c, s = .one (some c) ∧ r.admits c.kind = true := by
  match s with
  | .one (some c) => exact ⟨c, rfl, h⟩
  | .one none | .many _ => cases h

theorem exists_of_forall₂_append {α β : Type} {R : α → β → Prop} {as : List α} {bs bs' : List β}
    {b : β} (h : List.Forall₂ R as (bs ++ b :: bs')) : ∃ a, as[bs.length]? = some a ∧ R a b := by
  induction bs generalizing as with
  | nil =>
    cases h with
    | cons hab _ => exact ⟨_, rfl, hab⟩
  | cons c bs ih =>
    cases h with
    | cons _ hrest => exact ih hrest

theorem forall₂_append_of_forall {α β : Type} {R : α → β → Prop} {as : List α} {bs bs' : List β}
    {b c : β} (h : List.Forall₂ R as (bs ++ b :: bs'))
    (hc : ∀ a, as[bs.length]? = some a → R a b → R a c) : List.Forall₂ R as (bs ++ c :: bs') := by
  induction bs generalizing as with
  | nil =>
    cases h with
    | cons hab hrest => exact .cons (hc _ rfl hab) hrest
  | cons d bs ih =>
    cases h with
    | cons hfirst hrest => exact .cons hfirst (ih hrest hc)

namespace Frame

open Node

variable {f : Frame} {n m : Node} {d : Demand} {k : Kind}

def demand? (f : Frame) : Option Demand := f.head.demands[f.before.length]?

theorem exists_demand (h : (f.plug n).Conforms) :
    ∃ d, f.demand? = some d ∧ d.role.admits n.kind = true := by
  obtain ⟨d, hd, hslot⟩ := exists_of_forall₂_append h
  rw [List.length_reverse] at hd
  refine ⟨d, hd, ?_⟩
  cases hhole : f.hole with
  | single =>
    rw [hhole] at hslot
    exact Demand.role_of_admits_one hslot
  | item left right =>
    rw [hhole] at hslot
    exact Demand.role_of_admits_many hslot (by simp)

theorem conforms_plugAll {ns : List Node} (hf : f.Takes ns) (h : (f.plug n).Conforms)
    (hns : ∀ d, f.demand? = some d → d.role.admits n.kind = true →
      ∀ m ∈ ns, d.role.admits m.kind = true) : (f.plugAll ns).Conforms := by
  obtain ⟨t, hd, before, hole, after⟩ := f
  cases hole with
  | single =>
    rcases hf with hf | ⟨m, rfl⟩
    · cases hf
    · refine forall₂_append_of_forall h fun d hd hslot => ?_
      rw [List.length_reverse] at hd
      exact Demand.admits_one_of_role hslot
        (hns d hd (Demand.role_of_admits_one hslot) m (List.mem_singleton_self m))
  | item left right =>
    refine forall₂_append_of_forall h fun d hd hslot => ?_
    rw [List.length_reverse] at hd
    have hn := Demand.role_of_admits_many hslot (by simp : some n ∈ left.reverse ++ some n :: right)
    have hitem : d.admits (.many ([some n] ++ right)) = true := by
      rw [Demand.admits_many_append, Bool.and_eq_true] at hslot
      exact hslot.2
    rw [Demand.admits_many_append, Bool.and_eq_true] at hslot hitem
    rw [Demand.admits_many_append, Demand.admits_many_append, Bool.and_eq_true, Bool.and_eq_true]
    exact ⟨hslot.1, Demand.admits_many_map hitem.1 (hns d hd hn), hitem.2⟩

theorem sits (hd : f.demand? = some d) : d.role.Sits f.seat? := Head.sits hd

def Open (f : Frame) : Prop := ∃ d, f.demand? = some d ∧ d.role ≠ .name

theorem Open.leadingName?_eq (hf : f.Open)
    (hname : f.head.demands.head?.map Demand.role = some .name) {ns : List Node} :
    leadingName? (f.plug n).slots = leadingName? (f.plugAll ns).slots := by
  obtain ⟨t, h, before, hole, after⟩ := f
  obtain ⟨d, hd, hrole⟩ := hf
  cases hbefore : before.reverse with
  | nil =>
    cases List.reverse_eq_nil_iff.mp hbefore
    simp only [demand?, List.length_nil, ← List.head?_eq_getElem?] at hd
    rw [hd] at hname
    exact absurd (Option.some.inj hname) hrole
  | cons slot rest =>
    simp only [plug, plugAll, slots, hbefore, List.cons_append]
    cases slot with
    | one c => cases c <;> rfl
    | many => rfl

end Frame

/-! Well-kinded trees with a hole. -/

namespace Node

theorem conforms_of_kinds {f : Frame} {c c' : Node} (hcc : c.head = c'.head)
    (h : (f.plug c).Conforms) : (f.plug c').Conforms := by
  have hkind : c.kind = c'.kind := congrArg Head.kind hcc
  rw [← Frame.plugAll_singleton]
  refine Frame.conforms_plugAll (.inr ⟨c', rfl⟩) h fun d _ hd m hm => ?_
  rw [List.mem_singleton.mp hm]
  exact hkind ▸ hd

theorem WellKinded.plugAll {f : Frame} {fs : Trail} {n : Node} {ns : List Node}
    (hf : f.Takes ns) (h : (Trail.plug (f :: fs) n).WellKinded) (hns : ∀ m ∈ ns, m.WellKinded)
    (hrole : ∀ d, f.demand? = some d → d.role.admits n.kind = true →
      ∀ m ∈ ns, d.role.admits m.kind = true) : (Trail.plug fs (f.plugAll ns)).WellKinded :=
  Trail.every_exchange Node.head (fun _ _ _ _ => rfl) (fun _ _ _ hcc => conforms_of_kinds hcc) hf
    rfl (fun hself => Frame.conforms_plugAll hf hself hrole) hns h

/-! New tags do not matter to the grammar. -/

section
variable {τ : Type} {f : Relabel τ}

theorem conforms_relabel (hf : f.KeepsHeads) : f.Carries Conforms Conforms := by
  rintro seat ⟨t, h, ss⟩ s hn
  have hhead : (f seat t h s).1.2 = h := hf seat t h s
  simp only [relabel, hhead]
  exact conforms_congr (heads_relabelSlots hf h _ ss _).symm hn

end

theorem WellKinded.number {n : Node} (h : n.WellKinded) (next : Nat) :
    (n.number next).1.WellKinded :=
  every_number (conforms_relabel numbering_keepsHeads) h next

theorem WellKinded.unmarked {n : Node} (h : n.WellKinded) : n.unmarked.WellKinded :=
  every_relabel (conforms_relabel unmarking_keepsHeads) none () n h

end Node

end Unravel
