import Unravel.Proofs.Grammar.Safe

/-! What a well-kinded tree writes. The names that a node writes are read off its head and off a few
things that it sees of its children, and what is seen of a node is read off its children in the same
way. -/

namespace Unravel

/-- What is seen of a node by the nodes around it that may write to it. -/
structure Aspect where
  name : Option String
  text : Option String
  isMember : Bool
  root : Option String
  declared : Option String
  names : List String
  called : List String

def Aspect.targets : Head → List Aspect → List String
  | .assignmentExpression operator, [left, right] =>
    match operator, left.name, right.name with
    | "=", some a, some b => if a == b then [] else [a]
    | _, _, _ => left.root.toList
  | .updateExpression _ _, [argument] => argument.root.toList
  | .forInStatement, left :: _ => left.root.toList ++ left.names
  | .unaryExpression "delete", [argument] => if argument.isMember then argument.root.toList else []
  | .callExpression, callee :: _ => callee.called
  | _, _ => []

namespace Node

def text? : Node → Option String
  | .mk _ (.literal (.str s)) _ => some s
  | _ => none

def declaredNames (n : Node) : List String :=
  if n.kind = .variableDeclaration then (childrenOf n.slots).filterMap declaredName? else []

/-- The names that are written when the node is called: its method may change an array in place. -/
def called (n : Node) : List String :=
  match n.head, (childrenOf n.slots).map name?, (childrenOf n.slots).map text? with
  | .memberExpression computed, [_, name], [_, text] =>
    match if computed then text else name.or text with
    | some method => if arrayMutators.contains method then n.rootName?.toList else []
    | none => []
  | _, _, _ => []

def aspect (n : Node) : Aspect where
  name := n.name?
  text := n.text?
  isMember := n.isMember
  root := n.rootName?
  declared := n.declaredName?
  names := n.declaredNames
  called := n.called

def targets (n : Node) : List String := Aspect.targets n.head ((childrenOf n.slots).map aspect)

variable {t t' : Tag} {h : Head} {ss ss' : List (Slot Node)}

/-! What is seen of a node is a view. -/

def rootIn : Head → List (Slot (Option String)) → Option String
  | .memberExpression _, [.one (some root), _] => root
  | .identifier name, _ => some name
  | _, _ => none

theorem rootName?_mk (t : Tag) (h : Head) (ss : List (Slot Node)) :
    (Node.mk t h ss).rootName? = rootIn h (ss.map (Slot.view rootName?)) := by
  cases h with
  | memberExpression computed =>
    obtain _ | ⟨(_ | object) | cs, _ | ⟨s, _ | ⟨s', ss⟩⟩⟩ := ss
    case cons.one.some.cons.nil =>
      rw [rootName?]
      rfl
    all_goals rfl
  | _ => rfl

theorem isView_rootName? : IsView rootName? := by
  intro t t' h ss ss' hview
  rw [rootName?_mk, rootName?_mk, hview]

theorem declaredNames_congr
    (hview : ss.map (Slot.view declaredName?) = ss'.map (Slot.view declaredName?)) :
    (Node.mk t h ss).declaredNames = (Node.mk t' h ss').declaredNames := by
  have hnames : (childrenOf ss).filterMap declaredName? = (childrenOf ss').filterMap declaredName? :=
    filterMap_children_congr hview
  exact congrArg (fun names => if h.kind = .variableDeclaration then names else []) hnames

theorem called_congr (hroot : ss.map (Slot.view rootName?) = ss'.map (Slot.view rootName?))
    (hname : ss.map (Slot.view name?) = ss'.map (Slot.view name?))
    (htext : ss.map (Slot.view text?) = ss'.map (Slot.view text?)) :
    (Node.mk t h ss).called = (Node.mk t' h ss').called := by
  unfold called
  simp only [head, slots, children_view, hname, htext, isView_rootName? t t' h ss ss' hroot]

theorem isView_aspect : IsView aspect := by
  intro t t' h ss ss' hview
  have hname : ss.map (Slot.view name?) = ss'.map (Slot.view name?) :=
    map_view_comp Aspect.name hview
  have htext : ss.map (Slot.view text?) = ss'.map (Slot.view text?) :=
    map_view_comp Aspect.text hview
  have hroot : ss.map (Slot.view rootName?) = ss'.map (Slot.view rootName?) :=
    map_view_comp Aspect.root hview
  have hdeclared : ss.map (Slot.view declaredName?) = ss'.map (Slot.view declaredName?) :=
    map_view_comp Aspect.declared hview
  have hself : (Node.mk t h ss).name? = (Node.mk t' h ss').name? := by cases h <;> rfl
  have hliteral : (Node.mk t h ss).text? = (Node.mk t' h ss').text? := by
    cases h with
    | literal value => cases value <;> rfl
    | _ => rfl
  have hdeclarator : (Node.mk t h ss).declaredName? = (Node.mk t' h ss').declaredName? :=
    declaredName?_congr hname
  have hnames : (Node.mk t h ss).declaredNames = (Node.mk t' h ss').declaredNames :=
    declaredNames_congr hdeclared
  have hcalled : (Node.mk t h ss).called = (Node.mk t' h ss').called :=
    called_congr hroot hname htext
  unfold aspect
  rw [hself, hliteral, isView_rootName? t t' h ss ss' hroot, hdeclarator, hnames, hcalled]
  rfl

theorem targets_congr (hview : ss.map (Slot.view aspect) = ss'.map (Slot.view aspect)) :
    (Node.mk t h ss).targets = (Node.mk t' h ss').targets := by
  unfold targets
  simp only [head, slots, children_view, hview]

/-! The names that the tree is found to write are these. -/

theorem slots_eq_nil (hn : (Node.mk t h ss).Conforms) (hleaf : h.demands = []) : ss = [] := by
  unfold Conforms at hn
  simp only [head, slots, hleaf] at hn
  cases hn
  rfl

theorem eq_identifier {c : Node} {name : String} (hname : c.name? = some name) (hc : c.Conforms) :
    ∃ t, c = .identifier t name := by
  obtain ⟨t, h, ss⟩ := c
  cases h with
  | identifier =>
    cases hname
    cases slots_eq_nil hc rfl
    exact ⟨t, rfl⟩
  | _ => cases hname

theorem writes_assignment {operator : String} {left right : Node} (hleft : left.Conforms)
    (hright : right.Conforms) : (Node.assignmentExpression t operator left right).writes =
      .ok (Aspect.targets (.assignmentExpression operator) [left.aspect, right.aspect]) := by
  unfold Aspect.targets
  simp only
  split
  · rename_i ha hb
    obtain ⟨u, rfl⟩ := eq_identifier ha hleft
    obtain ⟨v, rfl⟩ := eq_identifier hb hright
    rfl
  · rename_i hother
    unfold writes
    split
    · rename_i heq
      cases heq
      exact absurd rfl (hother _ _ rfl rfl)
    · rename_i heq
      cases heq
      rfl
    all_goals grind

theorem mapM_declaredName {kind : String} {declarations : List (Option Node)}
    (hn : (Node.variableDeclaration t kind declarations).WellKinded) :
    declarations.mapM declaredName =
      .ok (Node.variableDeclaration t kind declarations).declaredNames := by
  have hdeclared : ∀ d ∈ declarations, ∃ c name, d = some c ∧ declaredName d = .ok name ∧
      c.declaredName? = some name := by
    intro d hd
    obtain ⟨name, hname⟩ := declaredName_defined hn hd
    unfold declaredName at hname
    split at hname
    · cases hname
      exact ⟨_, _, rfl, rfl, rfl⟩
    · cases hname
  have hchildren : (Node.variableDeclaration t kind declarations).declaredNames =
      (declarations.filterMap id).filterMap declaredName? := by
    simp [declaredNames, Node.kind, head, Head.kind, slots, childrenOf, Slot.children]
  rw [hchildren]
  clear hn hchildren
  induction declarations with
  | nil => rfl
  | cons d ds ih =>
    obtain ⟨⟨c, name, rfl, hname, hc⟩, hrest⟩ := List.forall_mem_cons.mp hdeclared
    rw [List.mapM_cons, hname, ih hrest]
    simp [hc, bind, Except.bind, pure, Except.pure]

theorem called_eq {callee : Node} (hcallee : callee.WellKinded) {rest : List (Slot Node)} :
    (Node.mk t .callExpression (.one (some callee) :: rest)).writes = .ok callee.called := by
  obtain ⟨u, g, ss⟩ := callee
  cases g with
  | memberExpression computed =>
    obtain _ | ⟨hobject, _ | ⟨hproperty, _ | _⟩⟩ := hcallee.self
    obtain ⟨object, rfl, -⟩ := exists_of_demand hobject
    obtain ⟨⟨v, k, ps⟩, rfl, -⟩ := exists_of_demand hproperty
    have hleaf : (Node.mk v k ps).Conforms := hcallee _ (mem_walk_of_slot (by simp))
    have hname : (Node.memberExpression u computed object (.mk v k ps)).memberName? =
        if computed then (Node.mk v k ps).text?
        else (Node.mk v k ps).name?.or (Node.mk v k ps).text? := by
      cases k with
      | identifier name =>
        cases slots_eq_nil hleaf rfl
        cases computed <;> rfl
      | literal value =>
        cases slots_eq_nil hleaf rfl
        cases computed <;> cases value <;> rfl
      | _ => cases computed <;> rfl
    have hroot : (Node.memberExpression u computed object (.mk v k ps)).rootName? =
        object.rootName? := by rw [rootName?]
    change Except.ok (match (Node.memberExpression u computed object (.mk v k ps)).memberName? with
        | some name => if arrayMutators.contains name then object.rootName?.toList else []
        | none => []) = .ok (match if computed then (Node.mk v k ps).text?
          else (Node.mk v k ps).name?.or (Node.mk v k ps).text? with
        | some name => if arrayMutators.contains name then
            (Node.memberExpression u computed object (.mk v k ps)).rootName?.toList else []
        | none => [])
    rw [hname, hroot]
  | _ => rfl

theorem writes_eq {n : Node} (hn : n.WellKinded) : n.writes = .ok n.targets := by
  obtain ⟨t, h, ss⟩ := n
  cases h with
  | assignmentExpression operator =>
    obtain _ | ⟨hleft, _ | ⟨hright, _ | _⟩⟩ := hn.self
    obtain ⟨left, rfl, -⟩ := exists_of_demand hleft
    obtain ⟨right, rfl, -⟩ := exists_of_demand hright
    exact writes_assignment (hn _ (mem_walk_of_slot (by simp))) (hn _ (mem_walk_of_slot (by simp)))
  | updateExpression operator before =>
    obtain _ | ⟨hargument, _ | _⟩ := hn.self
    obtain ⟨argument, rfl, -⟩ := exists_of_demand hargument
    rfl
  | forInStatement =>
    obtain _ | ⟨hleft, -⟩ := hn.self
    obtain ⟨⟨u, g, ls⟩, rfl, -⟩ := exists_of_demand hleft
    have hwell : (Node.mk u g ls).WellKinded := hn.below (mem_walk_of_slot (by simp))
    cases g with
    | variableDeclaration kind =>
      obtain _ | ⟨hmany, _ | _⟩ := hwell.self
      rename_i s
      match s with
      | .many declarations => exact mapM_declaredName hwell
    | _ => exact congrArg Except.ok (List.append_nil _).symm
  | unaryExpression operator =>
    obtain _ | ⟨hargument, _ | _⟩ := hn.self
    obtain ⟨argument, rfl, -⟩ := exists_of_demand hargument
    by_cases hdelete : operator = "delete"
    · subst hdelete
      rfl
    · change _ = Except.ok (Aspect.targets (.unaryExpression operator) [argument.aspect])
      simp [writes, Aspect.targets, hdelete]
  | callExpression =>
    obtain _ | ⟨hcallee, -⟩ := hn.self
    obtain ⟨callee, rfl, -⟩ := exists_of_demand hcallee
    exact called_eq (hn.below (mem_walk_of_slot (by simp)))
  | _ => rfl

theorem mutatedNames_eq {tree : Node} (h : tree.WellKinded) :
    tree.mutatedNames = .ok (tree.walk.flatMap targets).eraseDups := by
  have hmap (ns : List Node) (hns : ∀ n ∈ ns, n.writes = .ok n.targets) :
      ns.mapM writes = .ok (ns.map targets) := by
    induction ns with
    | nil => rfl
    | cons n ns ih =>
      obtain ⟨hfirst, hrest⟩ := List.forall_mem_cons.mp hns
      rw [List.mapM_cons, hfirst, ih hrest]
      rfl
  unfold mutatedNames
  rw [hmap tree.walk fun n hn => writes_eq (h.below hn), List.flatMap_def]
  rfl

/-- The names that a well-kinded tree writes are those that its nodes write. -/
theorem mem_mutatedNames {tree : Node} {names : List String} (h : tree.WellKinded)
    (hnames : tree.mutatedNames = .ok names) {x : String} :
    x ∈ names ↔ ∃ c ∈ tree.walk, x ∈ c.targets := by
  rw [mutatedNames_eq h] at hnames
  cases hnames
  rw [List.mem_eraseDups, List.mem_flatMap]

/-! New tags do not matter. -/

section
variable {τ : Type} {f : Relabel τ}

theorem targets_relabel (hf : f.KeepsHeads) (names : List String) :
    f.Carries (·.targets ⊆ names) (·.targets ⊆ names) := by
  rintro seat ⟨t, h, ss⟩ s hn
  have hhead : (f seat t h s).1.2 = h := hf seat t h s
  have hsame : (relabel f seat (.mk t h ss) s).1.targets = (Node.mk t h ss).targets := by
    simp only [relabel, hhead]
    exact targets_congr (view_relabelSlots hf isView_aspect h _ _ ss)
  rwa [hsame]

end

end Node

/-! Statements are not seen from above, and a node writes nothing through its statements. -/

theorem Head.role_ne_statement {h : Head} {d : Demand} (hd : d ∈ h.demands)
    (hkind : h.kind.isExpression = true ∨ h.kind = .variableDeclaration ∨
      h.kind = .variableDeclarator) : d.role ≠ .statement := by
  have hall : h.demands.all (·.role != .statement) = true := by
    cases h with
    | memberExpression computed => cases computed <;> rfl
    | _ => first | rfl | (rcases hkind with hkind | hkind | hkind <;> cases hkind)
  simpa using List.all_eq_true.mp hall d hd

theorem Head.aspect_of_statement {h : Head} {d : Demand} (hd : d ∈ h.demands)
    (hrole : d.role = .statement) (t t' : Tag) (ss ss' : List (Slot Node)) :
    (Node.mk t h ss).aspect = (Node.mk t' h ss').aspect := by
  cases h with
  | identifier | literal | memberExpression =>
    exact absurd hrole (role_ne_statement hd (.inl rfl))
  | variableDeclaration => exact absurd hrole (role_ne_statement hd (.inr (.inl rfl)))
  | variableDeclarator => exact absurd hrole (role_ne_statement hd (.inr (.inr rfl)))
  | _ => rfl

namespace Frame

open Node

variable {f : Frame} {n : Node} {ns : List Node} {d : Demand}

theorem aspect_plugAll (hd : f.demand? = some d) (hrole : d.role = .statement) :
    (f.plug n).aspect = (f.plugAll ns).aspect :=
  Head.aspect_of_statement (List.mem_of_getElem? hd) hrole ..

theorem targets_plugAll (hconforms : (f.plug n).Conforms) (hd : f.demand? = some d)
    (hrole : d.role = .statement) : (f.plug n).targets = (f.plugAll ns).targets := by
  obtain ⟨t, h, before, hole, after⟩ := f
  have hmem : d ∈ h.demands := List.mem_of_getElem? hd
  cases h with
  | assignmentExpression | updateExpression | unaryExpression | callExpression =>
    exact absurd hrole (Head.role_ne_statement hmem (.inl rfl))
  | forInStatement =>
    cases hbefore : before.reverse with
    | nil =>
      cases List.reverse_eq_nil_iff.mp hbefore
      cases hd
      cases hrole
    | cons s rest =>
      simp only [plug, plugAll, hbefore, List.cons_append] at hconforms ⊢
      obtain _ | ⟨hs, -⟩ := hconforms
      obtain ⟨left, rfl, -⟩ := exists_of_demand hs
      rfl
  | _ => rfl

end Frame
end Unravel
