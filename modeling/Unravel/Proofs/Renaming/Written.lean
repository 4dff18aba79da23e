import Unravel.Proofs.Renaming.Respell
import Unravel.Proofs.Renaming.Unwrap
import Unravel.Proofs.Tree.Relabel

/-! What a well-kinded tree writes under other names. Method names stay, since they are names of
properties; so a tree writes the same variables as before, under their other names. -/

namespace Unravel

open Node

/-! The grammar asks for kinds only. -/

def Demand.admitsKinds : Demand → Slot Kind → Bool
  | .one r, .one (some k) => r.admits k
  | .maybe r, .one k => k.all r.admits
  | .many r, .many ks => ks.all (·.any r.admits)
  | .sparse r, .many ks => ks.all (·.all r.admits)
  | _, _ => false

theorem Demand.admits_eq_kinds (d : Demand) (s : Slot Node) :
    d.admits s = d.admitsKinds (s.view kind) := by
  obtain (_ | c) | cs := s
  · cases d <;> rfl
  · cases d <;> rfl
  · cases d with
    | one | maybe => rfl
    | many => simp [admits, admitsKinds, Slot.view, Option.any_map, Function.comp_def]
    | sparse => simp [admits, admitsKinds, Slot.view, Option.all_map, Function.comp_def]

namespace Node

variable {ν : String → String} {h : Head}

/-! The slots of a node under other names. -/

theorem respellItems_eq (fixed : Bool) (cs : List (Option Node)) :
    respellItems ν fixed cs = cs.map (Option.map (respell ν fixed)) :=
  items_eq_map (respell ν fixed) (respellItems ν fixed) rfl (fun _ => rfl) (fun _ _ => rfl) cs

theorem respellSlots_cons (h : Head) (fs : List Field) (s : Slot Node) (ss : List (Slot Node)) :
    respellSlots ν h fs (s :: ss) =
      s.view (respell ν (h.fixes fs.head?)) :: respellSlots ν h fs.tail ss := by
  match s with
  | .one none => rfl
  | .one (some c) => rfl
  | .many cs => rw [respellSlots, respellItems_eq, Slot.view]

theorem rel_respellSlots {R : Node → Node → Prop} (h : Head) (fs : List Field)
    {ss : List (Slot Node)} (hR : ∀ c ∈ childrenOf ss, ∀ fixed, R c (c.respell ν fixed)) :
    List.Forall₂ (Slot.Rel R) ss (respellSlots ν h fs ss) :=
  Slot.Rel.of_slots (fun _ => rfl) (respellSlots_cons h) fs fun c hc field => hR c hc (h.fixes field)

theorem respellSlots_of_open (hopen : ∀ field, h.fixes field = false) (fs : List Field)
    (ss : List (Slot Node)) :
    respellSlots ν h fs ss = ss.map (Slot.view (respell ν false)) := by
  induction ss generalizing fs with
  | nil => rfl
  | cons s ss ih => rw [respellSlots_cons, hopen, ih, List.map_cons]

theorem children_of_open (hopen : ∀ field, h.fixes field = false) (fs : List Field)
    (ss : List (Slot Node)) :
    childrenOf (respellSlots ν h fs ss) = (childrenOf ss).map (respell ν false) := by
  rw [respellSlots_of_open hopen, childrenOf_map_view]

theorem conforms_respell {n : Node} (fixed : Bool) (hn : n.Conforms) :
    (n.respell ν fixed).Conforms := by
  obtain ⟨t, h, ss⟩ := n
  have hdemands : (if fixed then h else h.mapNames ν).demands = h.demands := by
    cases fixed <;> cases h <;> rfl
  have hkinds : (respellSlots ν h h.kind.fields ss).map (Slot.view kind) =
      ss.map (Slot.view kind) := by
    have hrel := rel_respellSlots (R := fun c c' => c'.kind = c.kind) h h.kind.fields
      fun c (_ : c ∈ childrenOf ss) flag => kind_respell (ν := ν) flag c
    exact Slot.Rel.map_view_eq hrel fun c _ c' hkind => hkind
  unfold Conforms at hn ⊢
  rw [respell]
  simp only [head, slots] at hn ⊢
  rw [hdemands]
  have hasked (us : List (Slot Node)) :
      List.Forall₂ (fun d s => d.admits s = true) h.demands us ↔
        List.Forall₂ (fun d ks => Demand.admitsKinds d ks = true) h.demands
          (us.map (Slot.view kind)) := by
    rw [List.forall₂_map_right_iff]
    simp only [Demand.admits_eq_kinds]
  rw [hasked, hkinds, ← hasked]
  exact hn

theorem WellKinded.respell {n : Node} (hn : n.WellKinded) (fixed : Bool) :
    (n.respell ν fixed).WellKinded := by
  induction n generalizing fixed with
  | h t h ss ih =>
    have hself := conforms_respell (ν := ν) fixed hn.self
    have hchildren := rel_respellSlots (R := fun _ c' => c'.WellKinded) h h.kind.fields
      fun c hc flag => ih c hc (hn.child hc) flag
    rw [Node.respell] at hself ⊢
    refine every_mk.mpr ⟨hself, everySlots_iff.mpr fun c' hc' => ?_⟩
    obtain ⟨-, -, hwell⟩ := Slot.Rel.exists_of_mem hchildren hc'
    exact hwell

end Node

/-! What is seen of a node under other names. -/

namespace Aspect

def map (ν : String → String) (a : Aspect) : Aspect where
  name := a.name.map ν
  text := a.text
  isMember := a.isMember
  root := a.root.map ν
  declared := a.declared.map ν
  names := a.names.map ν
  called := a.called.map ν

theorem targets_map {ν : String → String} (hν : Function.Injective ν) (h : Head)
    (as : List Aspect) : targets h (as.map (map ν)) = (targets h as).map ν := by
  cases h with
  | assignmentExpression operator =>
    match as with
    | [left, right] =>
      show targets _ [left.map ν, right.map ν] = _
      unfold targets
      simp only [map]
      cases hleft : left.name with
      | none => simp [Option.toList_map]
      | some a =>
        cases hright : right.name with
        | none => simp [Option.toList_map]
        | some b =>
          by_cases hop : operator = "="
          · subst hop
            have hsame : (ν a == ν b) = (a == b) := by
              rw [Bool.eq_iff_iff, beq_iff_eq, beq_iff_eq, hν.eq_iff]
            simp only [Option.map_some, hsame]
            split <;> rfl
          · simp [hop, Option.toList_map]
    | [] | [_] | _ :: _ :: _ :: _ => rfl
  | updateExpression =>
    match as with
    | [argument] => exact Option.toList_map
    | [] | _ :: _ :: _ => rfl
  | forInStatement =>
    match as with
    | left :: _ =>
      show (left.root.map ν).toList ++ left.names.map ν = (left.root.toList ++ left.names).map ν
      rw [Option.toList_map, List.map_append]
    | [] => rfl
  | unaryExpression operator =>
    by_cases hdelete : operator = "delete"
    · subst hdelete
      match as with
      | [argument] =>
        show (if argument.isMember then (argument.root.map ν).toList else []) =
          (if argument.isMember then argument.root.toList else []).map ν
        rw [Option.toList_map]
        split <;> rfl
      | [] | _ :: _ :: _ => rfl
    · have hnone (bs : List Aspect) : targets (.unaryExpression operator) bs = [] := by
        simp [targets, hdelete]
      rw [hnone, hnone]
      rfl
  | callExpression =>
    match as with
    | callee :: _ => rfl
    | [] => rfl
  | _ => rfl

end Aspect

namespace Node

variable {ν : String → String} {h : Head}

theorem name?_respell (n : Node) : (n.respell ν false).name? = n.name?.map ν := by
  obtain ⟨t, h, ss⟩ := n
  cases h <;> rfl

theorem text?_respell (fixed : Bool) (n : Node) : (n.respell ν fixed).text? = n.text? := by
  obtain ⟨t, h, ss⟩ := n
  cases h with
  | literal value => cases fixed <;> cases value <;> rfl
  | _ => cases fixed <;> rfl

theorem rootName?_respell (n : Node) : (n.respell ν false).rootName? = n.rootName?.map ν := by
  induction n with
  | h t h ss ih =>
    rw [respell, rootName?_mk, rootName?_mk]
    cases h with
    | memberExpression computed =>
      obtain _ | ⟨(_ | object) | cs, _ | ⟨s, _ | ⟨s', rest⟩⟩⟩ := ss
      case cons.one.some.cons.nil =>
        rw [respellSlots_cons, respellSlots_cons]
        exact ih object (by simp [childrenOf_cons])
      all_goals simp only [respellSlots_cons, respellSlots]; rfl
    | _ => rfl

theorem leadingName?_respell (ss : List (Slot Node)) :
    leadingName? (ss.map (Slot.view (respell ν false))) = (leadingName? ss).map ν := by
  match ss with
  | .one (some c) :: _ => exact name?_respell c
  | [] | .one none :: _ | .many _ :: _ => rfl

theorem declaredName?_respell (n : Node) :
    (n.respell ν false).declaredName? = n.declaredName?.map ν := by
  obtain ⟨t, h, ss⟩ := n
  cases h with
  | variableDeclarator =>
    have hopen (field : Option Field) : Head.variableDeclarator.fixes field = false := by
      cases field <;> rfl
    rw [respell, respellSlots_of_open hopen]
    exact leadingName?_respell ss
  | _ => rfl

theorem declaredNames_respell (n : Node) :
    (n.respell ν false).declaredNames = n.declaredNames.map ν := by
  obtain ⟨t, h, ss⟩ := n
  cases h with
  | variableDeclaration kind =>
    have hopen (field : Option Field) : (Head.variableDeclaration kind).fixes field = false := by
      cases field <;> rfl
    have hnames : declaredName? ∘ respell ν false = fun c => (declaredName? c).map ν := by
      funext c
      exact declaredName?_respell c
    show (childrenOf (respellSlots ν _ _ ss)).filterMap declaredName? =
      ((childrenOf ss).filterMap declaredName?).map ν
    rw [children_of_open hopen, List.filterMap_map, hnames, List.map_filterMap]
  | _ => rfl

def method? (computed : Bool) (property : Node) : Option String :=
  if computed then property.text? else property.name?.or property.text?

theorem called_member {t : Tag} {computed : Bool} {object property : Node} :
    (Node.memberExpression t computed object property).called =
      match method? computed property with
      | some method =>
        if arrayMutators.contains method then
          (Node.memberExpression t computed object property).rootName?.toList
        else []
      | none => [] := rfl

theorem method?_respell (computed : Bool) (property : Node) :
    method? computed (property.respell ν (!computed)) = method? computed property := by
  have htext := text?_respell (ν := ν) (!computed) property
  cases computed with
  | true => exact htext
  | false =>
    have hname : (property.respell ν true).name? = property.name? := by
      obtain ⟨t, h, ss⟩ := property
      cases h <;> rfl
    show (property.respell ν true).name?.or _ = property.name?.or _
    rw [hname]
    exact congrArg property.name?.or htext

theorem called_respell {n : Node} (hn : n.Conforms) :
    (n.respell ν false).called = n.called.map ν := by
  obtain ⟨t, h, ss⟩ := n
  cases h with
  | memberExpression computed =>
    obtain _ | ⟨hobject, _ | ⟨hproperty, _ | _⟩⟩ := hn
    obtain ⟨object, rfl, -⟩ := exists_of_demand hobject
    obtain ⟨property, rfl, -⟩ := exists_of_demand hproperty
    have hself : (Node.memberExpression t computed object property).respell ν false =
        Node.memberExpression t computed (object.respell ν false)
          (property.respell ν (!computed)) := by
      cases computed <;> rfl
    have hroot := rootName?_respell (ν := ν) (Node.memberExpression t computed object property)
    rw [hself] at hroot ⊢
    rw [called_member, called_member, method?_respell, hroot]
    cases method? computed property with
    | none => rfl
    | some method =>
      show (if arrayMutators.contains method then _ else []) =
        (if arrayMutators.contains method then _ else []).map ν
      rw [Option.toList_map]
      split <;> rfl
  | _ => rfl

theorem aspect_respell {n : Node} (hn : n.Conforms) :
    (n.respell ν false).aspect = n.aspect.map ν := by
  have hmember : (n.respell ν false).isMember = n.isMember :=
    congrArg (· == Kind.memberExpression) (kind_respell false n)
  unfold aspect Aspect.map
  rw [name?_respell, text?_respell, hmember, rootName?_respell, declaredName?_respell,
    declaredNames_respell, called_respell hn]

/-! A node writes nothing through a fixed name: where it writes, no name of its children is fixed.
-/

theorem targets_eq_nil {field : Option Field} (hfixes : h.fixes field = true)
    (as : List Aspect) : Aspect.targets h as = [] := by
  cases field with
  | none => cases hfixes
  | some field =>
    cases h with
    | assignmentExpression | updateExpression | unaryExpression | callExpression
    | forInStatement => cases hfixes
    | _ => rfl

theorem targets_respell (hν : Function.Injective ν) {n : Node} (hn : n.WellKinded)
    (fixed : Bool) : (n.respell ν fixed).targets = n.targets.map ν := by
  obtain ⟨t, h, ss⟩ := n
  have hhead (as : List Aspect) :
      Aspect.targets (if fixed then h else h.mapNames ν) as = Aspect.targets h as := by
    cases fixed with
    | true => rfl
    | false => cases h <;> rfl
  rw [respell]
  unfold targets
  simp only [head, slots]
  rw [hhead]
  by_cases hopen : ∃ field, h.fixes field = true
  · obtain ⟨field, hfixes⟩ := hopen
    rw [targets_eq_nil hfixes, targets_eq_nil hfixes]
    rfl
  · have haspects : ((childrenOf ss).map (respell ν false)).map aspect =
        ((childrenOf ss).map aspect).map (Aspect.map ν) := by
      rw [List.map_map, List.map_map]
      exact List.map_congr_left fun c hc => aspect_respell (hn.child hc).self
    have hopen (field : Option Field) : h.fixes field = false := by
      rw [← Bool.not_eq_true]
      exact fun hfixes => hopen ⟨field, hfixes⟩
    rw [children_of_open hopen, haspects, Aspect.targets_map hν]

theorem writes_respell (hν : Function.Injective ν) {n : Node} (hn : n.WellKinded) (fixed : Bool) :
    List.Forall₂ (fun c c' => c'.targets = c.targets.map ν) n.walk (n.respell ν fixed).walk := by
  induction n generalizing fixed with
  | h t h ss ih =>
    have hself := targets_respell hν hn fixed
    have hchildren := rel_respellSlots
      (R := fun c c' => List.Forall₂ (fun c c' => c'.targets = c.targets.map ν) c.walk c'.walk)
      h h.kind.fields fun c hc flag => ih c hc (hn.child hc) flag
    rw [Node.respell] at hself ⊢
    exact .cons hself (Slot.Rel.forall₂_walkSlots hchildren)

theorem mutatedNames_respell (hν : Function.Injective ν) {n : Node} (hn : n.WellKinded) :
    ∃ names, n.mutatedNames = .ok names ∧
      (n.respell ν false).mutatedNames = .ok (names.map ν) := by
  refine ⟨_, mutatedNames_eq hn, ?_⟩
  have hflat (cs cs' : List Node)
      (hwrites : List.Forall₂ (fun c c' => c'.targets = c.targets.map ν) cs cs') :
      cs'.flatMap targets = (cs.flatMap targets).map ν := by
    induction hwrites with
    | nil => rfl
    | cons hself _ ih => rw [List.flatMap_cons, hself, ih, List.flatMap_cons, List.map_append]
  rw [mutatedNames_eq (WellKinded.respell hn false), hflat _ _ (writes_respell hν hn false),
    eraseDups_map hν]

end Node
end Unravel
