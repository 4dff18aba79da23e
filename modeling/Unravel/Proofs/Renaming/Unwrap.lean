import Unravel.Proofs.Renaming.Inline
import Unravel.Proofs.Tree.Children
import Unravel.Rule.Unwrap

/-! Loops, written names and the rules that take wrappers off, under other names. A method that
changes an array in place is known by the name of a property, so the names of properties have to stay
as they are. -/

namespace Unravel

open Node

variable {ν : String → String}

namespace Node

theorem option_mapNames_involutive (hν : Function.Involutive ν) :
    Function.Involutive (Option.map (mapNames ν)) := by
  intro c
  simp [Function.comp_def, mapNames_mapNames hν]

def Steady (ν : String → String) (c : Node) : Prop :=
  ∀ t object u name, c = .memberExpression t false object (.identifier u name) → ν name = name

theorem Steady.mapNames (hν : Function.Involutive ν) {c : Node} (h : c.Steady ν) :
    (c.mapNames ν).Steady ν := by
  intro t object u name heq
  have hback : c = .memberExpression t false (object.mapNames ν) (.identifier u (ν name)) := by
    rw [← c.mapNames_mapNames hν, heq]
    rfl
  have hfixed := h _ _ _ _ hback
  rw [hν] at hfixed
  exact hfixed.symm

theorem every_steady_mapNames (hν : Function.Involutive ν) {n : Node} (h : n.Every (Steady ν)) :
    (n.mapNames ν).Every (Steady ν) := by
  intro c hc
  rw [walk_mapNames] at hc
  obtain ⟨d, hd, rfl⟩ := List.mem_map.mp hc
  exact (h d hd).mapNames hν

theorem rootName?_mapNames (n : Node) : (n.mapNames ν).rootName? = n.rootName?.map ν := by
  induction n with
  | h t hd ss ih =>
    rw [mapNames_mk]
    cases hd with
    | memberExpression computed =>
      obtain _ | ⟨(_ | object) | cs, _ | ⟨s, _ | ⟨s', ss⟩⟩⟩ := ss
      case cons.one.some.cons.nil =>
        simp only [List.map_cons, List.map_nil, Slot.mapNames_one, Option.map_some, Head.mapNames,
          rootName?]
        exact ih object (by simp [childrenOf_cons])
      all_goals rfl
    | _ => rfl

theorem memberName?_mapNames (hν : Function.Involutive ν) {n : Node} (h : n.Steady ν) :
    (n.mapNames ν).memberName? = n.memberName? := by
  refine commutes_of_forward (φ := id) (mapNames_mapNames hν) (fun _ => rfl)
    (fun _ hc => hc.mapNames hν) (F := memberName?) (d := none) rfl (fun c hc => ?_) h
  unfold memberName?
  split
  · rename_i t object u name
    refine .inr ?_
    have hname : ν name = name := hc _ _ _ _ rfl
    simp [Head.mapNames, hname]
  · refine .inr ?_
    simp [Head.mapNames]
  · exact .inl rfl

theorem declaredName_mapNames (hν : Function.Involutive ν) (declarator : Option Node) :
    declaredName (declarator.map (mapNames ν)) = (declaredName declarator).map ν := by
  refine commutes_of_forward (option_mapNames_involutive hν) (Except.map_involutive hν)
    (P := fun _ => True) (fun _ _ => trivial) (F := declaredName) (d := .error .malformed) rfl
    (fun c _ => ?_) trivial
  unfold declaredName
  split
  · refine .inr ?_
    simp [Head.mapNames, Except.map]
  · exact .inl rfl

@[simp] theorem isMember_mapNames (n : Node) : (n.mapNames ν).isMember = n.isMember := by
  rw [isMember, kind_mapNames, isMember]

theorem toList_map_rootName? (n : Node) :
    (n.mapNames ν).rootName?.toList = n.rootName?.toList.map ν := by
  rw [rootName?_mapNames]
  cases n.rootName? <;> rfl

theorem eq_identifier_of_mapNames (hν : Function.Involutive ν) {n : Node} {t : Tag} {name : String}
    (h : n.mapNames ν = .identifier t name) : n = .identifier t (ν name) := by
  rw [← n.mapNames_mapNames hν, h]
  rfl

theorem writes_mapNames (hν : Function.Involutive ν) {n : Node} (h : n.Every (Steady ν)) :
    (n.mapNames ν).writes = n.writes.map (List.map ν) := by
  have hlists : Function.Involutive (List.map ν) := hν.list_map
  refine commutes_of_forward (mapNames_mapNames hν) (Except.map_involutive hlists)
    (fun _ hc => every_steady_mapNames hν hc) (F := writes) (d := .ok []) rfl (fun n hn => ?_) h
  generalize hx : n.writes = x
  unfold writes at hx
  split at hx
  · rename_i t u left v right
    subst hx
    refine .inr ?_
    have hsame : (ν left == ν right) = (left == right) := by
      rw [Bool.eq_iff_iff, beq_iff_eq, beq_iff_eq, hν.injective.eq_iff]
    simp only [mapNames_mk, List.map_cons, List.map_nil, Slot.mapNames_one, Option.map_some,
      Head.mapNames, writes, hsame]
    split <;> rfl
  · rename_i operator left rest hother
    subst hx
    refine .inr ?_
    simp only [mapNames_mk, List.map_cons, Slot.mapNames_one, Option.map_some,
      Head.mapNames]
    rw [writes]
    · exact congrArg Except.ok left.toList_map_rootName?
    · intro u a v b hop hrest hleft
      have hslots := congrArg (List.map (Slot.mapNames ν)) hrest
      rw [(Slot.mapNames_involutive hν).list_map rest] at hslots
      exact hother u (ν a) v (ν b) hop hslots (eq_identifier_of_mapNames hν hleft)
  · subst hx
    refine .inr ?_
    simp only [mapNames_mk, List.map_cons, List.map_nil, Slot.mapNames_one, Option.map_some,
      Head.mapNames, writes]
    exact congrArg Except.ok (toList_map_rootName? _)
  · subst hx
    refine .inr ?_
    simp only [mapNames_mk, List.map_cons, List.map_nil, Slot.mapNames_one, Slot.mapNames_many,
      Option.map_some, Head.mapNames, writes]
    exact mapM_map _ fun d _ => declaredName_mapNames hν d
  · rename_i left rest hother
    subst hx
    refine .inr ?_
    simp only [mapNames_mk, List.map_cons, Slot.mapNames_one, Option.map_some,
      Head.mapNames]
    rw [writes]
    · exact congrArg Except.ok left.toList_map_rootName?
    · intro u kind declarations hleft
      have hback := congrArg (mapNames ν) hleft
      rw [mapNames_mapNames hν, mapNames_mk] at hback
      exact hother _ _ _ hback
  · subst hx
    refine .inr ?_
    simp only [mapNames_mk, List.map_cons, List.map_nil, Slot.mapNames_one, Option.map_some,
      Head.mapNames, writes, isMember_mapNames, toList_map_rootName?]
    split <;> rfl
  · rename_i t u computed object property rest
    subst hx
    refine .inr ?_
    have hmember := memberName?_mapNames hν
      (hn (.memberExpression u computed object property) (by simp [walk, walkSlots]))
    simp only [mapNames_mk, List.map_cons, List.map_nil, Slot.mapNames_one, Option.map_some,
      Head.mapNames, toList_map_rootName?, writes] at hmember ⊢
    rw [Node.memberExpression, hmember]
    cases (Node.memberExpression u computed object property).memberName? with
    | none => rfl
    | some name =>
      dsimp only
      split <;> rfl
  · exact .inl hx.symm

theorem eraseDups_map (hν : Function.Injective ν) : (names : List String) →
    (names.map ν).eraseDups = names.eraseDups.map ν
  | [] => rfl
  | a :: as => by
    have hother : (fun b => !b == ν a) ∘ ν = fun b => !b == a := by
      funext b
      rw [Function.comp_apply, Bool.eq_iff_iff]
      simp [hν.eq_iff]
    rw [List.map_cons, List.eraseDups_cons, List.filter_map, hother,
      eraseDups_map hν (as.filter fun b => !b == a), List.eraseDups_cons, List.map_cons]
termination_by names => names.length
decreasing_by exact Nat.lt_succ_of_le (List.length_filter_le _ _)

theorem mutatedNames_mapNames (hν : Function.Involutive ν) {tree : Node}
    (h : tree.Every (Steady ν)) :
    (tree.mapNames ν).mutatedNames = tree.mutatedNames.map (List.map ν) := by
  unfold mutatedNames
  rw [walk_mapNames, mapM_map _ fun c hc => writes_mapNames hν (h.below hc)]
  refine bind_map fun names _ => congrArg Except.ok ?_
  rw [← List.map_flatten, eraseDups_map hν.injective]

end Node

namespace Loop

theorem counter?_mapNames (hν : Function.Involutive ν) (init : Option Node) :
    counter? (init.map (mapNames ν)) = (counter? init).map (Option.map (Prod.map ν id)) := by
  have hpair : Function.Involutive (Option.map (Prod.map ν (id : Number → Number))) := by
    rintro (_ | ⟨name, start⟩)
    · rfl
    · simp [hν name]
  refine commutes_of_forward (Node.option_mapNames_involutive hν) (Except.map_involutive hpair)
    (P := fun _ => True) (fun _ _ => trivial) (F := counter?) (d := .ok none) rfl
    (fun init _ => ?_) trivial
  unfold counter?
  split
  · rename_i declarator
    refine .inr ?_
    simp only [Option.map_some, mapNames_mk, List.map_cons, List.map_nil, Slot.mapNames_many,
      Head.mapNames]
    match declarator with
    | none => rfl
    | some (.mk u h ss) =>
      rw [Option.map_some, mapNames_mk]
      cases h with
      | variableDeclarator =>
        match ss with
        | .one id :: .one (some (.mk w k ps)) :: rest =>
          simp only [List.map_cons, Slot.mapNames_one, Option.map_some, mapNames_mk]
          cases k with
          | literal v =>
            match v, ps, rest with
            | .number start, [], [] =>
              match id with
              | none => rfl
              | some (.mk x i is) => cases i <;> rfl
            | .number _, [], _ :: _ | .number _, _ :: _, _ | .undefined, _, _ | .null, _, _
            | .bool _, _, _ | .str _, _, _ | .foreign _, _, _ => rfl
          | _ => rfl
        | [] | [.one _] | [.many _] | .many _ :: _ :: _ | .one _ :: .one none :: _
        | .one _ :: .many _ :: _ => rfl
      | _ => rfl
  · refine .inr ?_
    simp [Head.mapNames, Except.map]
  · exact .inl rfl

theorem test?_mapNames (hν : Function.Involutive ν) (name : String) (test : Option Node) :
    test? (ν name) (test.map (mapNames ν)) = test? name test := by
  refine commutes_of_forward (s := Prod.map ν (Option.map (mapNames ν))) (φ := id)
    (hν.prodMap (Node.option_mapNames_involutive hν)) (fun _ => rfl) (P := fun _ => True)
    (fun _ _ => trivial) (F := fun p => test? p.1 p.2) (d := none) (a := (name, test)) rfl
    (fun p _ => ?_) trivial
  obtain ⟨name, test⟩ := p
  have hsame (counter : String) : (ν counter == ν name) = (counter == name) := by
    rw [Bool.eq_iff_iff, beq_iff_eq, beq_iff_eq, hν.injective.eq_iff]
  dsimp only [Prod.map]
  unfold test?
  split
  · split
    · exact .inl rfl
    · rename_i hcompares
      split
      · refine .inr ?_
        simp only [Option.map_some, mapNames_mk, List.map_cons, List.map_nil, Slot.mapNames_one,
          Head.mapNames, hcompares, hsame]
        rfl
      · refine .inr ?_
        simp only [Option.map_some, mapNames_mk, List.map_cons, List.map_nil, Slot.mapNames_one,
          Head.mapNames, hcompares, hsame]
        rfl
      · exact .inl rfl
  · exact .inl rfl

theorem step?_mapNames (hν : Function.Involutive ν) (name : String) (update : Option Node) :
    step? (ν name) (update.map (mapNames ν)) = step? name update := by
  refine commutes_of_forward (s := Prod.map ν (Option.map (mapNames ν))) (φ := id)
    (hν.prodMap (Node.option_mapNames_involutive hν)) (fun _ => rfl) (P := fun _ => True)
    (fun _ _ => trivial) (F := fun p => step? p.1 p.2) (d := none) (a := (name, update)) rfl
    (fun p _ => ?_) trivial
  obtain ⟨name, update⟩ := p
  have hsame (counter : String) : (ν counter == ν name) = (counter == name) := by
    rw [Bool.eq_iff_iff, beq_iff_eq, beq_iff_eq, hν.injective.eq_iff]
  dsimp only [Prod.map]
  unfold step?
  split
  · refine .inr ?_
    simp only [Option.map_some, mapNames_mk, List.map_cons, List.map_nil, Slot.mapNames_one,
      Head.mapNames, hsame]
    rfl
  · refine .inr ?_
    simp only [Option.map_some, mapNames_mk, List.map_cons, List.map_nil, Slot.mapNames_one,
      Head.mapNames, hsame]
    rfl
  · exact .inl rfl

theorem tripCount?_mapNames (hν : Function.Involutive ν) {n : Node} (h : n.Every (Steady ν)) :
    tripCount? (n.mapNames ν) = tripCount? n := by
  refine commutes_of_forward (φ := id) (mapNames_mapNames hν) (fun _ => rfl)
    (fun _ hc => every_steady_mapNames hν hc) (F := tripCount?) (d := .ok none) rfl
    (fun n hn => ?_) h
  generalize hx : tripCount? n = x
  unfold tripCount? at hx
  split at hx
  · rename_i t init test update body
    refine .inr ?_
    subst hx
    simp only [mapNames_mk, List.map_cons, List.map_nil, Slot.mapNames_one, Head.mapNames,
      tripCount?, counter?_mapNames hν, id_eq]
    refine bind_map_eq fun counter _ => ?_
    cases counter with
    | none => rfl
    | some counter =>
      obtain ⟨name, start⟩ := counter
      simp only [Option.map_some, Prod.map, test?_mapNames hν, step?_mapNames hν, id_eq]
      cases test? name test with
      | none => rfl
      | some test =>
        cases step? name update with
        | none => rfl
        | some step =>
          cases body with
          | none => rfl
          | some body =>
            have hbody : body.Every (Steady ν) := hn.child (by simp [childrenOf, Slot.children])
            simp only [Option.map_some, mutatedNames_mapNames hν hbody]
            refine bind_map_eq fun names _ => ?_
            rw [Site.contains_map hν.injective]
  · exact .inl hx.symm

theorem executesOnce_mapNames (hν : Function.Involutive ν) {n : Node} (h : n.Every (Steady ν)) :
    executesOnce (n.mapNames ν) = executesOnce n := by
  refine commutes_of_forward (φ := id) (mapNames_mapNames hν) (fun _ => rfl)
    (fun _ hc => every_steady_mapNames hν hc) (F := executesOnce) (d := .ok false) rfl
    (fun n hn => ?_) h
  generalize hx : executesOnce n = x
  unfold executesOnce at hx
  split at hx
  · refine .inr ?_
    simp only [mapNames_mk, List.map_cons, List.map_nil, Slot.mapNames_one, Option.map_some,
      Head.mapNames, executesOnce]
    exact hx
  · rename_i t ss
    refine .inr ?_
    have hcount := tripCount?_mapNames hν hn
    simp only [mapNames_mk, Head.mapNames, executesOnce] at hcount ⊢
    rw [hcount]
    exact hx
  · exact .inl hx.symm

end Loop

namespace Rule

theorem isDirective_mapNames (hν : Function.Involutive ν) (n : Node) :
    isDirective (n.mapNames ν) = isDirective n := by
  refine commutes_of_forward (φ := id) (mapNames_mapNames hν) (fun _ => rfl) (P := fun _ => True)
    (fun _ _ => trivial) (F := isDirective) (d := false) rfl (fun n _ => ?_) trivial
  unfold isDirective
  split
  · exact .inr rfl
  · exact .inl rfl

theorem mentionsSelf_mapNames (hν : Function.Injective ν) (id : Option Node) (body : Node) :
    mentionsSelf (id.map (mapNames ν)) (body.mapNames ν) = mentionsSelf id body := by
  have hnames : (body.mapNames ν).walk.filterMap name? = (body.walk.filterMap name?).map ν := by
    rw [walk_mapNames, List.filterMap_map, List.map_filterMap]
    exact congrArg (List.filterMap · _) (funext fun c => c.name?_mapNames)
  cases id with
  | none => rfl
  | some id =>
    simp only [mentionsSelf, Option.map_some, hnames, name?_mapNames]
    cases id.name? with
    | none => simp
    | some self => exact congrArg Except.ok (Site.contains_map hν _ _)

theorem commutes_unwrapCall : Transform.Commutes ν unwrapCall := by
  refine Transform.commutes fun site n hfair => ?_
  have hinj := hfair.involutive.injective
  unfold unwrapCall
  split
  · rename_i id body
    refine .inr ?_
    simp only [mapNames_mk, List.map_cons, List.map_nil, Slot.mapNames_one, Slot.mapNames_many,
      Option.map_some, Head.mapNames, Site.inSequence_mapNames]
    split
    · rfl
    · cases body with
      | none => rfl
      | some body =>
        have hstatements := Node.statements_mapNames (ν := ν) (some body)
        simp only [Option.map_some, containsReturn_mapNames,
          usesFunctionContext_mapNames hinj hfair.arguments, mentionsSelf_mapNames hinj] at hstatements ⊢
        split
        · rfl
        · cases mentionsSelf id body with
          | error f => rfl
          | ok mentioned =>
            simp only [ok_bind]
            split
            · rfl
            · rw [hstatements]
              refine bind_map fun statements _ => ?_
              have hkept : (statements.map (mapNames ν)).dropWhile isDirective =
                  (statements.dropWhile isDirective).map (mapNames ν) := by
                rw [List.dropWhile_map]
                exact congrArg (List.map (mapNames ν))
                  (congrArg (List.dropWhile · statements) (funext (isDirective_mapNames hfair.involutive)))
              rw [hkept]
              cases statements.dropWhile isDirective <;> rfl
  · exact .inl rfl

theorem leadIn_mapNames (init : Option Node) :
    leadIn (init.map (mapNames ν)) = (leadIn init).map (mapNames ν) := by
  match init with
  | none => rfl
  | some (.mk t h ss) =>
    rw [Option.map_some, mapNames_mk]
    cases h <;> simp [leadIn, asStatement, Head.mapNames, loc, tag]

/-- Where the names of properties stay, so do the answers about loops. -/
theorem unwrapLoop_mapNames (site : Site) (n : Node) (hfair : Fair ν site.settings)
    (hn : n.Every (Steady ν)) :
    unwrapLoop (site.mapNames ν) (n.mapNames ν) = answerNames ν (unwrapLoop site n) := by
  have hν := hfair.involutive
  refine commutes_of_answers (fun c hc => every_steady_mapNames hν hc) (fun site n hfair hn => ?_)
    site n hfair hn
  generalize hx : unwrapLoop site n = x
  unfold unwrapLoop at hx
  split at hx
  · rename_i t u statement test
    refine .inr ?_
    subst hx
    have hexit := (Node.blockStatement u [some statement]).hasLoopExit_mapNames (ν := ν)
    have honce := Loop.executesOnce_mapNames hν hn
    simp only [mapNames_mk, List.map_cons, List.map_nil, Slot.mapNames_one, Slot.mapNames_many,
      Option.map_some, Head.mapNames, unwrapLoop] at hexit honce ⊢
    rw [Node.blockStatement, hexit, honce]
    split
    · rfl
    · cases Loop.executesOnce _ with
      | error f => rfl
      | ok once => cases once <;> rfl
  · rename_i t init test update u statement
    refine .inr ?_
    subst hx
    have hexit := (Node.blockStatement u [some statement]).hasLoopExit_mapNames (ν := ν)
    have honce := Loop.executesOnce_mapNames hν hn
    have hunrolled : leadIn (init.map (mapNames ν)) ++ statement.mapNames ν ::
        (update.map (mapNames ν)).toList.map asStatement =
        (leadIn init ++ statement :: update.toList.map asStatement).map (mapNames ν) := by
      rw [leadIn_mapNames, List.map_append, List.map_cons]
      cases update with
      | none => rfl
      | some e => simp [asStatement, Head.mapNames]
    simp only [mapNames_mk, List.map_cons, List.map_nil, Slot.mapNames_one, Slot.mapNames_many,
      Option.map_some, Head.mapNames, unwrapLoop, hunrolled] at hexit honce ⊢
    rw [Node.blockStatement, hexit, honce]
    split
    · rfl
    · cases Loop.executesOnce _ with
      | error f => rfl
      | ok once =>
        cases once with
        | false => rfl
        | true =>
          match leadIn init ++ statement :: update.toList.map asStatement with
          | [] | [_] | _ :: _ :: _ => rfl
  · exact .inl hx.symm

theorem commutes_pruneNamed : Transform.Commutes ν pruneNamed := by
  refine Transform.commutes fun site n hfair => ?_
  have hpruned (name : String) : (site.mapNames ν).settings.prunedNames.contains (ν name) =
      site.settings.prunedNames.contains name := hfair.pruned name
  unfold pruneNamed
  dsimp only
  split
  · exact .inl rfl
  · rename_i hsome
    have hsome' : ¬ (site.mapNames ν).settings.prunedNames.isEmpty = true := hsome
    rw [if_neg hsome']
    split
    · rename_i declarator rest
      refine .inr ?_
      simp only [mapNames_mk, List.map_cons, List.map_nil, Slot.mapNames_many, Head.mapNames,
        declaredName_mapNames hfair.involutive]
      refine bind_map fun name _ => ?_
      simp only [hpruned]
      split <;> rfl
    · refine .inr ?_
      simp only [mapNames_mk, List.map_cons, List.map_nil, Slot.mapNames_one, Option.map_some,
        Head.mapNames, hpruned]
      split <;> rfl
    · exact .inl rfl

end Rule
end Unravel
