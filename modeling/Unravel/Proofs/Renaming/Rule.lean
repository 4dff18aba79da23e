import Unravel.Proofs.Renaming.Site
import Unravel.Proofs.Rule.Move

/-! Rules under other names. A rule compares names with each other, with the names that are known and
with the few names that the settings list; an exchange of other names commutes with what it answers. -/

namespace Unravel

open Node

structure Fair (ν : String → String) (settings : Settings) : Prop where
  involutive : Function.Involutive ν
  arguments : ν "arguments" = "arguments"
  deferred : ∀ name,
    settings.deferredCallees.contains (ν name) = settings.deferredCallees.contains name
  pruned : ∀ name, settings.prunedNames.contains (ν name) = settings.prunedNames.contains name

abbrev answerNames (ν : String → String) :
    Except Fault (Option Outcome) → Except Fault (Option Outcome) :=
  Except.map (Option.map (Outcome.mapNames ν))

variable {ν : String → String}

theorem Except.map_involutive {α : Type} {g : α → α} (hg : Function.Involutive g) :
    Function.Involutive (Except.map g : Except Fault α → Except Fault α) := by
  intro x
  cases x with
  | error f => rfl
  | ok a => exact congrArg Except.ok (hg a)

theorem bind_map {α α' β β' : Type} {x : Except Fault α} {g : α → α'} {φ : β → β'}
    {f : α → Except Fault β} {f' : α' → Except Fault β'}
    (h : ∀ a, x = .ok a → f' (g a) = (f a).map φ) : (x.map g >>= f') = (x >>= f).map φ := by
  cases x with
  | error e => rfl
  | ok a => exact h a rfl

theorem bind_map_eq {α α' β : Type} {x : Except Fault α} {g : α → α'}
    {f : α → Except Fault β} {f' : α' → Except Fault β}
    (h : ∀ a, x = .ok a → f' (g a) = f a) : (x.map g >>= f') = (x >>= f) := by
  cases x with
  | error e => rfl
  | ok a => exact h a rfl

theorem ok_bind {α β : Type} (a : α) (f : α → Except Fault β) :
    ((.ok a : Except Fault α) >>= f) = f a := rfl

theorem answerNames_involutive (hν : Function.Involutive ν) :
    Function.Involutive (answerNames ν) := by
  refine Except.map_involutive fun o => ?_
  cases o with
  | none => rfl
  | some o => exact congrArg some (Outcome.mapNames_involutive hν o)

/-- It is enough to look at the nodes where a rule has something to say. -/
theorem commutes_of_answers {T : Transform} {P : Node → Prop} (hP : ∀ n, P n → P (n.mapNames ν))
    (h : ∀ site n, Fair ν site.settings → P n →
      T site n = .ok none ∨ T (site.mapNames ν) (n.mapNames ν) = answerNames ν (T site n))
    (site : Site) (n : Node) (hfair : Fair ν site.settings) (hn : P n) :
    T (site.mapNames ν) (n.mapNames ν) = answerNames ν (T site n) := by
  have hν := hfair.involutive
  have hs : Function.Involutive (Prod.map (Site.mapNames ν) (Node.mapNames ν)) :=
    (Site.mapNames_involutive hν).prodMap (mapNames_mapNames hν)
  exact commutes_of_forward (P := fun p => Fair ν p.1.settings ∧ P p.2) (F := fun p => T p.1 p.2)
    (a := (site, n)) hs (answerNames_involutive hν) (fun p hp => ⟨hp.1, hP p.2 hp.2⟩) rfl
    (fun p hp => h p.1 p.2 hp.1 hp.2) ⟨hfair, hn⟩

def Transform.Commutes (ν : String → String) (T : Transform) : Prop :=
  ∀ site n, Fair ν site.settings →
    T (site.mapNames ν) (n.mapNames ν) = answerNames ν (T site n)

theorem Transform.commutes {T : Transform}
    (h : ∀ site n, Fair ν site.settings →
      T site n = .ok none ∨ T (site.mapNames ν) (n.mapNames ν) = answerNames ν (T site n)) :
    T.Commutes ν := fun site n hfair =>
  commutes_of_answers (P := fun _ => True) (fun _ _ => trivial) (fun site n hfair _ => h site n hfair)
    site n hfair trivial

theorem filterMap_map_names (cs : List (Option Node)) :
    (cs.map (Option.map (Node.mapNames ν))).filterMap id = (cs.filterMap id).map (mapNames ν) := by
  induction cs with
  | nil => rfl
  | cons c cs ih =>
    cases c with
    | none => exact ih
    | some c => exact congrArg (c.mapNames ν :: ·) ih

theorem Node.statements_mapNames (body : Option Node) :
    Node.statements (body.map (mapNames ν)) =
      (Node.statements body).map (List.map (mapNames ν)) := by
  match body with
  | none => rfl
  | some (.mk t h ss) =>
    rw [Option.map_some, mapNames_mk]
    cases h with
    | blockStatement =>
      match ss with
      | [.many body] => exact congrArg Except.ok (filterMap_map_names body)
      | [] | [.one _] | .one _ :: _ :: _ | .many _ :: _ :: _ => rfl
    | program =>
      match ss with
      | [.many body] => exact congrArg Except.ok (filterMap_map_names body)
      | [] | [.one _] | .one _ :: _ :: _ | .many _ :: _ :: _ => rfl
    | _ => rfl

@[simp] theorem declaresLexical_mapNames (statements : List Node) :
    declaresLexical (statements.map (mapNames ν)) = declaresLexical statements := by
  rw [declaresLexical, List.any_map, declaresLexical]
  refine List.any_congr rfl fun c => ?_
  obtain ⟨t, h, ss⟩ := c
  cases h <;> rfl

namespace Rule

theorem nameOf_mapNames (id : Option Node) :
    nameOf (id.map (mapNames ν)) = (nameOf id).map ν := by
  match id with
  | none => rfl
  | some (.mk t h ss) => cases h <;> rfl

theorem literalElements_mapNames (lenient : Bool) (es : List (Option Node)) :
    literalElements lenient (es.map (Option.map (mapNames ν))) = literalElements lenient es := by
  induction es with
  | nil => rfl
  | cons e es ih =>
    match e with
    | none => simp only [List.map_cons, Option.map_none, literalElements, ih]
    | some (.mk t h ss) =>
      rw [List.map_cons, Option.map_some, mapNames_mk]
      cases h <;> simp only [Head.mapNames, literalElements, ih]

theorem commutes_captureDeclarator : Transform.Commutes ν captureDeclarator := by
  refine Transform.commutes fun site n hfair => ?_
  unfold captureDeclarator
  split
  · rename_i t id init
    refine .inr ?_
    simp only [mapNames_mk, List.map_cons, List.map_nil, Slot.mapNames_one, Head.mapNames,
      nameOf_mapNames]
    refine bind_map fun name _ => ?_
    rw [site.isConstantName_mapNames hfair.involutive.injective]
    split
    · rfl
    · match init with
      | none => rfl
      | some (.mk u h ss) =>
        rw [Option.map_some, mapNames_mk]
        cases h with
        | literal v => rfl
        | arrayExpression =>
          match ss with
          | [.many elements] =>
            simp only [List.map_cons, List.map_nil, Slot.mapNames_many, Head.mapNames,
              literalElements_mapNames, Site.settings_mapNames]
            cases literalElements site.settings.partialArrays elements <;> rfl
          | [] | [.one _] | .one _ :: _ :: _ | .many _ :: _ :: _ => rfl
        | _ => rfl
  · exact .inl rfl

theorem commutes_substituteIdentifier : Transform.Commutes ν substituteIdentifier := by
  refine Transform.commutes fun site n hfair => ?_
  have hinj := hfair.involutive.injective
  unfold substituteIdentifier
  split
  · rename_i t name
    refine .inr ?_
    have hread : (site.mapNames ν).facts.constants.get? (ν name) =
        (site.facts.constants.get? name).map id := Table.get?_mapNames hinj _ _
    simp only [mapNames_mk, List.map_nil, Head.mapNames, Site.isReference_mapNames,
      Site.isWriteTarget_mapNames, site.isConstantName_mapNames hinj, hread]
    split
    · rfl
    · cases site.facts.constants.get? name <;> rfl
  · exact .inl rfl

theorem bodyOf_mapNames (fn : Node) :
    bodyOf (fn.mapNames ν) = (bodyOf fn).map (List.map (mapNames ν)) := by
  obtain ⟨t, h, ss⟩ := fn
  rw [mapNames_mk]
  match ss with
  | [_, _, .one body] => exact Node.statements_mapNames body
  | [] | [_] | [_, _] | [_, _, .many _] | _ :: _ :: .one _ :: _ :: _ | _ :: _ :: .many _ :: _ :: _ =>
    rfl

theorem singleReturn?_mapNames (fn : Node) :
    singleReturn? (fn.mapNames ν) =
      (singleReturn? fn).map (Option.map (Option.map (mapNames ν))) := by
  unfold singleReturn?
  rw [bodyOf_mapNames]
  refine bind_map fun statements _ => ?_
  match statements with
  | [] => rfl
  | .mk t h ss :: rest =>
    rw [List.map_cons, mapNames_mk]
    cases h with
    | returnStatement =>
      match ss with
      | [.one argument] => cases rest <;> rfl
      | [] | [.many _] | .one _ :: _ :: _ | .many _ :: _ :: _ => rfl
    | _ => rfl

theorem capture_mapNames (site : Site) (name : String) (fn : Node) (hν : Function.Injective ν) :
    captureFunction.capture (site.mapNames ν) (ν name) (fn.mapNames ν) =
      answerNames ν (captureFunction.capture site name fn) := by
  unfold captureFunction.capture
  rw [site.isConstantName_mapNames hν]
  split
  · rfl
  · rw [singleReturn?_mapNames]
    refine bind_map fun result _ => ?_
    cases result <;> rfl

theorem commutes_captureFunction : Transform.Commutes ν captureFunction := by
  refine Transform.commutes fun site n hfair => ?_
  have hinj := hfair.involutive.injective
  unfold captureFunction
  split
  · rename_i t id params body
    refine .inr ?_
    have hcapture (name : String) := capture_mapNames site name
      (.functionDeclaration t id params body) hinj
    simp only [mapNames_mk, List.map_cons, List.map_nil, Slot.mapNames_one, Slot.mapNames_many,
      Head.mapNames, nameOf_mapNames] at hcapture ⊢
    exact bind_map fun name _ => hcapture name
  · rename_i t id u self params body
    refine .inr ?_
    have hcapture (name : String) := capture_mapNames site name
      (.functionExpression u self params body) hinj
    simp only [mapNames_mk, List.map_cons, List.map_nil, Slot.mapNames_one, Slot.mapNames_many,
      Option.map_some, Head.mapNames, nameOf_mapNames] at hcapture ⊢
    exact bind_map fun name _ => hcapture name
  · exact .inl rfl

theorem commutes_selfAssignment : Transform.Commutes ν selfAssignment := by
  refine Transform.commutes fun site n hfair => ?_
  have hinj := hfair.involutive.injective
  unfold selfAssignment
  split
  · rename_i a _ b
    refine .inr ?_
    have hsame : (ν a == ν b) = (a == b) := by
      rw [Bool.eq_iff_iff, beq_iff_eq, beq_iff_eq, hinj.eq_iff]
    simp only [mapNames_mk, List.map_cons, List.map_nil, Slot.mapNames_one, Option.map_some,
      Head.mapNames, hsame]
    split <;> rfl
  · exact .inl rfl

theorem commutes_logicalToConditional : Transform.Commutes ν logicalToConditional := by
  refine Transform.commutes fun site n hfair => ?_
  unfold logicalToConditional
  split
  · refine .inr ?_
    simp only [mapNames_mk, List.map_cons, List.map_nil, Head.mapNames]
    simp [Outcome.mapNames, Except.map, Head.mapNames]
  · refine .inr ?_
    simp only [mapNames_mk, List.map_cons, List.map_nil, Head.mapNames]
    simp [Outcome.mapNames, Except.map, Head.mapNames]
  · exact .inl rfl

theorem commutes_foldPlus : Transform.Commutes ν foldPlus := by
  refine Transform.commutes fun site n hfair => ?_
  unfold foldPlus
  split
  · rename_i t u a w b
    refine .inr ?_
    simp only [mapNames_mk, List.map_cons, List.map_nil, Slot.mapNames_one, Option.map_some,
      Head.mapNames]
    cases a.add b <;> rfl
  · exact .inl rfl

theorem commutes_simplifyConditional : Transform.Commutes ν simplifyConditional := by
  refine Transform.commutes fun site n hfair => ?_
  unfold simplifyConditional
  split
  · rename_i test consequent alternate
    refine .inr ?_
    simp only [mapNames_mk, List.map_cons, List.map_nil, Slot.mapNames_one, Option.map_some,
      Head.mapNames]
    cases test.truthy with
    | error f => rfl
    | ok b => cases b <;> [cases alternate; cases consequent] <;> rfl
  · rename_i test consequent alternate
    refine .inr ?_
    simp only [mapNames_mk, List.map_cons, List.map_nil, Slot.mapNames_one, Option.map_some,
      Head.mapNames]
    cases test.truthy with
    | error f => rfl
    | ok b =>
      have hpick : (if b then consequent.map (mapNames ν) else alternate.map (mapNames ν)) =
          (if b then consequent else alternate).map (mapNames ν) := by
        cases b <;> rfl
      simp only [ok_bind, hpick]
      generalize (if b then consequent else alternate) = branch
      match branch with
      | none => rfl
      | some (.mk u h ss) =>
        rw [Option.map_some, mapNames_mk]
        cases h with
        | blockStatement =>
          match ss with
          | [.many body] =>
            simp only [List.map_cons, List.map_nil, Slot.mapNames_many, Head.mapNames,
              filterMap_map_names, declaresLexical_mapNames, Site.settings_mapNames,
              Site.inSequence_mapNames]
            split
            · rfl
            · simp [Outcome.mapNames, Except.map, Head.mapNames, pure, Except.pure]
          | [] | [.one _] | .one _ :: _ :: _ | .many _ :: _ :: _ =>
            simp [Outcome.mapNames, Except.map, Head.mapNames, pure, Except.pure]
        | _ => simp [Outcome.mapNames, Except.map, Head.mapNames, pure, Except.pure]
  · exact .inl rfl

theorem commutes_foldArrayMember : Transform.Commutes ν foldArrayMember := by
  refine Transform.commutes fun site n hfair => ?_
  have hinj := hfair.involutive.injective
  unfold foldArrayMember
  split
  · rename_i t u name w index
    refine .inr ?_
    have hread : (site.mapNames ν).facts.arrays.get? (ν name) =
        (site.facts.arrays.get? name).map id := Table.get?_mapNames hinj _ _
    simp only [mapNames_mk, List.map_cons, List.map_nil, Slot.mapNames_one, Option.map_some,
      Head.mapNames, Site.isWriteTarget_mapNames, site.isConstantName_mapNames hinj, hread]
    split
    · rfl
    · cases site.facts.arrays.get? name with
      | none => rfl
      | some values =>
        dsimp only [Option.map_some, id]
        cases index.arrayIndex? with
        | error f => rfl
        | ok i => cases i <;> rfl
  · exact .inl rfl

end Rule
end Unravel
