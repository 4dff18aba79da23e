import Unravel.Proofs.Grammar.Structure

/-! Factories, and what collapsing makes of their bodies. A factory starts with a local array, assigns
to its own name and ends by returning a call of itself. Its first assignment to the name is deleted and
the array is returned; what is no factory is left as it is. -/

namespace Unravel

open Node

namespace Factory

/-! The three marks. -/

def Reassigns (name : String) (s : Option Node) : Prop :=
  ∃ t u v right, s = some (.mk t .expressionStatement
    [.one (some (.mk u (.assignmentExpression "=") (.one (some (.identifier v name)) :: right)))])

def DeclaresArray (array : String) (s : Option Node) : Prop :=
  ∃ t kind u id v elements declarations, id.name? = some array ∧ s = some (.variableDeclaration t kind
    (some (.variableDeclarator u (some id) (some (.mk v .arrayExpression elements))) :: declarations))

def Calls (name : String) (e : Node) : Prop :=
  ∃ t u arguments, e = .mk t .callExpression (.one (some (.identifier u name)) :: arguments)

theorem reassigns_iff {name : String} {s : Option Node} : reassigns name s = true ↔ Reassigns name s := by
  constructor
  · intro h
    unfold reassigns at h
    split at h
    · cases beq_iff_eq.mp h
      exact ⟨_, _, _, _, rfl⟩
    · cases h
  · rintro ⟨t, u, v, right, rfl⟩
    exact beq_self_eq_true name

theorem localArray?_eq_some {array : String} {s : Option Node} :
    localArray? s = .ok (some array) ↔ DeclaresArray array s := by
  constructor
  · intro h
    unfold localArray? at h
    split at h
    · split at h
      · rename_i name hname
        cases h
        obtain ⟨id, rfl, hid⟩ := Option.bind_eq_some_iff.mp hname
        exact ⟨_, _, _, _, _, _, _, hid, rfl⟩
      · cases h
    · cases h
  · rintro ⟨t, kind, u, id, v, elements, declarations, hid, rfl⟩
    simp only [localArray?, Option.bind_some, hid]

theorem returnsCall_iff {name : String} {s : Option Node} :
    returnsCall name s = true ↔ ∃ t call, s = some (.returnStatement t (some call)) ∧ Calls name call := by
  constructor
  · intro h
    unfold returnsCall at h
    split at h
    · cases beq_iff_eq.mp h
      exact ⟨_, _, rfl, _, _, _, rfl⟩
    · cases h
  · rintro ⟨t, call, rfl, u, v, arguments, rfl⟩
    exact beq_self_eq_true name

theorem not_reassigns_of_declaresArray {name array : String} {s : Option Node}
    (h : DeclaresArray array s) : ¬ Reassigns name s := by
  obtain ⟨t, kind, u, id, v, elements, declarations, -, rfl⟩ := h
  rintro ⟨t', u', v', right, heq⟩
  cases heq

/-! The collapsed body. -/

/-- The first body is that of a factory with the name, the second is what it collapses to: the first
assignment to the name is gone, and the local array is returned. -/
inductive Collapses (name : String) : List (Option Node) → List (Option Node) → Prop
  | mk {array : String} {first assign : Option Node} {before after : List (Option Node)} {t : Tag}
    {call : Node} : DeclaresArray array first → (∀ s ∈ before, ¬ Reassigns name s) →
    Reassigns name assign → Calls name call →
    Collapses name
      (first :: before ++ assign :: after ++ [some (.returnStatement t (some call))])
      (first :: before ++ after ++
        [some (.returnStatement t (some (.identifier (.fresh call.loc) array)))])

theorem eraseIdx_eq_eraseP {α : Type} {p : α → Bool} {as : List α} {i : Nat}
    (hi : as.findIdx? p = some i) : as.eraseIdx i = as.eraseP p := by
  rw [List.eraseP_eq_eraseIdx, hi]

theorem collapsedBody?_eq_some {name : String} {body body' : List (Option Node)} :
    collapsedBody? name body = .ok (some body') ↔ Collapses name body body' := by
  constructor
  · intro h
    unfold collapsedBody? at h
    split at h
    · rename_i last hlast
      split at h
      · cases h
      · rename_i hmarked
        obtain ⟨hlength, hreturns⟩ : 3 ≤ body.length ∧ returnsCall name last = true := by
          simpa using hmarked
        obtain ⟨t, call, rfl, hcall⟩ := returnsCall_iff.mp hreturns
        obtain ⟨array, harray, h⟩ := bind_eq_ok.mp h
        cases array with
        | none => cases h
        | some array =>
          dsimp only at h
          split at h
          · rename_i i hi
            cases h
            obtain ⟨hlt, hassign, -⟩ := List.findIdx?_eq_some_iff_getElem.mp hi
            obtain ⟨assign, before, after, hbefore, hassign, hinit, herased⟩ :=
              List.exists_of_eraseP (List.getElem_mem hlt) hassign
            have hbody : body = before ++ assign :: after ++ [some (.returnStatement t (some call))] := by
              rw [← hinit]
              exact (List.dropLast_append_getLast? _ hlast).symm
            rw [eraseIdx_eq_eraseP hi, herased, hbody]
            have hdeclares := localArray?_eq_some.mp harray
            -- the first statement declares the array, so it is not the assignment
            cases before with
            | nil =>
              rw [hbody] at hdeclares
              exact absurd (reassigns_iff.mp hassign) (not_reassigns_of_declaresArray hdeclares)
            | cons first before =>
              rw [hbody] at hdeclares
              refine .mk hdeclares (fun s hs hreassigns => ?_) (reassigns_iff.mp hassign) hcall
              exact hbefore s (List.mem_cons_of_mem _ hs) (reassigns_iff.mpr hreassigns)
          · cases h
    · cases h
  · rintro @⟨array, first, assign, before, after, t, call, hfirst, hbefore, hassign, hcall⟩
    have hreturns : returnsCall name (some (.returnStatement t (some call))) = true :=
      returnsCall_iff.mpr ⟨t, call, rfl, hcall⟩
    have hnone : ∀ s ∈ first :: before, ¬ reassigns name s = true := by
      intro s hs hreassigns
      have hassigns := reassigns_iff.mp hreassigns
      obtain rfl | hs := List.mem_cons.mp hs
      · exact not_reassigns_of_declaresArray hfirst hassigns
      · exact hbefore s hs hassigns
    have herased : (first :: before ++ assign :: after).eraseP (reassigns name) =
        first :: before ++ after := by
      rw [List.eraseP_append_right _ hnone, List.eraseP_cons_of_pos (reassigns_iff.mpr hassign)]
    obtain ⟨i, hi⟩ : ∃ i, (first :: before ++ assign :: after).findIdx? (reassigns name) = some i := by
      rw [← Option.isSome_iff_exists, List.findIdx?_isSome, List.any_eq_true]
      exact ⟨assign, by simp, reassigns_iff.mpr hassign⟩
    have hlast : (first :: before ++ assign :: after ++ [some (returnStatement t (some call))]).getLast? =
        some (some (.returnStatement t (some call))) := List.getLast?_concat
    have hlength : ¬ (first :: before ++ assign :: after ++
        [some (returnStatement t (some call))]).length < 3 := by
      simp
      omega
    unfold collapsedBody?
    rw [hlast]
    simp only [hreturns, hlength, decide_false, Bool.not_true, Bool.or_false,
      List.dropLast_concat, hi, eraseIdx_eq_eraseP hi, herased]
    exact bind_eq_ok.mpr ⟨some array, localArray?_eq_some.mpr hfirst, rfl⟩

def Factors (name : String) (n : Node) (body' : List (Option Node)) : Prop :=
  ∃ t u params v body, n = .functionDeclaration t (some (.identifier u name)) params
    (some (.blockStatement v body)) ∧ Collapses name body body'

theorem collapsed?_eq_some {name : String} {n : Node} {body' : List (Option Node)} :
    collapsed? n = .ok (some (name, body')) ↔ Factors name n body' := by
  constructor
  · intro h
    unfold collapsed? at h
    split at h
    · obtain ⟨r, hr, hrest⟩ := bind_eq_ok.mp h
      cases r with
      | none => cases hrest
      | some r =>
        cases hrest
        exact ⟨_, _, _, _, _, rfl, collapsedBody?_eq_some.mp hr⟩
    · cases h
    · cases h
  · rintro ⟨t, u, params, v, body, rfl, hbody⟩
    rw [collapsed?, collapsedBody?_eq_some.mpr hbody]
    rfl

theorem Collapses.last {name : String} {body body' : List (Option Node)}
    (h : Collapses name body body') : ∃ t call array,
      body.getLast? = some (some (.returnStatement t (some call))) ∧ Calls name call ∧
      body'.getLast? =
        some (some (.returnStatement t (some (.identifier (.fresh (loc call)) array)))) := by
  obtain ⟨-, -, -, hcall⟩ := h
  exact ⟨_, _, _, List.getLast?_concat, hcall, List.getLast?_concat⟩

theorem Collapses.once {name name' : String} {body body' body'' : List (Option Node)}
    (h : Collapses name body body') : ¬ Collapses name' body' body'' := by
  intro h'
  obtain ⟨t, call, array, -, -, hlast⟩ := h.last
  obtain ⟨t', call', -, hlast', hcall', -⟩ := h'.last
  rw [hlast] at hlast'
  cases hlast'
  obtain ⟨u, v, arguments, hcall'⟩ := hcall'
  cases hcall'

end Factory
end Unravel
