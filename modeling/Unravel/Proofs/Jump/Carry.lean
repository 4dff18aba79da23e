import Unravel.Proofs.Grammar.Inert
import Unravel.Proofs.Jump.Scope

/-! When a tied tree stays tied in another scope: where the other scope has all the targets, where no
jump leaves the tree, and where the tree is no statement. -/

namespace Unravel

open Node

variable {s s' : Scope} {t : Tag} {h : Head} {ss : List (Slot Node)} {n : Node}

namespace Scope

structure Le (s s' : Scope) : Prop where
  loop : s.inLoop = true → s'.inLoop = true
  switch : s.inSwitch = true → s'.inSwitch = true
  labels : s.labels ⊆ s'.labels
  loopLabels : s.loopLabels ⊆ s'.loopLabels
  pending : s.pending ⊆ s'.pending ++ s'.loopLabels

def Returns (s s' : Scope) (n : Node) : Prop :=
  s.inFunction = true → s'.inFunction = true ∨ ∀ c ∈ n.reach, c.kind ≠ .returnStatement

theorem Le.enter (hle : s.Le s') (h : Head) (ss : List (Slot Node)) :
    (s.enter h ss).Le (s'.enter h ss) := by
  unfold Scope.enter
  split
  · exact ⟨id, id, List.Subset.refl _, List.Subset.refl _, nofun⟩
  · split
    · refine ⟨id, hle.switch, hle.labels, ?_, nofun⟩
      refine List.append_subset.mpr ⟨hle.pending, ?_⟩
      exact List.subset_append_of_subset_right _ hle.loopLabels
    · split
      · refine ⟨hle.loop, hle.switch, ?_, hle.loopLabels, ?_⟩
        · exact List.append_subset.mpr ⟨List.subset_append_left _ _,
            List.subset_append_of_subset_right _ hle.labels⟩
        · rw [List.append_assoc]
          exact List.append_subset.mpr ⟨List.subset_append_left _ _,
            List.subset_append_of_subset_right _ hle.pending⟩
      · refine ⟨hle.loop, ?_, hle.labels, hle.loopLabels, nofun⟩
        simp only [Bool.or_eq_true]
        exact fun hswitch => hswitch.imp hle.switch id

theorem any_contains_of_subset {name : Option String} {l l' : List String} (hsub : l ⊆ l')
    (h : name.any l.contains = true) : name.any l'.contains = true := by
  cases name with
  | none => cases h
  | some name =>
    simp only [Option.any_some, List.contains_eq_mem, decide_eq_true_eq] at h ⊢
    exact hsub h

theorem Le.targets (hle : s.Le s') (hreturn : h = .returnStatement → s'.inFunction = true)
    (htargets : s.targets h ss = true) : s'.targets h ss = true := by
  unfold Scope.targets at htargets ⊢
  split at htargets
  · exact hreturn rfl
  · simp only [Bool.or_eq_true] at htargets ⊢
    exact htargets.imp hle.loop hle.switch
  · exact any_contains_of_subset hle.labels htargets
  · exact hle.loop htargets
  · exact any_contains_of_subset hle.loopLabels htargets
  · rfl

theorem Returns.self (hreturns : Returns s s' (.mk t h ss)) (htargets : s.targets h ss = true)
    (hhead : h = .returnStatement) : s'.inFunction = true := by
  subst hhead
  rcases hreturns htargets with hfunction | hnone
  · exact hfunction
  · exact absurd rfl (hnone _ (List.mem_cons_self ..))

theorem Returns.child (hreturns : Returns s s' (.mk t h ss)) (hfunction : h.kind.isFunction = false)
    {c : Node} (hc : c ∈ childrenOf ss) : Returns (s.enter h ss) (s'.enter h ss) c := by
  intro hin
  rw [inFunction_enter hfunction] at hin ⊢
  refine (hreturns hin).imp id fun hnone d hd => hnone d ?_
  rw [reach, hfunction]
  exact List.mem_cons_of_mem _ (mem_reachSlots hc hd)

end Scope

namespace Node

open Scope

theorem tied_of_le (n : Node) : ∀ {s s' : Scope}, s.Le s' → Returns s s' n → n.tied s = true →
    n.tied s' = true := by
  induction n with
  | h t h ss ih =>
    intro s s' hle hreturns hn
    obtain ⟨htargets, hchildren⟩ := tied_mk.mp hn
    refine tied_mk.mpr ⟨hle.targets (hreturns.self htargets) htargets, fun c hc => ?_⟩
    cases hfunction : h.kind.isFunction with
    | true =>
      have hsame : s'.enter h ss = s.enter h ss :=
        (enter_function hfunction).trans (enter_function hfunction).symm
      rw [hsame]
      exact hchildren c hc
    | false => exact ih c hc (hle.enter h ss) (hreturns.child hfunction hc) (hchildren c hc)

structure Covers (inLoop inSwitch : Bool) (s : Scope) : Prop where
  loop : inLoop = true → s.inLoop = true
  switch : inSwitch = true → s.inSwitch = true

theorem Covers.enter {inLoop inSwitch : Bool} (hcovers : Covers inLoop inSwitch s)
    (hfunction : h.kind.isFunction = false) :
    Covers (inLoop || h.kind.isLoop) (inSwitch || h.kind == .switchStatement) (s.enter h ss) := by
  obtain ⟨hloop, hswitch⟩ := hcovers
  unfold Scope.enter
  rw [hfunction]
  simp only [Bool.false_eq_true, if_false]
  split
  · rename_i hisLoop
    refine ⟨fun _ => rfl, fun h' => hswitch ?_⟩
    have hne : (h.kind == .switchStatement) = false := by
      cases h <;> first | rfl | cases hisLoop
    simpa [hne] using h'
  · rename_i hisLoop
    have hisLoop : h.kind.isLoop = false := by simpa using hisLoop
    rw [hisLoop, Bool.or_false]
    split
    · rename_i hlabel
      refine ⟨hloop, fun h' => hswitch ?_⟩
      simpa [hlabel] using h'
    · refine ⟨hloop, fun h' => ?_⟩
      simp only [Bool.or_eq_true] at h' ⊢
      exact h'.imp hswitch id

/-- A tree that no jump leaves is tied in every scope that has a function around it. -/
theorem tied_of_exits (n : Node) : ∀ {s s' : Scope} {inLoop inSwitch : Bool},
    n.exits inLoop inSwitch = false → Covers inLoop inSwitch s' → Returns s s' n →
    n.tied s = true → n.tied s' = true := by
  induction n with
  | h t h ss ih =>
    intro s s' inLoop inSwitch hexits hcovers hreturns hn
    obtain ⟨htargets, hchildren⟩ := tied_mk.mp hn
    cases hfunction : h.kind.isFunction with
    | true =>
      have hjump : isJump h.kind = false := by
        cases h <;> first | rfl | cases hfunction
      have hsame : s'.enter h ss = s.enter h ss :=
        (enter_function hfunction).trans (enter_function hfunction).symm
      rw [tied_mk, hsame]
      exact ⟨targets_of_not_jump hjump, hchildren⟩
    | false =>
      rw [exits, hfunction, Bool.not_false, Bool.true_and, Bool.or_eq_false_iff] at hexits
      refine tied_mk.mpr ⟨?_, fun c hc => ?_⟩
      · have hself := hreturns.self htargets
        unfold Scope.targets
        split
        · exact hself rfl
        · -- a jump without a label stays in a loop or a switch of the tree, or the scope has one
          have hstays : (inLoop || inSwitch) = true := by
            simpa only [jumpsOut, Option.isSome_none, Bool.false_or, Bool.not_eq_false'] using hexits.1
          simp only [Bool.or_eq_true] at hstays ⊢
          exact hstays.imp hcovers.loop hcovers.switch
        · simp [jumpsOut] at hexits
        · have hstays : inLoop = true := by simpa [jumpsOut] using hexits.1
          exact hcovers.loop hstays
        · simp [jumpsOut] at hexits
        · rfl
      · exact ih c hc (exitsSlots_eq_false.mp hexits.2 c hc) (hcovers.enter hfunction)
          (hreturns.child hfunction hc) (hchildren c hc)

end Node

/-! Expressions and declarations of variables hold no jumps outside their functions. -/

theorem Kind.isJump_of_isInert {k : Kind} (h : k.isInert = true) : Scope.isJump k = false := by
  cases k <;> first | rfl | cases h

namespace Node

open Scope

theorem tied_of_inert (n : Node) : n.WellKinded → n.kind.isInert = true → ∀ {s s' : Scope},
    n.tied s = true → n.tied s' = true := by
  induction n with
  | h t h ss ih =>
    intro hn hinert s s' htied
    obtain ⟨-, hchildren⟩ := tied_mk.mp htied
    have hjump : isJump h.kind = false := Kind.isJump_of_isInert hinert
    refine tied_mk.mpr ⟨targets_of_not_jump hjump, fun c hc => ?_⟩
    cases hfunction : h.kind.isFunction with
    | true =>
      have hsame : s'.enter h ss = s.enter h ss :=
        (enter_function hfunction).trans (enter_function hfunction).symm
      rw [hsame]
      exact hchildren c hc
    | false =>
      exact ih c hc (hn.child hc) (isInert_of_child hn.self hinert hfunction hc) (hchildren c hc)

theorem tied_of_bare (n : Node) : n.Every Bare → ∀ s : Scope, n.tied s = true := by
  induction n with
  | h t h ss ih =>
    intro hbare s
    have hjump : isJump h.kind = false := Kind.isJump_of_isInert hbare.self.inert
    exact tied_mk.mpr ⟨targets_of_not_jump hjump, fun c hc => ih c hc (hbare.child hc) _⟩

end Node
end Unravel
