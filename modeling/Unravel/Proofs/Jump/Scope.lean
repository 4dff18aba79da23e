import Unravel.Proofs.Grammar.Role
import Unravel.Proofs.Tree.Children

/-! Jumps and their targets. A `return` needs a function around it, a `break` a loop or a switch, a
`continue` a loop, and a jump with a label a statement of that label, all within one function. A tree
in which every jump has its target is tied. -/

namespace Unravel

open Node

structure Scope where
  inFunction : Bool := false
  inLoop : Bool := false
  inSwitch : Bool := false
  labels : List String := []
  /-- Those of them that are labels of a loop around the node. -/
  loopLabels : List String := []
  /-- The labels that stand directly on the node. -/
  pending : List String := []
deriving DecidableEq, Repr

namespace Scope

def enter (s : Scope) (h : Head) (ss : List (Slot Node)) : Scope :=
  if h.kind.isFunction then { inFunction := true }
  else if h.kind.isLoop then
    { s with inLoop := true, loopLabels := s.pending ++ s.loopLabels, pending := [] }
  else if h.kind = .labeledStatement then
    { s with
      labels := (leadingName? ss).toList ++ s.labels
      pending := (leadingName? ss).toList ++ s.pending }
  else { s with inSwitch := s.inSwitch || h.kind == .switchStatement, pending := [] }

def targets (s : Scope) : Head → List (Slot Node) → Bool
  | .returnStatement, _ => s.inFunction
  | .breakStatement, [.one none] => s.inLoop || s.inSwitch
  | .breakStatement, [.one (some label)] => label.name?.any s.labels.contains
  | .continueStatement, [.one none] => s.inLoop
  | .continueStatement, [.one (some label)] => label.name?.any s.loopLabels.contains
  | _, _ => true

end Scope

namespace Node

mutual

/-- Every jump in the tree has its target, in the tree or in the scope around it. -/
def tied (s : Scope) : Node → Bool
  | .mk _ h ss => s.targets h ss && tiedSlots (s.enter h ss) ss

def tiedSlots (s : Scope) : List (Slot Node) → Bool
  | [] => true
  | .one none :: ss => tiedSlots s ss
  | .one (some c) :: ss => c.tied s && tiedSlots s ss
  | .many cs :: ss => tiedItems s cs && tiedSlots s ss

def tiedItems (s : Scope) : List (Option Node) → Bool
  | [] => true
  | none :: cs => tiedItems s cs
  | some c :: cs => c.tied s && tiedItems s cs

end

theorem tiedItems_iff {s : Scope} {cs : List (Option Node)} :
    tiedItems s cs = true ↔ ∀ c, some c ∈ cs → c.tied s = true := by
  induction cs with
  | nil => simp [tiedItems]
  | cons c cs ih =>
    cases c with
    | none => simp [tiedItems, ih]
    | some c => simp [tiedItems, ih]

theorem tiedSlots_iff {s : Scope} {ss : List (Slot Node)} :
    tiedSlots s ss = true ↔ ∀ c ∈ childrenOf ss, c.tied s = true := by
  induction ss with
  | nil => simp [tiedSlots]
  | cons slot ss ih =>
    rw [childrenOf_cons, List.forall_mem_append]
    match slot with
    | .one none => simp [tiedSlots, ih]
    | .one (some c) => simp [tiedSlots, ih]
    | .many cs => simp [tiedSlots, ih, tiedItems_iff]

theorem tied_mk {s : Scope} {t : Tag} {h : Head} {ss : List (Slot Node)} :
    (Node.mk t h ss).tied s = true ↔
      s.targets h ss = true ∧ ∀ c ∈ childrenOf ss, c.tied (s.enter h ss) = true := by
  rw [tied, Bool.and_eq_true, tiedSlots_iff]

end Node

namespace Scope

variable {s s' : Scope} {h : Head} {ss ss' : List (Slot Node)}

theorem enter_function (hfunction : h.kind.isFunction = true) :
    s.enter h ss = { inFunction := true } := if_pos hfunction

theorem enter_congr (hlabel : h.kind = .labeledStatement → leadingName? ss = leadingName? ss') :
    s.enter h ss = s.enter h ss' := by
  unfold enter
  split
  · rfl
  · split
    · rfl
    · split
      · rename_i hkind
        rw [hlabel hkind]
      · rfl

theorem inFunction_enter (hfunction : h.kind.isFunction = false) :
    (s.enter h ss).inFunction = s.inFunction := by
  unfold enter
  rw [hfunction]
  simp only [Bool.false_eq_true, if_false]
  split
  · rfl
  · split <;> rfl

def isJump : Kind → Bool
  | .returnStatement | .breakStatement | .continueStatement => true
  | _ => false

theorem targets_of_not_jump (hjump : isJump h.kind = false) : s.targets h ss = true := by
  cases h <;> first | rfl | cases hjump

end Scope
end Unravel
