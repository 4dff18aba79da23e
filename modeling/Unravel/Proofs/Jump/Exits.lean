import Unravel.Proofs.Tree.Traversal

/-! Jumps that leave a node. The scan for them finds one exactly when the nodes between the root and
the jump, taken together, hold neither a function nor what the jump would be caught by. -/

namespace Unravel

namespace Node

def IsLabeledJump (e : Node) : Prop :=
  ∃ t label, e = .mk t .breakStatement [.one (some label)] ∨
    e = .mk t .continueStatement [.one (some label)]

def IsPlainBreak (e : Node) : Prop := ∃ t, e = .mk t .breakStatement [.one none]

def IsPlainContinue (e : Node) : Prop := ∃ t, e = .mk t .continueStatement [.one none]

/-- The node is a jump that is caught by none of the nodes around it. -/
def Leaves (e : Node) (around : Node → Prop) : Prop :=
  e.IsLabeledJump ∨
    (e.IsPlainBreak ∧ ∀ d, around d → d.kind.isLoop = false ∧ d.kind ≠ .switchStatement) ∨
    (e.IsPlainContinue ∧ ∀ d, around d → d.kind.isLoop = false)

structure Flags (inLoop inSwitch : Bool) (around : Node → Prop) : Prop where
  loop : inLoop = true ↔ ∃ d, around d ∧ d.kind.isLoop = true
  switch : inSwitch = true ↔ ∃ d, around d ∧ d.kind = .switchStatement

variable {inLoop inSwitch : Bool} {around around' : Node → Prop} {n e : Node}

namespace Flags

theorem nothing : Flags false false fun _ => False := ⟨by simp, by simp⟩

theorem loop_eq_false (h : Flags inLoop inSwitch around) :
    inLoop = false ↔ ∀ d, around d → d.kind.isLoop = false := by
  rw [← Bool.not_eq_true, h.loop]
  simp

theorem switch_eq_false (h : Flags inLoop inSwitch around) :
    inSwitch = false ↔ ∀ d, around d → d.kind ≠ .switchStatement := by
  rw [← Bool.not_eq_true, h.switch]
  simp

theorem enter (h : Flags inLoop inSwitch around) (n : Node) :
    Flags (inLoop || n.kind.isLoop) (inSwitch || n.kind == .switchStatement)
      fun d => around d ∨ n = d := by
  constructor
  · rw [Bool.or_eq_true, h.loop]
    simp [or_and_right, exists_or]
  · rw [Bool.or_eq_true, h.switch]
    simp [or_and_right, exists_or]

end Flags

theorem leaves_congr (h : ∀ d, around d ↔ around' d) : e.Leaves around ↔ e.Leaves around' := by
  simp only [Leaves, h]

theorem Leaves.isFunction_eq (h : e.Leaves around) : e.isFunction = false := by
  rcases h with ⟨t, label, rfl | rfl⟩ | ⟨⟨t, rfl⟩, -⟩ | ⟨⟨t, rfl⟩, -⟩ <;> rfl

theorem jumpsOut_iff (h : Flags inLoop inSwitch around) :
    jumpsOut inLoop inSwitch e = true ↔ e.Leaves around := by
  unfold jumpsOut
  split
  · rename_i t label
    cases label with
    | some label => simp [Leaves, IsLabeledJump]
    | none =>
      simp only [Leaves, IsLabeledJump, IsPlainBreak, IsPlainContinue]
      simp only [Option.isSome_none, Bool.false_or, Bool.not_eq_true', Bool.or_eq_false_iff,
        h.loop_eq_false, h.switch_eq_false, ← forall₂_and]
      simp
  · rename_i t label
    cases label with
    | some label => simp [Leaves, IsLabeledJump]
    | none => simp [Leaves, IsLabeledJump, IsPlainBreak, IsPlainContinue, h.loop_eq_false]
  · rename_i hnobreak hnocontinue
    refine iff_of_false Bool.false_ne_true ?_
    rintro (⟨t, label, rfl | rfl⟩ | ⟨⟨t, rfl⟩, -⟩ | ⟨⟨t, rfl⟩, -⟩)
    · exact hnobreak t _ rfl
    · exact hnocontinue t _ rfl
    · exact hnobreak t _ rfl
    · exact hnocontinue t _ rfl

theorem jumpsOut_of_function (h : n.isFunction = true) : jumpsOut inLoop inSwitch n = false := by
  unfold jumpsOut
  split <;> first | rfl | cases h

theorem exits_eq (inLoop inSwitch : Bool) (n : Node) :
    n.exits inLoop inSwitch = (!n.isFunction && (jumpsOut inLoop inSwitch n || n.children.any
      (exits (inLoop || n.kind.isLoop) (inSwitch || n.kind == .switchStatement)))) := by
  obtain ⟨t, h, ss⟩ := n
  rw [exits, exitsSlots_eq_any]
  rfl

theorem exits_iff (n : Node) (h : Flags inLoop inSwitch around) :
    n.exits inLoop inSwitch = true ↔ ∃ p e, n.at? p = some e ∧
      (∀ d, n.Above p d → d.isFunction = false) ∧ e.Leaves fun d => around d ∨ n.Above p d := by
  -- more stands around a node the further down it is, and the flags follow
  induction n generalizing inLoop inSwitch around with
  | h t hd ss ih =>
    rw [exits_eq, Bool.and_eq_true, Bool.not_eq_true', Bool.or_eq_true, jumpsOut_iff h,
      List.any_eq_true]
    constructor
    · rintro ⟨hfunction, hself | ⟨c, hc, hexits⟩⟩
      · refine ⟨[], _, rfl, fun d habove => absurd habove not_above_nil, ?_⟩
        exact (leaves_congr fun d => (or_iff_left not_above_nil).symm).mp hself
      · obtain ⟨i, hi⟩ := List.mem_iff_getElem?.mp hc
        obtain ⟨p, e, hat, hall, hleaves⟩ := (ih c hc (h.enter _)).mp hexits
        refine ⟨i :: p, e, (at?_cons_of_child hi p).trans hat, ?_, ?_⟩
        · rintro d habove
          rcases (above_cons hi).mp habove with rfl | habove
          · exact hfunction
          · exact hall d habove
        · exact (leaves_congr fun d => by rw [above_cons hi, or_assoc]).mp hleaves
    · rintro ⟨_ | ⟨i, p⟩, e, hat, hall, hleaves⟩
      · obtain rfl := Option.some.inj hat
        exact ⟨hleaves.isFunction_eq,
          .inl ((leaves_congr fun d => or_iff_left not_above_nil).mp hleaves)⟩
      · obtain ⟨c, hi, hat⟩ := at?_cons_eq_some.mp hat
        have hc : c ∈ childrenOf ss := List.mem_of_getElem? hi
        refine ⟨hall _ ((above_cons hi).mpr (.inl rfl)), .inr ⟨c, hc, ?_⟩⟩
        refine (ih c hc (h.enter _)).mpr ⟨p, e, hat, ?_, ?_⟩
        · exact fun d habove => hall d ((above_cons hi).mpr (.inr habove))
        · exact (leaves_congr fun d => by rw [above_cons hi, or_assoc]).mp hleaves

end Node

def Worklist.jumps : Worklist (Node × Bool × Bool) where
  next := fun (n, inLoop, inSwitch) =>
    if n.isFunction then []
    else n.children.reverse.map
      (·, inLoop || n.kind.isLoop, inSwitch || n.kind == .switchStatement)
  size e := e.1.walk.length
  shrinks := by
    rintro ⟨n, inLoop, inSwitch⟩
    dsimp only
    split
    · exact List.length_pos_of_mem n.self_mem_walk
    · rw [List.map_map, List.map_reverse, List.sum_reverse]
      exact n.sum_walk_children

namespace Node

theorem hasLoopExit_eq_run (n : Node) : n.hasLoopExit =
    (Worklist.jumps.run (n.children.reverse.map (·, false, false))).any
      fun (c, inLoop, inSwitch) => jumpsOut inLoop inSwitch c := by
  have hfound : ∀ e : Node × Bool × Bool, exits e.2.1 e.2.2 e.1 =
      (jumpsOut e.2.1 e.2.2 e.1 || (Worklist.jumps.next e).any fun e => exits e.2.1 e.2.2 e.1) := by
    rintro ⟨n, inLoop, inSwitch⟩
    rw [exits_eq]
    by_cases hfunction : n.isFunction = true
    · simp [Worklist.jumps, hfunction, jumpsOut_of_function]
    · simp [Worklist.jumps, hfunction, Function.comp_def]
  rw [Worklist.any_run _ hfound, List.any_map, List.any_reverse, hasLoopExit, exitsSlots_eq_any]
  rfl

/-- The scan for exits, which a loop with a stack can make as well, finds one exactly when a jump
below the node has a label, or is caught by no loop and, if it is a `break`, by no switch strictly
between the two. Functions below the node are left aside. -/
theorem hasLoopExit_iff (n : Node) :
    n.hasLoopExit = ((Worklist.jumps.run (n.children.reverse.map (·, false, false))).any
      fun (c, inLoop, inSwitch) => jumpsOut inLoop inSwitch c) ∧
    (n.hasLoopExit = true ↔
      ∃ p e, n.InScope p ∧ n.at? p = some e ∧ e.Leaves (n.Between p)) := by
  refine ⟨n.hasLoopExit_eq_run, ?_⟩
  rw [hasLoopExit, exitsSlots_eq_any, List.any_eq_true]
  constructor
  · rintro ⟨c, hc, hexits⟩
    obtain ⟨i, hi⟩ := List.mem_iff_getElem?.mp hc
    obtain ⟨p, e, hat, hall, hleaves⟩ := (exits_iff c .nothing).mp hexits
    refine ⟨i :: p, e, (inScope_cons hi).mpr hall, (at?_cons_of_child hi p).trans hat, ?_⟩
    exact (leaves_congr fun d => by rw [between_cons hi, false_or]).mp hleaves
  · rintro ⟨p, e, hscope, hat, hleaves⟩
    obtain ⟨i, q, rfl⟩ := List.exists_cons_of_ne_nil hscope.1
    obtain ⟨c, hi, hat⟩ := at?_cons_eq_some.mp hat
    refine ⟨c, List.mem_of_getElem? hi, (exits_iff c .nothing).mpr ⟨q, e, hat, ?_, ?_⟩⟩
    · exact (inScope_cons hi).mp hscope
    · exact (leaves_congr fun d => by rw [between_cons hi, false_or]).mp hleaves

end Node
end Unravel
