import Unravel.Proofs.Sharing.Pass

/-! The copies that inlining puts into a tree. Each one consists of new nodes: none of the function that
is called, none of the arguments of the call and none of another copy. -/

namespace Unravel

open Node

/-- A call that was inlined: the function, the arguments and what took the place of the call. -/
structure Copy where
  fn : Node
  arguments : List (Option Node)
  node : Node

namespace Copy

/-- The copy shares no node with the function or an argument, and none with itself. -/
structure Apart (k : Copy) : Prop where
  marked : k.node.Every fun c => c.mark.isSome = true
  once : k.node.marks.Nodup
  function : k.node.marks.Disjoint k.fn.marks
  argument : ∀ a, some a ∈ k.arguments → k.node.marks.Disjoint a.marks

structure Fresh (next : Nat) (ks : List Copy) (next' : Nat) : Prop where
  apart : ∀ k ∈ ks, k.Apart
  between : ∀ k ∈ ks, ∀ m ∈ k.node.marks, next ≤ m ∧ m < next'
  disjoint : ks.Pairwise fun k l => k.node.marks.Disjoint l.node.marks

theorem Fresh.nil (next next' : Nat) : Fresh next [] next' := ⟨nofun, nofun, .nil⟩

theorem Fresh.mono {low next next' high : Nat} {ks : List Copy} (h : Fresh next ks next')
    (hlow : low ≤ next) (hhigh : next' ≤ high) : Fresh low ks high := by
  refine ⟨h.apart, fun k hk m hm => ?_, h.disjoint⟩
  obtain ⟨hle, hlt⟩ := h.between k hk m hm
  omega

theorem Fresh.append {next next' next'' : Nat} {ks ls : List Copy} (h : Fresh next ks next')
    (h' : Fresh next' ls next'') (hle : next ≤ next') (hle' : next' ≤ next'') :
    Fresh next (ks ++ ls) next'' := by
  refine ⟨List.forall_mem_append.mpr ⟨h.apart, h'.apart⟩, List.forall_mem_append.mpr
    ⟨(h.mono (Nat.le_refl _) hle').between, (h'.mono hle (Nat.le_refl _)).between⟩, ?_⟩
  refine List.pairwise_append.mpr ⟨h.disjoint, h'.disjoint, fun k hk l hl m hm hm' => ?_⟩
  have hfirst := (h.between k hk m hm).2
  have hsecond := (h'.between l hl m hm').1
  omega

end Copy

namespace Pass

variable {env : Env}

inductive Inlines (env : Env) : Node × State → Copy → Node × State → Prop
  | mk {trail : Trail} {t : Tag} {callee fn e : Node} {arguments : List (Option Node)} {st : State}
      {i : Nat} :
    Answers env i trail st.facts (.callExpression t callee arguments) (.replace e) →
    Rule.called? ⟨trail, st.facts, env.settings, env.mutated⟩
      (.callExpression t callee arguments) callee = some fn →
    Rule.expand fn arguments = .ok (some e) →
    land trail (.replace e) = some (.kept e) →
    Inlines env (trail.plug (.callExpression t callee arguments), st)
      ⟨fn, arguments, ((st.note (.changed i)).place e).1⟩
      (trail.plug ((st.note (.changed i)).place e).1, ((st.note (.changed i)).place e).2)

theorem Inlines.step {a b : Node × State} {k : Copy} (h : Inlines env a k b) : Step env a b := by
  cases h with
  | @mk trail t callee fn e arguments st i hanswer _ _ hland =>
    exact .edit (l := .kept e) hanswer hland

theorem Inlines.fresh {a b : Node × State} {k : Copy} (h : Inlines env a k b)
    (ha : Settled a.1 a.2) : Copy.Fresh a.2.next [k] b.2.next := by
  cases h with
  | @mk trail t callee fn e arguments st i _ hcalled hexpand _ =>
    have hunmarked : e.marks = [] :=
      marks_of_unmarked fun c hc => ((Rule.expands_of_expand hexpand).head_of_mem_walk hc).1
    have hnumbers := numbers_number e st.next
    rw [hunmarked] at hnumbers
    have hnew : ∀ m ∈ (e.number st.next).1.marks, st.next ≤ m ∧ m < (e.number st.next).2 := by
      intro m hm
      have hpos := List.count_pos_iff.mpr hm
      rw [hnumbers.count m, List.count_nil] at hpos
      split_ifs at hpos with hbetween
      · exact hbetween
      · omega
    have hold : (trail.plug (.callExpression t callee arguments)).Every (Aged st.next) :=
      ha.tree.mono fun _ hc => hc.aged
    have hapart (n : Node) (hn : n.Every (Aged st.next)) :
        (e.number st.next).1.marks.Disjoint n.marks := by
      intro m hm hm'
      have hlow := (hnew m hm).1
      have hhigh := every_aged_iff.mp hn m hm'
      omega
    refine ⟨List.forall_mem_singleton.mpr ⟨isSome_mark_number e st.next, ?_, ?_, ?_⟩,
      List.forall_mem_singleton.mpr hnew, List.pairwise_singleton _ _⟩
    · rw [List.nodup_iff_count_le_one]
      intro m
      change (e.number st.next).1.marks.count m ≤ 1
      rw [hnumbers.count m, List.count_nil]
      split_ifs <;> omega
    · have hcallee : callee ∈ (Node.callExpression t callee arguments).walk := by
        simp [walk, walkSlots, self_mem_walk]
      exact hapart fn (Rule.every_called hcalled hcallee hold ha.recorded)
    · intro a ha'
      have hcall := Trail.every_of_plug trail hold
      exact hapart a (hcall.below (Rule.mem_walk_of_argument ha'))

inductive Makes (env : Env) (a : Node × State) : List Copy → Node × State → Prop
  | refl : Makes env a [] a
  | step {ks : List Copy} {b c : Node × State} : Makes env a ks b → Step env b c → Makes env a ks c
  | inline {ks : List Copy} {k : Copy} {b c : Node × State} :
    Makes env a ks b → Inlines env b k c → Makes env a (ks ++ [k]) c

theorem Makes.steps {a b : Node × State} {ks : List Copy} (h : Makes env a ks b) :
    Steps env a b := by
  induction h with
  | refl => exact .refl
  | step _ hstep ih => exact ih.tail hstep
  | inline _ hinlines ih => exact ih.tail hinlines.step

theorem Makes.fresh (hstandard : env.Standard) {a b : Node × State} {ks : List Copy}
    (h : Makes env a ks b) (ha : Settled a.1 a.2) : Copy.Fresh a.2.next ks b.2.next := by
  induction h with
  | refl => exact .nil _ _
  | step hmakes hstep ih =>
    have hsettled := (hmakes.steps.settled hstandard ha).1
    exact ih.mono (Nat.le_refl _) (hstep.placed hstandard hsettled.tree).2.le
  | inline hmakes hinlines ih =>
    obtain ⟨hsettled, hreuses⟩ := hmakes.steps.settled hstandard ha
    have hnext := (hinlines.step.placed hstandard hsettled.tree).2.le
    exact ih.append (hinlines.fresh hsettled) hreuses.le hnext

end Pass
end Unravel
