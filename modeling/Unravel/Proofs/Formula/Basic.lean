import Unravel.Proofs.Tree.Every
import Unravel.Proofs.Tree.Fill

/-! Formulas: expressions of literals, sums, choices and logical operators. A formula has a value, and
what stands at a position of a formula counts for the whole by its value alone. -/

namespace Unravel

open Node

namespace Formula

inductive Operator where
  | plus
  | both
  | either
deriving DecidableEq, Repr

def Operator.head : Operator → Head
  | .plus => .binaryExpression "+"
  | .both => .logicalExpression "&&"
  | .either => .logicalExpression "||"

def choose (test consequent alternate : Except Fault Value) : Except Fault Value := do
  if ← (← test).truthy then consequent else alternate

theorem choose_eq {test : Value} {b : Bool} (h : test.truthy = .ok b)
    (consequent alternate : Except Fault Value) :
    choose (.ok test) consequent alternate = if b then consequent else alternate := by
  change (test.truthy >>= fun b => if b then consequent else alternate) = _
  rw [h]
  rfl

/-- `a && b` reads `a ? b : false`, and `a || b` reads `a ? true : b`. -/
def Operator.apply (left right : Except Fault Value) : Operator → Except Fault Value
  | .plus => do (← left).add (← right)
  | .both => choose left right (.ok (.bool false))
  | .either => choose left (.ok (.bool true)) right

end Formula

/-- An expression of literals, `+`, `? :`, `&&` and `||`. -/
inductive Formula where
  | literal (t : Tag) (v : Value)
  | pair (t : Tag) (op : Formula.Operator) (left right : Formula)
  | choice (t : Tag) (test consequent alternate : Formula)

namespace Formula

def node : Formula → Node
  | literal t v => .literal t v
  | pair t op left right => .mk t op.head [.one (some left.node), .one (some right.node)]
  | choice t test consequent alternate =>
    .conditionalExpression t test.node consequent.node alternate.node

def eval : Formula → Except Fault Value
  | literal _ v => .ok v
  | pair _ op left right => op.apply left.eval right.eval
  | choice _ test consequent alternate => choose test.eval consequent.eval alternate.eval

theorem eq_literal {e : Formula} {t : Tag} {v : Value} (h : e.node = .literal t v) :
    e = .literal t v := by
  cases e with
  | literal =>
    cases h
    rfl
  | pair t op left right => cases op <;> cases h
  | choice => cases h

theorem exists_relabel {τ : Type} {f : Relabel τ} (hf : f.KeepsHeads) (e : Formula) :
    ∀ (seat : Option Seat) (s : τ), ∃ e' : Formula,
      (relabel f seat e.node s).1 = e'.node ∧ e'.eval = e.eval := by
  have hhead (seat : Option Seat) (t : Tag) (h : Head) (s : τ) : (f seat t h s).1.2 = h :=
    hf seat t h s
  induction e with
  | literal t v =>
    intro seat s
    refine ⟨.literal (f seat t (.literal v) s).1.1 v, ?_, rfl⟩
    simp only [node, Node.literal, relabel, relabelSlots, hhead]
  | pair t op left right hleft hright =>
    intro seat s
    simp only [node, relabel, relabelSlots, hhead]
    obtain ⟨l, hl, hleq⟩ := hleft _ _
    obtain ⟨r, hr, hreq⟩ := hright _ _
    rw [hl, hr]
    exact ⟨.pair _ op l r, rfl, by rw [eval, eval, hleq, hreq]⟩
  | choice t test consequent alternate htest hcons halt =>
    intro seat s
    simp only [node, Node.conditionalExpression, relabel, relabelSlots, hhead]
    obtain ⟨c, hc, hceq⟩ := htest _ _
    obtain ⟨a, ha, haeq⟩ := hcons _ _
    obtain ⟨b, hb, hbeq⟩ := halt _ _
    rw [hc, ha, hb]
    exact ⟨.choice _ c a b, rfl, by rw [eval, eval, hceq, haeq, hbeq]⟩

theorem exists_number (e : Formula) (next : Nat) :
    ∃ e' : Formula, (e.node.number next).1 = e'.node ∧ e'.eval = e.eval :=
  e.exists_relabel numbering_keepsHeads none next

def program (t u : Tag) (e : Formula) : Node := .program t [some (.expressionStatement u e.node)]

end Formula

namespace Frame

variable {f : Frame} {n : Node} {t : Tag} {h : Head}

theorem plug_cases (f : Frame) :
    (∃ before after, ∀ n, f.plug n = .mk f.tag f.head (before ++ .one (some n) :: after)) ∨
    (∃ before left right after, ∀ n,
      f.plug n = .mk f.tag f.head (before ++ .many (left ++ some n :: right) :: after)) := by
  obtain ⟨tag, head, before, hole, after⟩ := f
  cases hole with
  | single => exact .inl ⟨before.reverse, after, fun _ => rfl⟩
  | item left right => exact .inr ⟨before.reverse, left.reverse, right, after, fun _ => rfl⟩

theorem plug_eq_operands (cs : List Node) (hf : f.plug n = .mk t h (cs.map (.one ∘ some))) :
    ∃ before after, cs = before ++ n :: after ∧
      ∀ m, f.plug m = .mk t h ((before ++ m :: after).map (.one ∘ some)) := by
  rcases f.plug_cases with ⟨before, after, hplug⟩ | ⟨before, left, right, after, hplug⟩
  · rw [hplug] at hf
    injection hf with htag hhead hslots
    obtain ⟨before, rest, rfl, rfl, hrest⟩ := List.map_eq_append_iff.mp hslots.symm
    obtain ⟨c, after, rfl, hc, rfl⟩ := List.map_eq_cons_iff.mp hrest
    cases hc
    exact ⟨before, after, rfl, fun m => by rw [hplug, htag, hhead, List.map_append, List.map_cons]; rfl⟩
  · rw [hplug] at hf
    injection hf with _ _ hslots
    obtain ⟨-, rest, -, -, hrest⟩ := List.map_eq_append_iff.mp hslots.symm
    obtain ⟨c, -, -, hc, -⟩ := List.map_eq_cons_iff.mp hrest
    cases hc

theorem plug_eq_lone {c : Node} (hf : f.plug n = .mk t h [.many [some c]]) :
    n = c ∧ ∀ m, f.plug m = .mk t h [.many [some m]] := by
  rcases f.plug_cases with ⟨before, after, hplug⟩ | ⟨before, left, right, after, hplug⟩
  · rw [hplug] at hf
    injection hf with _ _ hslots
    rcases List.append_eq_singleton_iff.mp hslots with ⟨-, hslot⟩ | ⟨-, hslot⟩ <;> cases hslot
  · rw [hplug] at hf
    injection hf with htag hhead hslots
    rcases List.append_eq_singleton_iff.mp hslots with ⟨rfl, hslot⟩ | ⟨-, hslot⟩
    · injection hslot with hitems hafter
      injection hitems with hitems
      rcases List.append_eq_singleton_iff.mp hitems with ⟨rfl, hitem⟩ | ⟨-, hitem⟩
      · cases hitem
        exact ⟨rfl, fun m => by rw [hplug, htag, hhead, hafter]; rfl⟩
      · cases hitem
    · cases hslot

end Frame

namespace Formula

/-- The positions of the program of a formula with a given value: the root, its statement, and those
where any formula of the same value may stand. -/
inductive Spot (t u : Tag) (value : Except Fault Value) : Trail → Node → Prop
  | root (e : Formula) : e.eval = value → Spot t u value [] (program t u e)
  | statement (e : Formula) (f : Frame) : e.eval = value →
    (∀ e' : Formula, f.plug (.expressionStatement u e'.node) = program t u e') →
    Spot t u value [f] (.expressionStatement u e.node)
  | inside (trail : Trail) (g : Formula) :
    (∀ g' : Formula, g'.eval = g.eval →
      ∃ e : Formula, trail.plug g'.node = program t u e ∧ e.eval = value) →
    Spot t u value trail g.node

theorem Spot.part {t u : Tag} {value : Except Fault Value} {f : Frame} {fs : Trail} {g k : Formula}
    (whole : Formula → Formula) (hnode : ∀ k' : Formula, f.plug k'.node = (whole k').node)
    (hvalue : ∀ k' : Formula, k'.eval = k.eval → (whole k').eval = g.eval)
    (hg : ∀ g' : Formula, g'.eval = g.eval →
      ∃ e : Formula, Trail.plug fs g'.node = program t u e ∧ e.eval = value) :
    Spot t u value (f :: fs) k.node := by
  refine .inside _ k fun k' hk' => ?_
  rw [Trail.plug_cons, hnode]
  exact hg _ (hvalue k' hk')

theorem spot_of_plug_eq_program {t u : Tag} {e : Formula} (trail : Trail) :
    ∀ {n : Node}, trail.plug n = program t u e → Spot t u e.eval trail n := by
  induction trail with
  | nil =>
    rintro n rfl
    exact .root e rfl
  | cons f fs ih =>
    intro n h
    have hspot : Spot t u e.eval fs (f.plug n) := ih h
    generalize hm : f.plug n = m at hspot
    cases hspot with
    | root e' he' =>
      obtain ⟨rfl, hplug⟩ := Frame.plug_eq_lone hm
      exact .statement e' f he' fun e => hplug _
    | statement e' f' he' hf' =>
      obtain ⟨before, after, hone, hplug⟩ := Frame.plug_eq_operands [e'.node] hm
      rcases List.append_eq_singleton_iff.mp hone.symm with ⟨rfl, hrest⟩ | ⟨-, hrest⟩
      · cases hrest
        refine .inside _ e' fun g' hg' => ⟨g', ?_, hg'.trans he'⟩
        rw [Trail.plug_cons, Trail.plug_cons, hplug]
        exact hf' g'
      · cases hrest
    | inside _ g hg =>
      cases g with
      | literal v w =>
        obtain ⟨before, after, hnone, -⟩ := Frame.plug_eq_operands [] hm
        simp at hnone
      | pair v op left right =>
        obtain ⟨before, after, htwo, hplug⟩ :=
          Frame.plug_eq_operands [left.node, right.node] hm
        rcases before with _ | ⟨b, _ | ⟨c, before⟩⟩
        · obtain ⟨rfl, rfl⟩ := List.cons.inj htwo
          refine .part (.pair v op · right) (fun k' => hplug _) (fun k' hk' => ?_) hg
          rw [eval, eval, hk']
        · obtain ⟨rfl, hright⟩ := List.cons.inj htwo
          obtain ⟨rfl, rfl⟩ := List.cons.inj hright
          refine .part (.pair v op left) (fun k' => hplug _) (fun k' hk' => ?_) hg
          rw [eval, eval, hk']
        · simp at htwo
      | choice v test consequent alternate =>
        obtain ⟨before, after, hthree, hplug⟩ :=
          Frame.plug_eq_operands [test.node, consequent.node, alternate.node] hm
        rcases before with _ | ⟨b, _ | ⟨c, _ | ⟨d, before⟩⟩⟩
        · obtain ⟨rfl, rfl⟩ := List.cons.inj hthree
          refine .part (.choice v · consequent alternate) (fun k' => hplug _) (fun k' hk' => ?_) hg
          rw [eval, eval, hk']
        · obtain ⟨rfl, htwo⟩ := List.cons.inj hthree
          obtain ⟨rfl, rfl⟩ := List.cons.inj htwo
          refine .part (.choice v test · alternate) (fun k' => hplug _) (fun k' hk' => ?_) hg
          rw [eval, eval, hk']
        · obtain ⟨rfl, htwo⟩ := List.cons.inj hthree
          obtain ⟨rfl, hone⟩ := List.cons.inj htwo
          obtain ⟨rfl, rfl⟩ := List.cons.inj hone
          refine .part (.choice v test consequent) (fun k' => hplug _) (fun k' hk' => ?_) hg
          rw [eval, eval, hk']
        · simp at hthree

end Formula
end Unravel
