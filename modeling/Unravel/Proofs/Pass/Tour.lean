import Unravel.Proofs.Pass.Step

/-! The tour of a pass that changes nothing: what it does in order, how the facts develop along it,
and what makes it pass by without an effect. -/

namespace Unravel

inductive Stop where
  | enter (n : Node)
  | consult (rule : Rule) (trail : Trail) (n : Node)
  | leave (n : Node)

namespace Node

mutual

def tour (rules : List Rule) (trail : Trail) : Node → List Stop
  | .mk t h ss =>
    .enter (.mk t h ss) :: rules.map (.consult · trail (.mk t h ss)) ++
      tourSlots rules trail t h [] ss ++ [.leave (.mk t h ss)]

def tourSlots (rules : List Rule) (trail : Trail) (t : Tag) (h : Head)
    (before : List (Slot Node)) : List (Slot Node) → List Stop
  | [] => []
  | .one none :: ss => tourSlots rules trail t h (.one none :: before) ss
  | .one (some c) :: ss => c.tour rules (⟨t, h, before, .single, ss⟩ :: trail) ++
      tourSlots rules trail t h (.one (some c) :: before) ss
  | .many cs :: ss => tourItems rules trail t h before ss [] cs ++
      tourSlots rules trail t h (.many cs :: before) ss

def tourItems (rules : List Rule) (trail : Trail) (t : Tag) (h : Head)
    (before after : List (Slot Node)) (left : List (Option Node)) :
    List (Option Node) → List Stop
  | [] => []
  | none :: cs => tourItems rules trail t h before after (none :: left) cs
  | some c :: cs => c.tour rules (⟨t, h, before, .item left cs, after⟩ :: trail) ++
      tourItems rules trail t h before after (some c :: left) cs

end

mutual

def nesting : Node → Nat
  | .mk _ _ ss => nestingSlots ss + 1

def nestingSlots : List (Slot Node) → Nat
  | [] => 0
  | .one none :: ss => nestingSlots ss + 1
  | .one (some c) :: ss => max c.nesting (nestingSlots ss) + 1
  | .many cs :: ss => max (nestingItems cs) (nestingSlots ss) + 1

def nestingItems : List (Option Node) → Nat
  | [] => 0
  | none :: cs => nestingItems cs + 1
  | some c :: cs => max c.nesting (nestingItems cs) + 1

end

theorem tourSlots_append (rules : List Rule) (trail : Trail) (t : Tag) (h : Head)
    (before ss ss' : List (Slot Node)) :
    ∃ stops, tourSlots rules trail t h before (ss ++ ss') =
      stops ++ tourSlots rules trail t h (ss.reverse ++ before) ss' := by
  induction ss generalizing before with
  | nil => exact ⟨[], rfl⟩
  | cons s ss ih =>
    obtain ⟨stops, hstops⟩ := ih (s :: before)
    rw [List.reverse_cons, List.append_assoc, List.singleton_append]
    match s with
    | .one none => exact ⟨stops, hstops⟩
    | .one (some c) =>
      rw [List.cons_append, tourSlots, hstops]
      exact ⟨_, (List.append_assoc _ _ _).symm⟩
    | .many cs =>
      rw [List.cons_append, tourSlots, hstops]
      exact ⟨_, (List.append_assoc _ _ _).symm⟩

theorem tourItems_append (rules : List Rule) (trail : Trail) (t : Tag) (h : Head)
    (before after : List (Slot Node)) (left cs cs' : List (Option Node)) :
    ∃ stops, tourItems rules trail t h before after left (cs ++ cs') =
      stops ++ tourItems rules trail t h before after (cs.reverse ++ left) cs' := by
  induction cs generalizing left with
  | nil => exact ⟨[], rfl⟩
  | cons c cs ih =>
    obtain ⟨stops, hstops⟩ := ih (c :: left)
    rw [List.reverse_cons, List.append_assoc, List.singleton_append]
    match c with
    | none => exact ⟨stops, hstops⟩
    | some c =>
      rw [List.cons_append, tourItems, hstops]
      exact ⟨_, (List.append_assoc _ _ _).symm⟩

theorem tour_infix_frame (rules : List Rule) (f : Frame) (trail : Trail) (n : Node) :
    n.tour rules (f :: trail) <:+: (f.plug n).tour rules trail := by
  obtain ⟨t, h, earlier, hole, later⟩ := f
  cases hole with
  | single =>
    obtain ⟨stops, hstops⟩ := tourSlots_append rules trail t h [] earlier.reverse
      (.one (some n) :: later)
    rw [List.reverse_reverse, List.append_nil, tourSlots] at hstops
    simp only [Frame.plug, tour, hstops]
    exact (List.infix_append' stops _ _).trans (List.infix_append _ _ _)
  | item left right =>
    obtain ⟨stops, hstops⟩ := tourSlots_append rules trail t h [] earlier.reverse
      (.many (left.reverse ++ some n :: right) :: later)
    obtain ⟨stops', hstops'⟩ := tourItems_append rules trail t h earlier later [] left.reverse
      (some n :: right)
    rw [List.reverse_reverse, List.append_nil, tourItems] at hstops'
    rw [List.reverse_reverse, List.append_nil, tourSlots, hstops'] at hstops
    simp only [Frame.plug, tour, hstops]
    exact ((List.infix_append' stops' _ _).trans (List.infix_append' stops _ _)).trans
      (List.infix_append _ _ _)

theorem tour_infix_plug (rules : List Rule) (trail : Trail) (n : Node) :
    n.tour rules trail <:+: (trail.plug n).tour rules [] := by
  induction trail generalizing n with
  | nil => exact List.infix_refl _
  | cons f fs ih => exact (tour_infix_frame rules f fs n).trans (ih (f.plug n))

theorem consult_mem_tour {rules : List Rule} {r : Rule} (hr : r ∈ rules) (trail : Trail) (n : Node) :
    Stop.consult r trail n ∈ (trail.plug n).tour rules [] := by
  refine (tour_infix_plug rules trail n).subset ?_
  obtain ⟨t, h, ss⟩ := n
  simp [tour, hr]

mutual

theorem position_of_mem_tour {rules : List Rule} {r : Rule} {place : Trail} {m : Node} : (n : Node) →
    {trail : Trail} → Stop.consult r place m ∈ n.tour rules trail →
    r ∈ rules ∧ place.plug m = trail.plug n
  | .mk t h ss, trail, hmem => by
    simp only [tour, List.mem_append, List.mem_cons, List.mem_map, List.not_mem_nil,
      or_false, reduceCtorEq, false_or, Stop.consult.injEq] at hmem
    rcases hmem with ⟨_, hr, rfl, rfl, rfl⟩ | hmem
    · exact ⟨hr, rfl⟩
    · exact position_of_mem_tourSlots ss hmem

theorem position_of_mem_tourSlots {rules : List Rule} {r : Rule} {place : Trail} {m : Node} :
    (ss : List (Slot Node)) → {trail : Trail} → {t : Tag} → {h : Head} →
    {before : List (Slot Node)} → Stop.consult r place m ∈ tourSlots rules trail t h before ss →
    r ∈ rules ∧ place.plug m = trail.plug (.mk t h (before.reverse ++ ss))
  | [], trail, t, h, before, hmem => by
    simp [tourSlots] at hmem
  | .one none :: ss, trail, t, h, before, hmem => by
    have hrest := position_of_mem_tourSlots ss hmem
    rwa [List.reverse_cons, List.append_assoc] at hrest
  | .one (some c) :: ss, trail, t, h, before, hmem => by
    rw [tourSlots, List.mem_append] at hmem
    rcases hmem with hmem | hmem
    · exact position_of_mem_tour c hmem
    · have hrest := position_of_mem_tourSlots ss hmem
      rwa [List.reverse_cons, List.append_assoc] at hrest
  | .many cs :: ss, trail, t, h, before, hmem => by
    rw [tourSlots, List.mem_append] at hmem
    rcases hmem with hmem | hmem
    · exact position_of_mem_tourItems cs hmem
    · have hrest := position_of_mem_tourSlots ss hmem
      rwa [List.reverse_cons, List.append_assoc] at hrest

theorem position_of_mem_tourItems {rules : List Rule} {r : Rule} {place : Trail} {m : Node} :
    (cs : List (Option Node)) → {trail : Trail} → {t : Tag} → {h : Head} →
    {before after : List (Slot Node)} → {left : List (Option Node)} →
    Stop.consult r place m ∈ tourItems rules trail t h before after left cs →
    r ∈ rules ∧
      place.plug m = trail.plug (.mk t h (before.reverse ++ .many (left.reverse ++ cs) :: after))
  | [], trail, t, h, before, after, left, hmem => by
    simp [tourItems] at hmem
  | none :: cs, trail, t, h, before, after, left, hmem => by
    have hrest := position_of_mem_tourItems cs hmem
    rwa [List.reverse_cons, List.append_assoc] at hrest
  | some c :: cs, trail, t, h, before, after, left, hmem => by
    rw [tourItems, List.mem_append] at hmem
    rcases hmem with hmem | hmem
    · exact position_of_mem_tour c hmem
    · have hrest := position_of_mem_tourItems cs hmem
      rwa [List.reverse_cons, List.append_assoc] at hrest

end

end Node

namespace Pass

variable {env : Env}

def listen (env : Env) (facts : Facts) : Stop → Facts
  | .enter _ => facts
  | .consult r trail n =>
    match answer env facts r trail n with
    | .ok (some (.learn fact)) => (facts.learn fact).1
    | _ => facts
  | .leave n => if n.isFunction then facts.update n else facts

/-- An answer that has no effect: none at all, a fact about a known name, or an edit that the position
does not support. -/
def Idle (facts : Facts) (trail : Trail) : Except Fault (Option Outcome) → Prop
  | .ok none => True
  | .ok (some (.learn fact)) => (facts.learn fact).2 = false
  | .ok (some o) => land trail o = none
  | .error _ => False

def Quiet (env : Env) (facts : Facts) : Stop → Prop
  | .enter n => n.supported = .ok ()
  | .consult r trail n => Idle facts trail (answer env facts r trail n)
  | .leave _ => True

def QuietAlong (env : Env) (facts : Facts) : List Stop → Prop
  | [] => True
  | s :: stops => Quiet env facts s ∧ QuietAlong env (listen env facts s) stops

theorem quietAlong_append {facts : Facts} {stops stops' : List Stop} :
    QuietAlong env facts (stops ++ stops') ↔
      QuietAlong env facts stops ∧ QuietAlong env (stops.foldl (listen env) facts) stops' := by
  induction stops generalizing facts with
  | nil => simp [QuietAlong]
  | cons s stops ih => simp [QuietAlong, ih, and_assoc]

structure Follows (env : Env) (a : Facts) (stops : List Stop) (b : Facts) : Prop where
  quiet : QuietAlong env a stops
  facts_eq : b = stops.foldl (listen env) a

section
variable {a b : Facts} {s : Stop} {stops stops' : List Stop}

theorem Follows.nil : Follows env a [] a := ⟨trivial, rfl⟩

theorem follows_cons : Follows env a (s :: stops) b ↔
    Quiet env a s ∧ Follows env (listen env a s) stops b :=
  ⟨fun h => ⟨h.quiet.1, h.quiet.2, h.facts_eq⟩, fun h => ⟨⟨h.1, h.2.quiet⟩, h.2.facts_eq⟩⟩

theorem follows_append : Follows env a (stops ++ stops') b ↔
    ∃ c, Follows env a stops c ∧ Follows env c stops' b := by
  constructor
  · rintro ⟨hquiet, hfacts⟩
    rw [quietAlong_append] at hquiet
    rw [List.foldl_append] at hfacts
    exact ⟨_, ⟨hquiet.1, rfl⟩, hquiet.2, hfacts⟩
  · rintro ⟨_, ⟨hquiet, rfl⟩, hquiet', hfacts'⟩
    exact ⟨quietAlong_append.mpr ⟨hquiet, hquiet'⟩, by rw [List.foldl_append, hfacts']⟩

end

theorem sameNames_listen {facts : Facts} {s : Stop} (h : Quiet env facts s) :
    facts.SameNames (listen env facts s) := by
  cases s with
  | enter n => exact .refl _
  | consult r trail n =>
    change Idle facts trail (answer env facts r trail n) at h
    simp only [listen]
    split
    · rename_i fact hanswer
      rw [hanswer] at h
      exact Facts.sameNames_learn h
    · exact .refl _
  | leave n =>
    simp only [listen]
    split
    · exact Facts.sameNames_update facts n
    · exact .refl _

theorem sameNames_foldl {facts : Facts} {stops : List Stop} (h : QuietAlong env facts stops) :
    facts.SameNames (stops.foldl (listen env) facts) := by
  induction stops generalizing facts with
  | nil => exact .refl _
  | cons s stops ih => exact (sameNames_listen h.1).trans (ih h.2)

end Pass
end Unravel
