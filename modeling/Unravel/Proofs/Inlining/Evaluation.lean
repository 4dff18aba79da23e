import Mathlib.Data.List.Sort
import Unravel.Proofs.Inlining.Order

/-! When inlining keeps the evaluation of a call. A call evaluates its arguments from left to right and
then the returned expression. The replacement does the same for the arguments that can have effects
exactly when the returned expression reads their parameters in turn, outside branches and before any
effect of its own, and none of these parameters is declared again; that each is read once is all that
the rule asks for. -/

namespace Unravel

open Node

def Head.isEffect : Head → Bool
  | .callExpression | .assignmentExpression _ | .updateExpression _ _ => true
  | _ => false

namespace Rule

def lastIndex? : List String → String → Option Nat
  | [], _ => none
  | p :: ps, x =>
    match lastIndex? ps x with
    | some i => some (i + 1)
    | none => if p = x then some 0 else none

theorem lastIndex?_eq_none {params : List String} {x : String} :
    lastIndex? params x = none ↔ x ∉ params := by
  induction params with
  | nil => simp [lastIndex?]
  | cons p ps ih =>
    rw [lastIndex?, List.mem_cons, not_or, ← ih]
    cases lastIndex? ps x with
    | some i => simp
    | none => simp [eq_comm]

theorem lastIndex?_eq_some {params : List String} {x : String} {i : Nat} :
    lastIndex? params x = some i ↔ params[i]? = some x ∧ x ∉ params.drop (i + 1) := by
  induction params generalizing i with
  | nil => simp [lastIndex?]
  | cons p ps ih =>
    rw [lastIndex?, List.drop_succ_cons]
    cases hlast : lastIndex? ps x with
    | some k =>
      obtain ⟨hk, hrest⟩ := ih.mp hlast
      have hmem : x ∈ ps := List.mem_of_getElem? hk
      cases i with
      | zero => simp [hmem]
      | succ i =>
        rw [List.getElem?_cons_succ, ← ih, hlast]
        simp
    | none =>
      have hmissing := lastIndex?_eq_none.mp hlast
      cases i with
      | zero => simp [hmissing]
      | succ i =>
        have hnever : ps[i]? ≠ some x := fun h => hmissing (List.mem_of_getElem? h)
        simp [hnever]

def argumentAt (arguments : List Node) (i : Nat) : Node :=
  arguments[i]?.getD (.literal (.fresh none) .undefined)

theorem get?_bind (params : List String) (arguments : List Node) (x : String) :
    (bind params arguments).get? x = (lastIndex? params x).map (argumentAt arguments) := by
  induction params generalizing arguments with
  | nil => rfl
  | cons p ps ih =>
    cases arguments with
    | nil =>
      rw [bind, Binding.get?_cons, ih, lastIndex?]
      cases lastIndex? ps x with
      | some i => simp [argumentAt]
      | none => by_cases hp : p = x <;> simp [hp, argumentAt]
    | cons a as =>
      rw [bind, Binding.get?_cons, ih, lastIndex?]
      cases lastIndex? ps x with
      | some i => simp [argumentAt]
      | none => by_cases hp : p = x <;> simp [hp, argumentAt]

/-- The argument whose evaluation stands where the returned expression has a moment. -/
def argument? (params : List String) (s : Moment) : Option Nat := s.read?.bind (lastIndex? params)

structure Block where
  argument : Option Nat
  moments : List Moment

def blocks (params : List String) (arguments : List Node) (expr : Node) : List Block :=
  (expr.order true none).map fun s => ⟨argument? params s, (bind params arguments).fill s⟩

def impure (arguments : List Node) : List Nat :=
  (List.range arguments.length).filter fun i => arguments[i]?.any fun a => !a.isPure

theorem mem_impure {arguments : List Node} {i : Nat} :
    i ∈ impure arguments ↔ ∃ a, arguments[i]? = some a ∧ a.isPure = false := by
  rw [impure, List.mem_filter, List.mem_range, Option.any_eq_true]
  constructor
  · rintro ⟨-, a, ha, hpure⟩
    exact ⟨a, ha, by simpa using hpure⟩
  · rintro ⟨a, ha, hpure⟩
    exact ⟨(List.getElem?_eq_some_iff.mp ha).1, a, ha, by simpa using hpure⟩

theorem pairwise_impure (arguments : List Node) : (impure arguments).Pairwise (· < ·) :=
  List.pairwise_lt_range.filter _

/-- The arguments that are neither literals nor identifiers are evaluated once, for certain, from left
to right, and before any call, assignment or update of the returned expression. -/
structure KeepsEvaluation (arguments : List Node) (blocks : List Block) : Prop where
  once : ∀ i ∈ impure arguments, blocks.countP (·.argument == some i) = 1
  sure : ∀ b ∈ blocks, ∀ i ∈ impure arguments, b.argument = some i →
    ∀ s ∈ b.moments.getLast?, s.sure = true
  inTurn : (blocks.filterMap fun b => b.argument.filter (· ∈ impure arguments)).Pairwise (· < ·)
  first : blocks.Pairwise fun b b' => (∃ i ∈ impure arguments, b'.argument = some i) →
    b.argument = none → ∀ s ∈ b.moments, s.head.isEffect = false

def demanding (params : List String) (arguments : List Node) : List String :=
  (impure arguments).filterMap (params[·]?)

def Unrepeated (params : List String) (arguments : List Node) : Prop :=
  ∀ i ∈ impure arguments, ∀ p ∈ params[i]?, p ∉ params.drop (i + 1)

instance (params : List String) (arguments : List Node) : Decidable (Unrepeated params arguments) :=
  inferInstanceAs (Decidable (∀ i ∈ impure arguments, ∀ p ∈ params[i]?, p ∉ params.drop (i + 1)))

/-- The returned expression reads the demanding parameters in the order in which they are declared, for
certain and before any effect, and none of them is declared again. -/
structure ReadsInTurn (params : List String) (arguments : List Node) (expr : Node) : Prop where
  unrepeated : Unrepeated params arguments
  sure : ∀ s ∈ expr.order true none, ∀ p ∈ demanding params arguments, s.read? = some p →
    s.sure = true
  inTurn : ((expr.order true none).filterMap fun s =>
    s.read?.filter (· ∈ demanding params arguments)) = demanding params arguments
  first : (expr.order true none).Pairwise fun s s' =>
    (∃ p ∈ demanding params arguments, s'.read? = some p) → s.head.isEffect = false

end Rule

namespace Node

def NameAlone (n : Node) : Prop := n.head.name?.isSome → n.slots.isEmpty

instance : DecidablePred NameAlone := fun n =>
  inferInstanceAs (Decidable (n.head.name?.isSome → n.slots.isEmpty))

theorem name?_eq_head (n : Node) : n.name? = n.head.name? := by
  obtain ⟨t, h, ss⟩ := n
  cases h <;> rfl

mutual

theorem countP_seated (p : String) (sure : Bool) (seat : Option Seat) :
    (n : Node) → n.Every NameAlone →
    ((n.seated seat).countP fun (c, seat) => c.name? == some p && isReference seat) =
      (n.order sure seat).countP (·.read? == some p)
  | .mk t h ss, hn => by
    obtain ⟨hself, hbelow⟩ := every_mk.mp hn
    have hread : ((Node.mk t h ss).name? == some p && isReference seat) =
        ((Moment.mk h seat sure).read? == some p) := by
      rw [name?_eq_head, Moment.read?]
      cases isReference seat <;> simp [head]
    cases hname : h.name? with
    | some x =>
      cases Head.eq_of_name? hname
      have hleaf : ss = [] := List.isEmpty_iff.mp (hself rfl)
      subst hleaf
      rw [order_identifier, seated, seatedSlots, List.countP_singleton, List.countP_singleton]
      exact congrArg (if · = true then 1 else 0) hread
    | none =>
      have hslots := countP_seatedSlots p sure h h.kind.fields ss hbelow
      rw [order_mk hname, seated, List.countP_cons, List.countP_append, List.countP_singleton, hslots]
      exact congrArg (_ + if · = true then 1 else 0) hread

theorem countP_seatedSlots (p : String) (sure : Bool) (h : Head) (fs : List Field) :
    (ss : List (Slot Node)) → EverySlots NameAlone ss →
    ((seatedSlots h fs ss).countP fun (c, seat) => c.name? == some p && isReference seat) =
      (orderSlots sure h fs ss).countP (·.read? == some p)
  | [], _ => rfl
  | .one none :: ss, hss => by
    rw [seatedSlots, orderSlots]
    exact countP_seatedSlots p sure h fs.tail ss (everySlots_none.mp hss)
  | .one (some c) :: ss, hss => by
    obtain ⟨hc, hrest⟩ := everySlots_one.mp hss
    rw [seatedSlots, orderSlots, List.countP_append, List.countP_append,
      countP_seated p _ _ c hc, countP_seatedSlots p sure h fs.tail ss hrest]
  | .many cs :: ss, hss => by
    obtain ⟨hcs, hrest⟩ := everySlots_many.mp hss
    rw [seatedSlots, orderSlots, List.countP_append, List.countP_append,
      countP_seatedItems p _ _ cs hcs, countP_seatedSlots p sure h fs.tail ss hrest]

theorem countP_seatedItems (p : String) (sure : Bool) (seat : Option Seat) :
    (cs : List (Option Node)) → EveryItems NameAlone cs →
    ((seatedItems seat cs).countP fun (c, seat) => c.name? == some p && isReference seat) =
      (orderItems sure seat cs).countP (·.read? == some p)
  | [], _ => rfl
  | none :: cs, hcs => by
    rw [seatedItems, orderItems]
    exact countP_seatedItems p sure seat cs (everyItems_none.mp hcs)
  | some c :: cs, hcs => by
    obtain ⟨hc, hrest⟩ := everyItems_some.mp hcs
    rw [seatedItems, orderItems, List.countP_append, List.countP_append,
      countP_seated p _ _ c hc, countP_seatedItems p sure seat cs hrest]

end

theorem getLast?_order (sure : Bool) (seat : Option Seat) (n : Node) :
    (n.order sure seat).getLast? = some ⟨n.head, seat, sure⟩ := by
  obtain ⟨t, h, ss⟩ := n
  cases hname : h.name? with
  | some x =>
    cases Head.eq_of_name? hname
    rw [order_identifier]
    rfl
  | none =>
    rw [order_mk hname, List.getLast?_concat]
    rfl

end Node

namespace Rule

theorem uses_eq_countP {expr : Node} (hexpr : expr.Every NameAlone) (p : String) :
    uses expr p = (expr.order true none).countP (·.read? == some p) :=
  countP_seated p true none expr hexpr

theorem mem_bind_of_getElem? {params : List String} {arguments : List Node} {i : Nat} {p : String}
    {a : Node} (hp : params[i]? = some p) (ha : arguments[i]? = some a) :
    (p, a) ∈ bind params arguments := by
  induction params generalizing arguments i with
  | nil => cases hp
  | cons q qs ih =>
    cases arguments with
    | nil => cases ha
    | cons b bs =>
      cases i with
      | zero =>
        cases hp
        cases ha
        exact List.mem_cons_self ..
      | succ i => exact List.mem_cons_of_mem _ (ih hp ha)

theorem exists_used_of_mem_impure {self : Option String} {params : List String} {expr m : Node}
    {arguments : List Node} (h : instantiate? self params expr arguments = some m) {i : Nat}
    (hi : i ∈ impure arguments) : ∃ p, params[i]? = some p ∧ uses expr p = 1 := by
  obtain ⟨-, hsurplus, hguard, -⟩ := instantiate?_eq_some h
  obtain ⟨a, ha, himpure⟩ := mem_impure.mp hi
  cases hp : params[i]? with
  | some p =>
    refine ⟨p, rfl, (hguard p a (mem_bind_of_getElem? hp ha)).resolve_right ?_⟩
    rw [himpure]
    exact Bool.false_ne_true
  | none =>
    have hlength : params.length ≤ i := List.getElem?_eq_none_iff.mp hp
    have hmem : a ∈ arguments.drop params.length := by
      refine List.mem_iff_getElem?.mpr ⟨i - params.length, ?_⟩
      rw [List.getElem?_drop, Nat.add_sub_cancel' hlength, ha]
    have hpure := hsurplus a hmem
    rw [himpure] at hpure
    cases hpure

theorem lastIndex?_eq_some_iff {params : List String} {i : Nat} {p : String}
    (hp : params[i]? = some p) (x : String) :
    lastIndex? params x = some i ↔ x = p ∧ p ∉ params.drop (i + 1) := by
  rw [lastIndex?_eq_some, hp]
  constructor
  · rintro ⟨hx, hlast⟩
    cases hx
    exact ⟨rfl, hlast⟩
  · rintro ⟨rfl, hlast⟩
    exact ⟨rfl, hlast⟩

theorem argument?_eq_some_iff {params : List String} {i : Nat} {p : String}
    (hp : params[i]? = some p) (s : Moment) :
    argument? params s = some i ↔ s.read? = some p ∧ p ∉ params.drop (i + 1) := by
  rw [argument?, Option.bind_eq_some_iff]
  constructor
  · rintro ⟨x, hx, hlast⟩
    obtain ⟨rfl, hlast⟩ := (lastIndex?_eq_some_iff hp x).mp hlast
    exact ⟨hx, hlast⟩
  · rintro ⟨hread, hlast⟩
    exact ⟨p, hread, (lastIndex?_eq_some_iff hp p).mpr ⟨rfl, hlast⟩⟩

theorem fill_of_argument {params : List String} {arguments : List Node} {s : Moment} {i : Nat}
    (h : argument? params s = some i) :
    (bind params arguments).fill s = (argumentAt arguments i).order s.sure s.seat := by
  obtain ⟨x, hx, hlast⟩ := Option.bind_eq_some_iff.mp h
  rw [Binding.fill, hx, Option.bind_some, get?_bind, hlast]
  rfl

theorem fill_of_no_argument {params : List String} {arguments : List Node} {s : Moment}
    (h : argument? params s = none) : (bind params arguments).fill s = [s] := by
  cases hread : s.read? with
  | none =>
    rw [Binding.fill, hread]
    rfl
  | some x =>
    rw [argument?, hread, Option.bind_some] at h
    rw [Binding.fill, hread, Option.bind_some, get?_bind, h]
    rfl

theorem isEffect_of_read {s : Moment} {x : String} (h : s.read? = some x) : s.head.isEffect = false := by
  unfold Moment.read? at h
  split at h
  · rw [Head.eq_of_name? h]
    rfl
  · cases h

section
variable {self : Option String} {params : List String} {expr m : Node} {arguments : List Node}

theorem exists_of_once {i : Nat}
    (honce : (blocks params arguments expr).countP (·.argument == some i) = 1) :
    ∃ s ∈ expr.order true none, argument? params s = some i := by
  have hpos : 0 < (blocks params arguments expr).countP (·.argument == some i) := by
    rw [honce]
    exact Nat.one_pos
  rw [blocks, List.countP_map] at hpos
  obtain ⟨s, hs, hsi⟩ := List.countP_pos_iff.mp hpos
  exact ⟨s, hs, by simpa using hsi⟩

/-- An argument with effects is evaluated once unless a later parameter has the same name: then it is
not evaluated at all. -/
theorem once_iff_unrepeated (h : instantiate? self params expr arguments = some m)
    (hexpr : expr.Every NameAlone) :
    (∀ i ∈ impure arguments, (blocks params arguments expr).countP (·.argument == some i) = 1) ↔
      Unrepeated params arguments := by
  constructor
  · intro honce i hi p hp
    obtain ⟨s, -, hs⟩ := exists_of_once (honce i hi)
    exact ((argument?_eq_some_iff hp s).mp hs).2
  · intro hunrepeated i hi
    -- the rule has counted the reads of the name, and the name stands for this argument alone
    obtain ⟨p, hp, hused⟩ := exists_used_of_mem_impure h hi
    have hlast := hunrepeated i hi p hp
    rw [blocks, List.countP_map, ← hused, uses_eq_countP hexpr]
    refine List.countP_congr fun s _ => ?_
    simpa [hlast] using argument?_eq_some_iff hp s

variable (hunrepeated : Unrepeated params arguments)

theorem mem_demanding {p : String} :
    p ∈ demanding params arguments ↔ ∃ i ∈ impure arguments, params[i]? = some p := by
  rw [demanding, List.mem_filterMap]

include hunrepeated

theorem lastIndex?_of_demanding {p : String} (hp : p ∈ demanding params arguments) :
    ∃ i ∈ impure arguments, lastIndex? params p = some i := by
  obtain ⟨i, hi, hpi⟩ := mem_demanding.mp hp
  exact ⟨i, hi, (lastIndex?_eq_some_iff hpi p).mpr ⟨rfl, hunrepeated i hi p hpi⟩⟩

omit hunrepeated in
theorem demanding_of_lastIndex? {p : String} {i : Nat} (hi : i ∈ impure arguments)
    (hlast : lastIndex? params p = some i) : p ∈ demanding params arguments :=
  mem_demanding.mpr ⟨i, hi, (lastIndex?_eq_some.mp hlast).1⟩

theorem exists_argument_iff (s : Moment) :
    (∃ i ∈ impure arguments, argument? params s = some i) ↔
      ∃ p ∈ demanding params arguments, s.read? = some p := by
  constructor
  · rintro ⟨i, hi, hs⟩
    obtain ⟨x, hx, hlast⟩ := Option.bind_eq_some_iff.mp hs
    exact ⟨x, demanding_of_lastIndex? hi hlast, hx⟩
  · rintro ⟨p, hp, hs⟩
    obtain ⟨i, hi, hlast⟩ := lastIndex?_of_demanding hunrepeated hp
    exact ⟨i, hi, by rw [argument?, hs, Option.bind_some, hlast]⟩

/-- The arguments with effects in the order in which they are evaluated, from the reads of their
parameters. -/
theorem filter_argument (s : Moment) :
    (argument? params s).filter (· ∈ impure arguments) =
      (s.read?.filter (· ∈ demanding params arguments)).bind (lastIndex? params) := by
  cases hread : s.read? with
  | none => simp [argument?, hread]
  | some x =>
    rw [argument?, hread, Option.bind_some]
    by_cases hx : x ∈ demanding params arguments
    · obtain ⟨i, hi, hlast⟩ := lastIndex?_of_demanding hunrepeated hx
      simp [Option.filter, hx, hlast, hi]
    · cases hlast : lastIndex? params x with
      | none => simp [Option.filter, hx]
      | some i =>
        have hi : i ∉ impure arguments := fun hi => hx (demanding_of_lastIndex? hi hlast)
        simp [Option.filter, hx, hi]

theorem filter_read (s : Moment) :
    s.read?.filter (· ∈ demanding params arguments) =
      ((argument? params s).filter (· ∈ impure arguments)).bind (params[·]?) := by
  rw [filter_argument hunrepeated, Option.bind_assoc]
  cases hread : s.read? with
  | none => rfl
  | some x =>
    by_cases hx : x ∈ demanding params arguments
    · obtain ⟨i, hi, hlast⟩ := lastIndex?_of_demanding hunrepeated hx
      simp [Option.filter, hx, hlast, (lastIndex?_eq_some.mp hlast).1]
    · simp [Option.filter, hx]

omit hunrepeated in
theorem filterMap_lastIndex? (hunrepeated : Unrepeated params arguments)
    (h : instantiate? self params expr arguments = some m) :
    (demanding params arguments).filterMap (lastIndex? params) = impure arguments := by
  rw [demanding, List.filterMap_filterMap]
  refine (List.filterMap_congr fun i hi => ?_).trans List.filterMap_some
  obtain ⟨p, hp, -⟩ := exists_used_of_mem_impure h hi
  rw [hp, Option.bind_some]
  exact (lastIndex?_eq_some_iff hp p).mpr ⟨rfl, hunrepeated i hi p hp⟩

theorem inTurn_iff (h : instantiate? self params expr arguments = some m)
    (hexpr : expr.Every NameAlone) :
    ((blocks params arguments expr).filterMap
      fun b => b.argument.filter (· ∈ impure arguments)).Pairwise (· < ·) ↔
    ((expr.order true none).filterMap fun s => s.read?.filter (· ∈ demanding params arguments)) =
      demanding params arguments := by
  have hevaluated : ((blocks params arguments expr).filterMap
      fun b => b.argument.filter (· ∈ impure arguments)) =
      (expr.order true none).filterMap fun s => (argument? params s).filter (· ∈ impure arguments) :=
    List.filterMap_map
  rw [hevaluated]
  constructor
  · intro hpairwise
    have hsame : ((expr.order true none).filterMap
        fun s => (argument? params s).filter (· ∈ impure arguments)) = impure arguments := by
      -- both lists are increasing, so it is enough that they have the same members
      refine List.Pairwise.eq_of_mem_iff hpairwise (pairwise_impure arguments) fun i => ?_
      constructor
      · intro hi
        obtain ⟨s, -, hs⟩ := List.mem_filterMap.mp hi
        simpa using (Option.filter_eq_some_iff.mp hs).2
      · intro hi
        have honce := (once_iff_unrepeated h hexpr).mpr hunrepeated i hi
        obtain ⟨s, hs, hsi⟩ := exists_of_once honce
        exact List.mem_filterMap.mpr ⟨s, hs, by simp [hsi, Option.filter, hi]⟩
    rw [List.filterMap_congr fun s _ => filter_read hunrepeated s, ← List.filterMap_filterMap, hsame,
      demanding]
  · intro hreads
    have hsame : ((expr.order true none).filterMap
        fun s => (argument? params s).filter (· ∈ impure arguments)) = impure arguments := by
      rw [List.filterMap_congr fun s _ => filter_argument hunrepeated s, ← List.filterMap_filterMap,
        hreads]
      exact filterMap_lastIndex? hunrepeated h
    rw [hsame]
    exact pairwise_impure arguments

theorem sure_iff :
    (∀ b ∈ blocks params arguments expr, ∀ i ∈ impure arguments, b.argument = some i →
      ∀ s ∈ b.moments.getLast?, s.sure = true) ↔
    ∀ s ∈ expr.order true none, ∀ p ∈ demanding params arguments, s.read? = some p →
      s.sure = true := by
  rw [blocks, List.forall_mem_map]
  refine forall₂_congr fun s _ => ?_
  constructor
  · intro hsure p hp hread
    obtain ⟨i, hi, hs⟩ := (exists_argument_iff hunrepeated s).mpr ⟨p, hp, hread⟩
    refine hsure i hi hs ⟨(argumentAt arguments i).head, s.seat, s.sure⟩ ?_
    rw [fill_of_argument hs, getLast?_order]
    rfl
  · intro hsure i hi hs last hlast
    obtain ⟨p, hp, hread⟩ := (exists_argument_iff hunrepeated s).mp ⟨i, hi, hs⟩
    rw [fill_of_argument hs, getLast?_order] at hlast
    cases hlast
    exact hsure p hp hread

theorem first_iff :
    ((blocks params arguments expr).Pairwise fun b b' =>
      (∃ i ∈ impure arguments, b'.argument = some i) →
        b.argument = none → ∀ s ∈ b.moments, s.head.isEffect = false) ↔
    (expr.order true none).Pairwise fun s s' =>
      (∃ p ∈ demanding params arguments, s'.read? = some p) → s.head.isEffect = false := by
  rw [blocks, List.pairwise_map]
  refine List.Pairwise.iff fun s s' => ?_
  rw [exists_argument_iff hunrepeated s']
  refine imp_congr_right fun _ => ?_
  constructor
  · intro hbefore
    cases hs : argument? params s with
    | none =>
      refine hbefore hs s ?_
      rw [fill_of_no_argument hs]
      exact List.mem_singleton_self s
    | some i =>
      obtain ⟨x, hx, -⟩ := Option.bind_eq_some_iff.mp hs
      exact isEffect_of_read hx
  · intro heffect hs last hlast
    rw [fill_of_no_argument hs] at hlast
    cases List.mem_singleton.mp hlast
    exact heffect

omit hunrepeated in
theorem keepsEvaluation_iff_readsInTurn (h : instantiate? self params expr arguments = some m)
    (hexpr : expr.Every NameAlone) :
    KeepsEvaluation arguments (blocks params arguments expr) ↔ ReadsInTurn params arguments expr := by
  constructor
  · intro hkeeps
    have hunrepeated := (once_iff_unrepeated h hexpr).mp hkeeps.once
    exact ⟨hunrepeated, (sure_iff hunrepeated).mp hkeeps.sure,
      (inTurn_iff hunrepeated h hexpr).mp hkeeps.inTurn, (first_iff hunrepeated).mp hkeeps.first⟩
  · intro hreads
    have hunrepeated := hreads.unrepeated
    exact ⟨(once_iff_unrepeated h hexpr).mpr hunrepeated, (sure_iff hunrepeated).mpr hreads.sure,
      (inTurn_iff hunrepeated h hexpr).mpr hreads.inTurn, (first_iff hunrepeated).mpr hreads.first⟩

end

inductive Returns (fn : Node) : List String → Node → Prop
  | mk {self result : Option Node} {ps : List (Option Node)} {body : Slot Node}
      {params : List String} :
    fn.slots = [.one self, .many ps, body] → ps.mapM nameOf = .ok params →
    singleReturn? fn = .ok (some result) → Returns fn params (returned result)

theorem Returns.every {fn expr : Node} {params : List String} (h : Returns fn params expr)
    (hfn : fn.Every NameAlone) : expr.Every NameAlone := by
  obtain @⟨self, result, ps, _, _, hslots, -, hreturn⟩ := h
  cases result with
  | none => exact every_mk.mpr ⟨(nomatch ·), everySlots_nil⟩
  | some e =>
    obtain ⟨t, hd, s, s', body, u, rfl, hbody⟩ := singleReturn?_eq_some hreturn
    cases hslots
    have hstatement : .returnStatement u (some e) ∈
        (Node.mk t hd [.one self, .many ps, .one body]).walk := Expands.return_mem_walk t u hd hbody
    exact (everySlots_one.mp (every_mk.mp (hfn.below hstatement)).2).1

theorem returns_of_expand {fn m : Node} {arguments : List (Option Node)}
    (h : expand fn arguments = .ok (some m)) :
    ∃ self params expr, Returns fn params expr ∧
      instantiate? self params expr (arguments.filterMap id) = some m := by
  unfold expand at h
  obtain ⟨result, hresult, hrest⟩ := bind_eq_ok.mp h
  cases result with
  | none => cases hrest
  | some result =>
    dsimp only at hrest
    split at hrest
    · rename_i hslots
      obtain ⟨name, -, hrest⟩ := bind_eq_ok.mp hrest
      obtain ⟨params, hparams, hrest⟩ := bind_eq_ok.mp hrest
      exact ⟨name, params, _, .mk hslots hparams hresult, Except.ok.inj hrest⟩
    · cases hrest

/-- A call that is inlined is evaluated as its replacement exactly when the returned expression reads
the parameters of the arguments with effects in turn. -/
theorem keepsEvaluation_iff {site : Site} {t : Tag} {callee : Node} {arguments : List (Option Node)}
    {o : Outcome} (h : inlineReturn site (.callExpression t callee arguments) = .ok (some o))
    (htree : (site.trail.plug (.callExpression t callee arguments)).Every NameAlone)
    (hfacts : ∀ e ∈ site.facts.functions, e.2.Every NameAlone) :
    ∃ fn params expr m, called? site (.callExpression t callee arguments) callee = some fn ∧
      Returns fn params expr ∧ o = .replace m ∧
      m.order true none =
        (blocks params (arguments.filterMap id) expr).flatMap Block.moments ∧
      (KeepsEvaluation (arguments.filterMap id) (blocks params (arguments.filterMap id) expr) ↔
        ReadsInTurn params (arguments.filterMap id) expr) := by
  unfold inlineReturn at h
  dsimp only at h
  split at h
  · cases h
  · rename_i fn hcalled
    obtain ⟨m, hm, hrest⟩ := bind_eq_ok.mp h
    cases m with
    | none => cases hrest
    | some m =>
      cases hrest
      obtain ⟨self, params, expr, hreturns, hinstance⟩ := returns_of_expand hm
      have hcallee : callee ∈ (Node.callExpression t callee arguments).walk := by
        simp [walk, walkSlots, self_mem_walk]
      have hexpr := hreturns.every (every_called hcalled hcallee htree hfacts)
      refine ⟨fn, params, expr, m, hcalled, hreturns, rfl, ?_,
        keepsEvaluation_iff_readsInTurn hinstance hexpr⟩
      rw [order_instantiate hinstance, blocks, List.flatMap_map]

def sumOf (first second : String) : Node :=
  .binaryExpression (.fresh none) "+" (.identifier (.fresh none) first)
    (.identifier (.fresh none) second)

def adder (first second : String) : Node :=
  .functionExpression (.fresh none) none
    [some (.identifier (.fresh none) "a"), some (.identifier (.fresh none) "b")]
    (some (.blockStatement (.fresh none) [some (.returnStatement (.fresh none) (some (sumOf first second)))]))

def callOf (f : String) : Node := .callExpression (.fresh none) (.identifier (.fresh none) f) []

/-- `(function (a, b) { return first + second; })(g(), h())` -/
def adding (first second : String) : Node :=
  .callExpression (.fresh none) (adder first second) [some (callOf "g"), some (callOf "h")]

theorem adding_keepsEvaluation :
    inlineReturn ⟨[], {}, {}, []⟩ (adding "a" "b") =
      .ok (some (.replace (.binaryExpression (.fresh none) "+" (callOf "g") (callOf "h")))) ∧
    KeepsEvaluation [callOf "g", callOf "h"]
      (blocks ["a", "b"] [callOf "g", callOf "h"] (sumOf "a" "b")) := by
  have hinlined : inlineReturn ⟨[], {}, {}, []⟩ (adding "a" "b") =
    .ok (some (.replace (.binaryExpression (.fresh none) "+" (callOf "g") (callOf "h")))) := rfl
  refine ⟨hinlined, ?_⟩
  obtain ⟨fn, params, expr, m, hcalled, hreturns, -, -, hiff⟩ :=
    keepsEvaluation_iff hinlined (by decide +kernel) (by decide +kernel)
  cases hcalled
  obtain ⟨hslots, hparams, hreturn⟩ := hreturns
  cases hslots
  cases hparams
  cases hreturn
  exact hiff.mpr ⟨by decide +kernel, by decide +kernel, by decide +kernel, by decide +kernel⟩

/-- The second argument is called before the first one. -/
theorem adding_reverses :
    inlineReturn ⟨[], {}, {}, []⟩ (adding "b" "a") =
      .ok (some (.replace (.binaryExpression (.fresh none) "+" (callOf "h") (callOf "g")))) ∧
    ¬ KeepsEvaluation [callOf "g", callOf "h"]
      (blocks ["a", "b"] [callOf "g", callOf "h"] (sumOf "b" "a")) := by
  refine ⟨rfl, fun hkeeps => ?_⟩
  have hturn := hkeeps.inTurn
  revert hturn
  decide +kernel

end Rule
end Unravel
