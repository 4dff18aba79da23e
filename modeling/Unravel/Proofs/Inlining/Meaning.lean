import Mathlib.Logic.Function.Basic
import Unravel.Proofs.Inlining.Order

/-! Inlining is simultaneous substitution: whatever expressions mean, as long as the meaning of a node is
made of the meanings of its parts and a variable means what the environment holds, the replacement of
a call means what the returned expression means with its parameters bound to the arguments. -/

namespace Unravel

open Node

inductive Part (V : Type) where
  | name (x : String)
  | value (v : V)
deriving DecidableEq, Repr

variable {V : Type}

def Part.of (seat : Option Seat) (c : Node) (v : V) : Part V :=
  match c.name? with
  | some x => if isReference seat then .value v else .name x
  | none => .value v

theorem Part.of_read {seat : Option Seat} (hread : isReference seat = true) (c : Node) (v : V) :
    Part.of seat c v = .value v := by
  unfold Part.of
  rw [hread]
  split <;> rfl

theorem Part.of_compound {c : Node} (hname : c.name? = none) (seat : Option Seat) (v : V) :
    Part.of seat c v = .value v := by
  rw [Part.of, hname]

theorem Part.of_congr {c c' : Node} (hname : c.name? = c'.name?) (seat : Option Seat) (v : V) :
    Part.of seat c v = Part.of seat c' v := by
  rw [Part.of, Part.of, hname]

def parts (eval : Node → V) (h : Head) : List Field → List (Slot Node) → List (Slot (Part V))
  | _, [] => []
  | fs, s :: ss =>
    s.view (fun c => Part.of (fs.head?.map (⟨h, ·⟩)) c (eval c)) :: parts eval h fs.tail ss

/-- Whether a node means more than its parts: a variable, and what depends on the function around it. -/
def Head.isContextual : Head → Bool
  | .identifier _ | .functionDeclaration | .functionExpression | .thisExpression => true
  | _ => false

/-- A meaning for expressions without side effects. A variable that is read means what the environment
holds, the meaning of a node is made of its head and its parts, and a copy means the same. What
functions and `this` mean is left open. -/
structure Denotation (V : Type) where
  eval : (String → V) → Node → V
  eval_identifier (env : String → V) (t : Tag) (x : String) (ss : List (Slot Node)) :
    eval env (.mk t (.identifier x) ss) = env x
  eval_congr {env env' : String → V} {t t' : Tag} {h : Head} {ss ss' : List (Slot Node)} :
    h.isContextual = false →
    parts (eval env) h h.kind.fields ss = parts (eval env') h h.kind.fields ss' →
    eval env (.mk t h ss) = eval env' (.mk t' h ss')
  eval_unmarked (env : String → V) (n : Node) : eval env n.unmarked = eval env n

section
variable (op : Head → List (Slot (Part V)) → V) (env : String → V)

mutual

def meaning : Node → V
  | .mk _ (.identifier x) _ => env x
  | .mk _ h ss => op h (meaningSlots h h.kind.fields ss)

def meaningSlots (h : Head) (fs : List Field) : List (Slot Node) → List (Slot (Part V))
  | [] => []
  | .one none :: ss => .one none :: meaningSlots h fs.tail ss
  | .one (some c) :: ss =>
    .one (some (.of (fs.head?.map (⟨h, ·⟩)) c (meaning c))) :: meaningSlots h fs.tail ss
  | .many cs :: ss => .many (meaningItems (fs.head?.map (⟨h, ·⟩)) cs) :: meaningSlots h fs.tail ss

def meaningItems (seat : Option Seat) : List (Option Node) → List (Option (Part V))
  | [] => []
  | none :: cs => none :: meaningItems seat cs
  | some c :: cs => some (.of seat c (meaning c)) :: meaningItems seat cs

end

theorem meaningItems_eq (seat : Option Seat) (cs : List (Option Node)) :
    meaningItems op env seat cs = cs.map (·.map fun c => Part.of seat c (meaning op env c)) :=
  items_eq_map (fun c => Part.of seat c (meaning op env c)) (meaningItems op env seat) rfl
    (fun _ => rfl) (fun _ _ => rfl) cs

theorem meaningSlots_eq (h : Head) (fs : List Field) (ss : List (Slot Node)) :
    meaningSlots op env h fs ss = parts (meaning op env) h fs ss := by
  induction ss generalizing fs with
  | nil => rfl
  | cons s ss ih =>
    obtain (_ | c) | cs := s
    · simp [meaningSlots, parts, Slot.view, ih]
    · simp [meaningSlots, parts, Slot.view, ih]
    · simp [meaningSlots, parts, Slot.view, ih, meaningItems_eq]

theorem meaning_mk {h : Head} (hname : h.name? = none) (t : Tag) (ss : List (Slot Node)) :
    meaning op env (.mk t h ss) = op h (parts (meaning op env) h h.kind.fields ss) := by
  rw [meaning, meaningSlots_eq]
  rintro x rfl
  cases hname

mutual

theorem meaning_unmarked (seat : Option Seat) : (n : Node) →
    meaning op env (relabel unmarking seat n ()).1 = meaning op env n
  | .mk t h ss => by
    cases hname : h.name? with
    | some x =>
      cases Head.eq_of_name? hname
      rw [relabel, meaning, meaning]
    | none =>
      have hbelow := parts_unmarked h h.kind.fields ss
      rw [relabel, meaning_mk op env hname, meaning_mk op env hname]
      exact congrArg (op h) hbelow

theorem parts_unmarked (h : Head) (fs : List Field) : (ss : List (Slot Node)) →
    parts (meaning op env) h fs (relabelSlots unmarking h fs ss ()).1 =
      parts (meaning op env) h fs ss
  | [] => rfl
  | .one none :: ss => by
    simp only [relabelSlots, parts, Slot.view, Option.map_none, parts_unmarked h fs.tail ss]
  | .one (some c) :: ss => by
    have hname (seat : Option Seat) : (relabel unmarking seat c ()).1.name? = c.name? :=
      name?_congr (head_relabel unmarking_keepsHeads seat c ())
    simp only [relabelSlots, parts, Slot.view, Option.map_some, meaning_unmarked _ c,
      Part.of_congr (hname _), parts_unmarked h fs.tail ss]
  | .many cs :: ss => by
    simp only [relabelSlots, parts, Slot.view, items_unmarked _ cs, parts_unmarked h fs.tail ss]

theorem items_unmarked (seat : Option Seat) : (cs : List (Option Node)) →
    (relabelItems unmarking seat cs ()).1.map
        (·.map fun c => Part.of seat c (meaning op env c)) =
      cs.map (·.map fun c => Part.of seat c (meaning op env c))
  | [] => rfl
  | none :: cs => by simp only [relabelItems, List.map_cons, Option.map_none, items_unmarked seat cs]
  | some c :: cs => by
    have hname : (relabel unmarking seat c ()).1.name? = c.name? :=
      name?_congr (head_relabel unmarking_keepsHeads seat c ())
    simp only [relabelItems, List.map_cons, Option.map_some, meaning_unmarked _ c,
      Part.of_congr hname, items_unmarked seat cs]

end

end

def Denotation.ofOperations (op : Head → List (Slot (Part V)) → V) : Denotation V where
  eval := meaning op
  eval_identifier env t x ss := by rw [meaning]
  eval_congr {env env' t t' h ss ss'} hopen hparts := by
    have hname : h.name? = none := by cases h <;> first | rfl | cases hopen
    rw [meaning_mk op env hname, meaning_mk op env' hname, hparts]
  eval_unmarked env n := meaning_unmarked op env none n

/-- Binds parameters one after the other, so that the last one of a name counts; a parameter without an
argument is undefined. -/
def enter (undefined : V) : (String → V) → List String → List V → String → V
  | env, [], _ => env
  | env, p :: ps, [] => enter undefined (Function.update env p undefined) ps []
  | env, p :: ps, v :: vs => enter undefined (Function.update env p v) ps vs

def Denotation.undefined (D : Denotation V) (env : String → V) : V :=
  D.eval env (.literal (.fresh none) .undefined)

namespace Rule

theorem getD_get?_cons (value : Node → V) (env : String → V) (b : Binding) (p x : String) (a : Node) :
    ((Binding.get? ((p, a) :: b) x).map value).getD (env x) =
      ((b.get? x).map value).getD (Function.update env p (value a) x) := by
  rw [Binding.get?_cons]
  cases b.get? x with
  | some => rfl
  | none =>
    by_cases hp : p = x
    · subst hp
      simp
    · simp [hp, Function.update_of_ne (Ne.symm hp)]

theorem enter_bind (value : Node → V) (params : List String) (arguments : List Node)
    (env : String → V) (x : String) :
    enter (value (.literal (.fresh none) .undefined)) env params (arguments.map value) x =
      (((bind params arguments).get? x).map value).getD (env x) := by
  induction params generalizing arguments env with
  | nil => rfl
  | cons p ps ih =>
    cases arguments with
    | nil =>
      rw [bind, getD_get?_cons]
      exact ih [] _
    | cons a as =>
      rw [bind, getD_get?_cons]
      exact ih as _

section
variable {D : Denotation V} {b : Binding} {env env' : String → V}

mutual

theorem part_substitute (henv : ∀ x, env' x = ((b.get? x).map (D.eval env)).getD (env x))
    (seat : Option Seat) : (n : Node) →
    n.Every (fun c => c.head.name? = none → c.head.isContextual = false) →
    Part.of seat (substitute b seat n) (D.eval env (substitute b seat n)) =
      Part.of seat n (D.eval env' n)
  | .mk t h ss, hn => by
    obtain ⟨hself, hss⟩ := every_mk.mp hn
    cases hname : h.name? with
    | some x =>
      cases Head.eq_of_name? hname
      rw [substitute]
      split
      · rename_i hread
        rw [Part.of_read hread, Part.of_read hread, D.eval_identifier, henv]
        cases b.get? x with
        | none => exact congrArg Part.value (D.eval_identifier env t x ss)
        | some a => exact congrArg Part.value (D.eval_unmarked env a)
      · rename_i hfixed
        simp [Part.of, Node.name?, hfixed]
    | none =>
      have hnone (ss' : List (Slot Node)) : (Node.mk t h ss').name? = none := by
        rw [Node.name?_eq_comp]
        exact hname
      have hbelow := parts_substitute henv h h.kind.fields ss hss
      rw [substitute_mk hname, Part.of_compound (hnone _), Part.of_compound (hnone _)]
      exact congrArg Part.value (D.eval_congr (hself hname) hbelow)

theorem parts_substitute (henv : ∀ x, env' x = ((b.get? x).map (D.eval env)).getD (env x)) (h : Head)
    (fs : List Field) : (ss : List (Slot Node)) →
    EverySlots (fun c => c.head.name? = none → c.head.isContextual = false) ss →
    parts (D.eval env) h fs (substituteSlots b h fs ss) = parts (D.eval env') h fs ss
  | [], _ => rfl
  | .one none :: ss, hss => by
    simp only [substituteSlots, parts, Slot.view, Option.map_none,
      parts_substitute henv h fs.tail ss hss]
  | .one (some c) :: ss, hss => by
    obtain ⟨hc, hrest⟩ := everySlots_one.mp hss
    simp only [substituteSlots, parts, Slot.view, Option.map_some, part_substitute henv _ c hc,
      parts_substitute henv h fs.tail ss hrest]
  | .many cs :: ss, hss => by
    obtain ⟨hcs, hrest⟩ := everySlots_many.mp hss
    simp only [substituteSlots, parts, Slot.view, items_substitute henv _ cs hcs,
      parts_substitute henv h fs.tail ss hrest]

theorem items_substitute (henv : ∀ x, env' x = ((b.get? x).map (D.eval env)).getD (env x))
    (seat : Option Seat) : (cs : List (Option Node)) →
    EveryItems (fun c => c.head.name? = none → c.head.isContextual = false) cs →
    (substituteItems b seat cs).map (·.map fun c => Part.of seat c (D.eval env c)) =
      cs.map (·.map fun c => Part.of seat c (D.eval env' c))
  | [], _ => rfl
  | none :: cs, hcs => by
    simp only [substituteItems, List.map_cons, Option.map_none, items_substitute henv seat cs hcs]
  | some c :: cs, hcs => by
    obtain ⟨hc, hrest⟩ := everyItems_some.mp hcs
    simp only [substituteItems, List.map_cons, Option.map_some, part_substitute henv seat c hc,
      items_substitute henv seat cs hrest]

end

end

theorem not_isContextual_of_not_blocked {self : Option String} {params : List String} {c : Node}
    {seat : Option Seat} (h : blocksInlining self params c seat = false)
    (hname : c.head.name? = none) : c.head.isContextual = false := by
  unfold blocksInlining at h
  cases hhead : c.head <;> rw [hhead] at h hname <;> first | rfl | cases h | cases hname

/-- The replacement of a call means what the returned expression means when each parameter is bound to
what its argument means at the call. Of the returned expression only the reads of parameters are
replaced, each by its argument as it stands in the call: all other nodes, names of properties and keys
among them, stay in their places. -/
theorem instantiate_denotes {self : Option String} {params : List String} {expr m : Node}
    {arguments : List Node} (h : instantiate? self params expr arguments = some m) :
    (∀ (V : Type) (D : Denotation V) (env : String → V), D.eval env m =
      D.eval (enter (D.undefined env) env params (arguments.map (D.eval env))) expr) ∧
    m.order true none = (expr.order true none).flatMap (bind params arguments).fill := by
  refine ⟨fun V D env => ?_, order_instantiate h⟩
  obtain ⟨hopen, -, -, rfl⟩ := instantiate?_eq_some h
  have hcopy : expr.unmarked.Every fun c => c.head.name? = none → c.head.isContextual = false := by
    intro c hc
    obtain ⟨-, d, hd, hhead⟩ := exists_of_mem_walk_unmarked hc
    obtain ⟨seat, hseat⟩ := exists_seat none expr hd
    rw [← hhead]
    exact not_isContextual_of_not_blocked (hopen d seat hseat)
  have henv := enter_bind (D.eval env) params arguments env
  have hpart := part_substitute henv none expr.unmarked hcopy
  rw [Part.of_read rfl, Part.of_read rfl] at hpart
  calc D.eval env (substitute (bind params arguments) none expr.unmarked)
      = D.eval (enter (D.undefined env) env params (arguments.map (D.eval env))) expr.unmarked :=
        Part.value.inj hpart
    _ = D.eval (enter (D.undefined env) env params (arguments.map (D.eval env))) expr :=
        D.eval_unmarked _ expr

/-- Integers with their sums; the value of a property depends on its object and its name. -/
def sums : Denotation Int := .ofOperations fun
  | .literal (.int n), _ => n
  | .binaryExpression "+", [.one (some (.value m)), .one (some (.value n))] => m + n
  | .memberExpression false, [.one (some (.value n)), .one (some (.name x))] => n + x.length
  | _, _ => 0

/-- `(function (x, y, x) { return o.x + x; })(1, 2, x + y)` becomes `o.x + (x + y)`. -/
theorem sums_of_instantiate :
    let name (x : String) : Node := .identifier (.fresh none) x
    let plus (a b : Node) : Node := .binaryExpression (.fresh none) "+" a b
    let property : Node := .memberExpression (.fresh none) false (name "o") (name "x")
    let arguments : List Node := [.literal (.fresh none) (.int 1), .literal (.fresh none) (.int 2),
      plus (name "x") (name "y")]
    let params := ["x", "y", "x"]
    let env (x : String) : Int := if x = "o" then 100 else if x = "x" then 7 else 20
    instantiate? none params (plus property (name "x")) arguments =
      some (plus property (plus (name "x") (name "y"))) ∧
    sums.eval env (plus property (plus (name "x") (name "y"))) = 128 ∧
    sums.eval (enter (sums.undefined env) env params (arguments.map (sums.eval env)))
      (plus property (name "x")) = 128 ∧
    (plus property (plus (name "x") (name "y"))).order true none =
      ((plus property (name "x")).order true none).flatMap (bind params arguments).fill := by
  intro name plus property arguments params env
  have hinline : instantiate? none params (plus property (name "x")) arguments =
    some (plus property (plus (name "x") (name "y"))) := rfl
  have hvalue : sums.eval env (plus property (plus (name "x") (name "y"))) = 128 := by decide +kernel
  obtain ⟨hdenotes, horder⟩ := instantiate_denotes hinline
  refine ⟨hinline, hvalue, ?_, horder⟩
  rw [← hdenotes, hvalue]

end Rule
end Unravel
