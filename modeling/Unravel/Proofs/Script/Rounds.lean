import Unravel.Proofs.Loop.Trips
import Unravel.Proofs.Pass.Exact
import Unravel.Proofs.Script.Keep
import Unravel.Rule.Unwrap

/-! Loops over scripts. A loop that is counted leaves its counter to its update, as long as no `var` of
its body gives the counter a value; and then a loop that is unwrapped runs its body once. -/

namespace Unravel.Script

open Node Loop

structure Course where
  lead : Run Unit
  first : Run Bool
  next : Run Bool
  body : Node

section
variable (other : Operators)

def evaluate : Option Node → Run Unit
  | none => pure ()
  | some e => do
    let _ ← eval other e

def condition : Option Node → Run Bool
  | none => pure true
  | some e => do return isTrue (← eval other e)

def lead : Option Node → Run Unit
  | some (.variableDeclaration t kind ds) => do
    modify (.enter (blockScope [some (.variableDeclaration t kind ds)]))
    declare other kind ds
  | init => evaluate other init

def course : Node → Option Course
  | .mk _ .forStatement [.one init, .one test, .one update, .one (some body)] => some {
      lead := lead other init
      first := condition other test
      next := do
        evaluate other update
        condition other test
      body }
  | .mk _ .doWhileStatement [.one (some body), .one (some test)] => some {
      lead := pure ()
      first := pure true
      next := condition other (some test)
      body }
  | _ => none

inductive Course.Rounds (c : Course) : Run Bool → Store → Nat → Prop where
  | stop {enter : Run Bool} {r : Except Unit Bool} {st st' : Store} :
    enter st = some (r, st') → r ≠ .ok true → Rounds c enter st 0
  | throws {enter : Run Bool} {st st' st'' : Store} :
    enter st = some (.ok true, st') → execBody other c.body st' = some (.error (), st'') →
    Rounds c enter st 1
  | again {enter : Run Bool} {st st' st'' : Store} {n : Nat} :
    enter st = some (.ok true, st') → execBody other c.body st' = some (.ok (), st'') →
    Rounds c c.next st'' n → Rounds c enter st (n + 1)

end

def counterOf : Node → Option (String × Number)
  | .mk _ .forStatement (.one init :: _) => (counter? init).toOption.join
  | _ => none

/-- What drives a `for` are doubles, and its test does not see that the first step is rounded. -/
def StepsFaithfully : Node → Prop
  | .mk _ .forStatement [.one init, .one test, .one update, _] =>
    (∀ e, some e ∈ [init, test, update] → e.Exact) ∧
    ∀ name start p step sum rounded, counter? init = .ok (some (name, start)) →
      test? name test = some p → Loop.step? name update = some step →
      start.add step = .ok sum → Value.add (.number start) (.number step) = .ok (.number rounded) →
      p rounded = p sum
  | _ => True

variable {other : Operators}

theorem Course.rounds_stop_iff {c : Course} {enter : Run Bool} {r : Except Unit Bool} {st st' : Store}
    (henter : enter st = some (r, st')) (hne : r ≠ .ok true) {n : Nat} :
    c.Rounds other enter st n ↔ n = 0 := by
  constructor
  · intro h
    cases h with
    | stop => rfl
    | throws h | again h =>
      rw [henter] at h
      cases h
      exact (hne rfl).elim
  · rintro rfl
    exact .stop henter hne

theorem Course.rounds_enter_iff {c : Course} {enter : Run Bool} {r : Except Unit Unit}
    {st st' st'' : Store} (henter : enter st = some (.ok true, st'))
    (hbody : execBody other c.body st' = some (r, st'')) {n : Nat} :
    c.Rounds other enter st n ↔
      (r = .error () ∧ n = 1) ∨ (r = .ok () ∧ ∃ m, c.Rounds other c.next st'' m ∧ n = m + 1) := by
  constructor
  · intro h
    cases h with
    | stop h hne =>
      rw [henter] at h
      cases h
      exact (hne rfl).elim
    | throws h h' =>
      rw [henter] at h
      cases h
      rw [hbody] at h'
      cases h'
      exact .inl ⟨rfl, rfl⟩
    | again h h' hrest =>
      rw [henter] at h
      cases h
      rw [hbody] at h'
      cases h'
      exact .inr ⟨rfl, _, hrest, rfl⟩
  · rintro (⟨rfl, rfl⟩ | ⟨rfl, m, hrest, rfl⟩)
    · exact .throws henter hbody
    · exact .again henter hbody hrest

/-- A loop that goes on once and then not again. -/
theorem Course.rounds_iff {c : Course} {enter : Run Bool} {st st' st'' : Store} {r : Except Unit Unit}
    (henter : enter st = some (.ok true, st')) (hbody : execBody other c.body st' = some (r, st''))
    (hnext : ∃ r' st₃, c.next st'' = some (r', st₃) ∧ r' ≠ .ok true) {n : Nat} :
    c.Rounds other enter st n ↔ n = 1 := by
  obtain ⟨r', st₃, hr', hne⟩ := hnext
  simp only [rounds_enter_iff henter hbody, rounds_stop_iff hr' hne, exists_eq_left, Nat.zero_add]
  cases r <;> simp

theorem Course.not_rounds_one {c : Course} {enter : Run Bool} {st st' st'' st₃ st₄ : Store}
    {r : Except Unit Unit}
    (henter : enter st = some (.ok true, st')) (hbody : execBody other c.body st' = some (.ok (), st''))
    (hnext : c.next st'' = some (.ok true, st₃)) (hbody' : execBody other c.body st₃ = some (r, st₄)) :
    ¬ c.Rounds other enter st 1 := by
  simp [rounds_enter_iff henter hbody, rounds_enter_iff hnext hbody']

/-! Nodes that a count is made from, as they run. -/

variable {name : String} {v : Value} {x : Number} {st st' : Store}

theorem condition_comparison {t : Tag} {operator : String} {left right : Node} {a b : Number}
    {compares : Number → Number → Bool} (hcompares : Number.comparison? operator = some compares)
    (ha : eval other left st = some (.ok (.number a), st))
    (hb : eval other right st = some (.ok (.number b), st)) :
    condition other (some (.binaryExpression t operator left right)) st =
      some (.ok (compares a b), st) := by
  have hoperate : operate other operator (.number a) (.number b) = some (.bool (compares a b)) := by
    unfold operate
    unfold Number.comparison? at hcompares
    split at hcompares <;> cases hcompares <;> rfl
  have heval : eval other (.binaryExpression t operator left right) st =
      some (.ok (.bool (compares a b)), st) := by
    rw [eval, Run.bind_of_ok ha, Run.bind_of_ok hb, hoperate]
    rfl
  rw [condition, Run.bind_of_ok heval]
  rfl

theorem eval_counter {t : Tag} (hread : st.read name = some v) :
    eval other (.identifier t name) st = some (.ok v, st) := by
  rw [eval, Run.read_eq, hread]

theorem literalValue_eq (h : v.isExact = true) : literalValue v = v := by
  match v with
  | .int n => exact if_pos (of_decide_eq_true h)
  | .float _ | .undefined | .null | .bool _ | .str _ | .foreign _ => rfl

theorem eval_literal {t : Tag} (hexact : (Node.literal t v).Exact) :
    eval other (.literal t v) = pure v := by
  rw [eval, literalValue_eq hexact.self]

theorem condition_test (other : Operators) {test : Option Node} {p : Number → Bool}
    (htest : test? name test = some p) (hexact : ∀ e, test = some e → e.Exact)
    (hread : st.read name = some (.number x)) :
    condition other test st = some (.ok (p x), st) := by
  unfold test? at htest
  split at htest
  case h_2 => cases htest
  case h_1 t operator left right =>
    have hslots := (every_mk.mp (hexact _ rfl)).2
    simp only [everySlots_one] at hslots
    obtain ⟨hleft, hright, -⟩ := hslots
    split at htest
    case h_1 => cases htest
    case h_2 compares hcompares =>
      split at htest
      case h_3 => cases htest
      case h_1 u counter w bound =>
        obtain ⟨hname, htest⟩ := Option.ite_none_right_eq_some.mp htest
        cases htest
        rw [beq_iff_eq.mp hname]
        exact condition_comparison hcompares (eval_counter hread) (by rw [eval_literal hright]; rfl)
      case h_2 w bound u counter =>
        obtain ⟨hname, htest⟩ := Option.ite_none_right_eq_some.mp htest
        cases htest
        rw [beq_iff_eq.mp hname]
        exact condition_comparison hcompares (by rw [eval_literal hleft]; rfl) (eval_counter hread)

theorem write_ends (name : String) (v : Value) (st : Store) :
    Run.write name v st = some (.error (), st) ∨
      ∃ st', Run.write name v st = some (.ok (), st') ∧ st'.read name = some v := by
  cases h : Store.assign name v st.blocks st.vars with
  | none => exact .inl (Run.write_of_none h)
  | some st' => exact .inr ⟨st', Run.write_of_some h, Store.read_assign h⟩

theorem evaluate_write {e : Node} {w : Value}
    (he : eval other e st = (do Run.write name v; return w) st) :
    evaluate other (some e) st = some (.error (), st) ∨
      ∃ st', evaluate other (some e) st = some (.ok (), st') ∧ st'.read name = some v := by
  rcases write_ends name v st with h | ⟨st', h, hread⟩
  · rw [Run.bind_of_throw h] at he
    exact .inl (Run.bind_of_throw he)
  · rw [Run.bind_of_ok h] at he
    exact .inr ⟨st', (Run.bind_of_ok (he.trans rfl)).trans rfl, hread⟩

theorem operate_plus {operator : String} {a b : Number} (h : operator = "+" ∨ operator = "+=") :
    operate other operator (.number a) (.number b) =
      (Value.add (.number a) (.number b)).toOption := by
  have hplus : (operator = "+" || operator = "+=") = true := by simpa using h
  rw [operate, if_pos hplus]

theorem operate_minus {operator : String} {a b : Number} (h : operator = "-" ∨ operator = "-=") :
    operate other operator (.number a) (.number b) =
      (Value.add (.number a) (.number b.neg)).toOption := by
  have hplus : ¬ (operator = "+" || operator = "+=") = true := by rcases h with rfl | rfl <;> decide
  have hminus : (operator = "-" || operator = "-=") = true := by simpa using h
  rw [operate, if_neg hplus, if_pos hminus]

theorem eval_step (other : Operators) {update : Option Node} {step : Number}
    (hstep : Loop.step? name update = some step) (hexact : ∀ e, update = some e → e.Exact)
    (hread : st.read name = some (.number x)) :
    ∃ e, ∃ result : Value → Value, update = some e ∧ eval other e st = (do
      let sum ← Run.orThrow (Value.add (.number x) (.number step)).toOption
      Run.write name sum
      return result sum) st := by
  have hcounter : Run.read name st = some (.ok (.number x), st) := by rw [Run.read_eq, hread]
  unfold Loop.step? at hstep
  split at hstep
  case h_3 => cases hstep
  case h_1 t operator before u counter =>
    obtain ⟨hname, hstep⟩ := Option.ite_none_right_eq_some.mp hstep
    have hoperate : operate other (if operator = "++" then "+" else "-") (.number x) (.int 1) =
        (Value.add (.number x) (.number step)).toOption := by
      cases hstep
      by_cases hincrement : operator = "++"
      · rw [if_pos hincrement, if_pos (beq_iff_eq.mpr hincrement)]
        exact operate_plus (.inl rfl)
      · rw [if_neg hincrement, if_neg (beq_iff_eq.not.mpr hincrement)]
        exact operate_minus (.inl rfl)
    refine ⟨_, fun sum => if before then sum else .number x, rfl, ?_⟩
    rw [beq_iff_eq.mp hname, eval, Run.bind_of_ok hcounter, ← hoperate]
    rfl
  case h_2 t operator u counter w amount =>
    obtain ⟨hname, hstep⟩ := Option.ite_none_right_eq_some.mp hstep
    have hslots := (every_mk.mp (hexact _ rfl)).2
    simp only [everySlots_one] at hslots
    have hoperate : operator ≠ "=" ∧ operate other operator (.number x) (.number amount) =
        (Value.add (.number x) (.number step)).toOption := by
      split at hstep <;> cases hstep
      · exact ⟨by decide, operate_plus (.inr rfl)⟩
      · exact ⟨by decide, operate_minus (.inr rfl)⟩
    refine ⟨_, id, rfl, ?_⟩
    rw [beq_iff_eq.mp hname, eval, if_neg hoperate.1, Run.bind_of_ok hcounter,
      eval_literal hslots.2.1, pure_bind, hoperate.2]
    rfl

theorem evaluate_update (other : Operators) {update : Option Node} {step : Number}
    (hstep : Loop.step? name update = some step) (hexact : ∀ e, update = some e → e.Exact)
    (hread : st.read name = some (.number x)) :
    evaluate other update st = some (.error (), st) ∨
      ∃ st' sum, evaluate other update st = some (.ok (), st') ∧ st'.read name = some sum ∧
        Value.add (.number x) (.number step) = .ok sum := by
  obtain ⟨e, result, rfl, heval⟩ := eval_step other hstep hexact hread
  cases hadd : Value.add (.number x) (.number step) with
  | error =>
    have hnone : (Run.orThrow none : Run Value) st = some (.error (), st) := rfl
    rw [hadd, Except.toOption, Run.bind_of_throw hnone] at heval
    exact .inl (Run.bind_of_throw heval)
  | ok sum =>
    have hsome : Run.orThrow (some sum) st = some (.ok sum, st) := rfl
    rw [hadd, Except.toOption, Run.bind_of_ok hsome] at heval
    rcases evaluate_write heval with hthrow | ⟨st', hend, hread⟩
    · exact .inl hthrow
    · exact .inr ⟨st', sum, hend, hread, rfl⟩

theorem read_of_give {kind : String} {s : Scope}
    (h : give kind name v (st.enter s) = some (.ok (), st')) : st'.read name = some v := by
  unfold give at h
  split at h
  case isTrue =>
    rcases write_ends name v (st.enter s) with hthrow | ⟨st'', hend, hread⟩
    · cases hthrow.symm.trans h
    · cases hend.symm.trans h
      exact hread
  case isFalse =>
    cases h
    simp [Store.settle, Store.enter, Store.read]

theorem counter?_cases {init : Option Node} {start : Number}
    (h : counter? init = .ok (some (name, start))) :
    (∃ t kind u id w, init = some (.variableDeclaration t kind
      [some (.variableDeclarator u (some id) (some (.literal w (.number start))))]) ∧
      id.name? = some name) ∨
    ∃ t u w, init = some (.assignmentExpression t "=" (.identifier u name)
      (.literal w (.number start))) := by
  unfold counter? at h
  split at h
  case h_3 => cases h
  case h_2 t u _ w _ =>
    cases h
    exact .inr ⟨t, u, w, rfl⟩
  case h_1 t kind declarator =>
    split at h
    case h_2 => cases h
    case h_3 => cases h
    case h_1 u id w _ =>
      split at h
      case h_2 => cases h
      case h_1 hname =>
        cases h
        obtain ⟨id, rfl, hname⟩ := Option.bind_eq_some_iff.mp hname
        exact .inl ⟨t, kind, u, id, w, rfl, hname⟩

theorem read_lead {init : Option Node} {start : Number}
    (hcounter : counter? init = .ok (some (name, start))) (hexact : ∀ e, init = some e → e.Exact)
    (h : lead other init st = some (.ok (), st')) : st'.read name = some (.number start) := by
  rcases counter?_cases hcounter with ⟨t, kind, u, ⟨v, head, ss⟩, w, rfl, hname⟩ | ⟨t, u, w, rfl⟩
  · have hvalue : (Node.literal w (.number start)).Exact :=
      (hexact _ rfl).below (by simp [walk, walkSlots, walkItems])
    cases head
    case identifier =>
      cases hname
      cases ss with
      | cons => cases h
      | nil =>
        simp only [lead, declare, declareName, eval_literal hvalue, pure_bind, bind_pure_unit] at h
        exact read_of_give h
    all_goals cases hname
  · have hvalue : (Node.literal w (.number start)).Exact :=
      (hexact _ rfl).below (by simp [walk, walkSlots])
    have heval : eval other (.assignmentExpression t "=" (.identifier u name)
        (.literal w (.number start))) st =
        (do Run.write name (.number start); return Value.number start) st := by
      rw [eval, if_pos rfl, eval_literal hvalue, pure_bind]
    rcases evaluate_write heval with hthrow | ⟨st'', hend, hread⟩
    · cases hthrow.symm.trans h
    · cases hend.symm.trans h
      exact hread

theorem exists_number {a b : Number} {v : Value} (h : Value.add (.number a) (.number b) = .ok v) :
    ∃ n, v = .number n := by
  have hrounded (x y : Except Fault Float)
      (h : (do return Value.float ((← x) + (← y)) : Except Fault Value) = .ok v) :
      ∃ n, v = .number n := by
    obtain ⟨x, -, h⟩ := bind_eq_ok.mp h
    obtain ⟨y, -, h⟩ := bind_eq_ok.mp h
    cases h
    exact ⟨_, rfl⟩
  cases a with
  | float x => exact hrounded (Number.float x).toFloat b.toFloat h
  | int m =>
    cases b with
    | float y => exact hrounded (Number.int m).toFloat (Number.float y).toFloat h
    | int n =>
      have hadd : Value.add (.int m) (.int n) =
          if (m + n).natAbs ≤ Number.integerLimit then .ok (.int (m + n))
          else do return .float ((← (Number.int m).toFloat) + (← (Number.int n).toFloat)) := rfl
      rw [hadd] at h
      split at h
      · cases h
        exact ⟨_, rfl⟩
      · exact hrounded (Number.int m).toFloat (Number.int n).toFloat h

theorem isTrue_literalValue (h : v.truthy = .ok false) : isTrue (literalValue v) = false := by
  have hliteral : literalValue v = v := by
    match v with
    | .int n =>
      by_cases hn : n = 0
      · subst hn
        rfl
      · rw [Value.truthy, if_neg hn] at h
        obtain ⟨x, -, h⟩ := bind_eq_ok.mp h
        cases h
    | .float _ | .undefined | .null | .bool _ | .str _ | .foreign _ => rfl
  rw [hliteral, isTrue, h]

theorem rounds_one {p : Number → Bool} {start step : Number} (h : rounds p step 2 start = .ok 1) :
    p start = true ∧ ∃ next, start.add step = .ok next ∧ p next = false := by
  cases hstart : p start with
  | false => simp [rounds, hstart] at h
  | true =>
    simp only [rounds, hstart, if_true] at h
    obtain ⟨next, hnext, h⟩ := bind_eq_ok.mp h
    refine ⟨rfl, next, hnext, ?_⟩
    by_contra hp
    rw [Bool.not_eq_false] at hp
    simp only [hp, if_true] at h
    obtain ⟨k, hk, h⟩ := bind_eq_ok.mp h
    obtain ⟨next', -, hk⟩ := bind_eq_ok.mp hk
    cases hk
    cases h

/-! What a count says of the body. -/

theorem mem_of_mapM_writes {ns : List Node} {lists : List (List String)}
    (h : ns.mapM writes = .ok lists) {n : Node} (hn : n ∈ ns) {names : List String}
    (hnames : n.writes = .ok names) : names ∈ lists := by
  induction ns generalizing lists with
  | nil => cases hn
  | cons m ns ih =>
    rw [List.mapM_cons] at h
    obtain ⟨first, hfirst, h⟩ := bind_eq_ok.mp h
    obtain ⟨rest, hrest, h⟩ := bind_eq_ok.mp h
    cases h
    rcases List.mem_cons.mp hn with rfl | hn
    · rw [hnames] at hfirst
      cases hfirst
      exact List.mem_cons_self
    · exact List.mem_cons_of_mem _ (ih hrest hn)

theorem every_spares {body : Node} {names : List String} (hnames : body.mutatedNames = .ok names)
    (hname : name ∉ names) (hvar : body.Every (redeclares name · = false)) :
    body.Every (Spares name) := by
  unfold mutatedNames at hnames
  obtain ⟨lists, hlists, hnames⟩ := bind_eq_ok.mp hnames
  cases hnames
  rw [List.mem_eraseDups] at hname
  exact fun c hc => ⟨fun written hwritten hmem =>
    hname (List.mem_flatten_of_mem (mem_of_mapM_writes hlists hc hwritten) hmem), hvar c hc⟩

theorem finite_spares (n : Node) : {x | ¬ Spares x n}.Finite := by
  have hwritten : {x | ∃ names, n.writes = .ok names ∧ x ∈ names}.Finite := by
    cases hwrites : n.writes with
    | error => simp
    | ok names => simp
  have hdeclared : {x | redeclares x n = true}.Finite := by
    unfold redeclares
    split
    case h_1 t ds =>
      refine (ds.filterMap fun d => (declaredName d).toOption).finite_toSet.subset fun x hx => ?_
      obtain ⟨d, hd, hx⟩ := List.any_eq_true.mp hx
      split at hx
      case h_2 => cases hx
      case h_1 => exact List.mem_filterMap.mpr ⟨_, hd, congrArg some (beq_iff_eq.mp hx)⟩
    case h_2 => simp
  refine (hwritten.union hdeclared).subset fun x hx => ?_
  by_contra hspares
  rw [Set.mem_union, not_or] at hspares
  exact hx ⟨fun names hnames hmem => hspares.1 ⟨names, hnames, hmem⟩, by simpa using hspares.2⟩

theorem exists_spares (n : Node) : ∃ x, n.Every (Spares x) := by
  have hfinite : (⋃ c ∈ {c | c ∈ n.walk}, {x | ¬ Spares x c}).Finite :=
    n.walk.finite_toSet.biUnion fun c _ => finite_spares c
  obtain ⟨x, hx⟩ := hfinite.exists_notMem
  exact ⟨x, fun c hc => by_contra fun hspares => hx (Set.mem_biUnion hc hspares)⟩

theorem execBody_ends {body : Node} (hbody : isStatement body = true) (st : Store) :
    ∃ r st', execBody other body st = some (r, st') := by
  obtain ⟨x, hx⟩ := exists_spares body
  obtain ⟨r, st', hst', -⟩ := execBody_keeps other hbody hx st
  exact ⟨r, st', hst'⟩

/-! What is unwrapped. -/

theorem executesOnce_of_unwrapLoop {site : Site} {n : Node} {o : Outcome}
    (h : Rule.unwrapLoop site n = .ok (some o)) : executesOnce n = .ok true := by
  unfold Rule.unwrapLoop at h
  split at h
  case h_3 => cases h
  all_goals
    dsimp only at h
    split at h
    case isTrue => cases h
    case isFalse =>
      obtain ⟨once, honce, h⟩ := bind_eq_ok.mp h
      cases once with
      | false => cases h
      | true => exact honce

theorem executesOnce_cases {n : Node} (h : executesOnce n = .ok true) :
    (∃ t body u v, n = .mk t .doWhileStatement [body, .one (some (.literal u v))] ∧
      v.truthy = .ok false) ∨ tripCount? n = .ok (some 1) := by
  unfold executesOnce at h
  split at h
  case h_3 => cases h
  case h_1 t body u v =>
    obtain ⟨b, hb, h⟩ := bind_eq_ok.mp h
    cases b with
    | true => cases h
    | false => exact .inl ⟨t, body, u, v, rfl, hb⟩
  case h_2 t slots =>
    obtain ⟨count, hcount, h⟩ := bind_eq_ok.mp h
    simp only [pure, Except.pure, Except.ok.injEq, beq_iff_eq] at h
    exact .inr (hcount.trans (by rw [h]))

theorem counterOf_for {t : Tag} {init : Option Node} {start : Number} {slots : List (Slot Node)}
    (h : counter? init = .ok (some (name, start))) :
    counterOf (.mk t .forStatement (.one init :: slots)) = some (name, start) := by
  rw [counterOf, h]
  rfl

theorem counted_keeps {loop : Node} {c : Course} (hloop : course other loop = some c)
    (hbody : isStatement c.body = true)
    (hvar : ∀ name start, counterOf loop = some (name, start) →
      c.body.Every (redeclares name · = false))
    {start : Number} {k : Nat} (hcounter : counterOf loop = some (name, start))
    (hcount : tripCount? loop = .ok (some k)) :
    Run.Keeps (Store.bindings name) (execBody other c.body) := by
  obtain ⟨t, init, test, update, body, name', start', p, step, names, rfl, hinit, -, -, hnames, hname,
    -⟩ := tripCount?_some hcount
  rw [counterOf_for hinit] at hcounter
  cases hcounter
  cases hloop
  exact execBody_keeps other hbody (every_spares hnames hname (hvar _ _ (counterOf_for hinit)))

theorem next_ends {test update : Option Node} {p : Number → Bool} {step : Number}
    (htest : test? name test = some p) (hstep : Loop.step? name update = some step)
    (hexact : ∀ e, some e ∈ [test, update] → e.Exact) (hread : st.read name = some (.number x))
    (hround : ∀ rounded, Value.add (.number x) (.number step) = .ok (.number rounded) →
      p rounded = false) :
    ∃ r st', (do evaluate other update; condition other test : Run Bool) st = some (r, st') ∧
      r ≠ .ok true := by
  rcases evaluate_update other hstep (fun e he => hexact e (by simp [he])) hread with
    hthrow | ⟨st', sum, hend, hread', hadd⟩
  · exact ⟨.error (), st, Run.bind_of_throw hthrow, nofun⟩
  · obtain ⟨rounded, rfl⟩ := exists_number hadd
    refine ⟨.ok (p rounded), st', ?_, by simp [hround rounded hadd]⟩
    rw [Run.bind_of_ok hend]
    exact condition_test other htest (fun e he => hexact e (by simp [he])) hread'

/-- A counted body comes to an end and leaves the counter alone, and a loop that is unwrapped runs its
body once, as long as no `var` of the body gives the counter a value. -/
theorem body_spares_counter {loop : Node} {c : Course} (hloop : course other loop = some c)
    (hbody : isStatement c.body = true)
    (hvar : ∀ name start, counterOf loop = some (name, start) →
      c.body.Every (redeclares name · = false)) :
    (∀ name start k st, counterOf loop = some (name, start) → tripCount? loop = .ok (some k) →
      ∃ r st', execBody other c.body st = some (r, st') ∧ st'.read name = st.read name) ∧
    ∀ site o st st' n, Rule.unwrapLoop site loop = .ok (some o) → StepsFaithfully loop →
      c.lead st = some (.ok (), st') → (c.Rounds other c.first st' n ↔ n = 1) := by
  refine ⟨fun name start k st hcounter hcount => ?_, fun site o st st' n hunwrap hexact hlead => ?_⟩
  · obtain ⟨r, st', hst', hbindings⟩ := counted_keeps hloop hbody hvar hcounter hcount st
    exact ⟨r, st', hst', Store.read_congr hbindings⟩
  rcases executesOnce_cases (executesOnce_of_unwrapLoop hunwrap) with
    ⟨t, body, u, v, rfl, hfalse⟩ | hcount
  · unfold course at hloop
    split at hloop
    case h_3 => cases hloop
    case h_1 heq => cases heq
    case h_2 heq =>
      cases heq
      cases hloop
      obtain ⟨r, st'', hst''⟩ := execBody_ends hbody st'
      refine Course.rounds_iff rfl hst'' ⟨.ok false, st'', ?_, nofun⟩
      rw [condition, eval, pure_bind, isTrue_literalValue hfalse]
      rfl
  · obtain ⟨t, init, test, update, body, name, start, p, step, names, rfl, hinit, htest, hstep, -, -,
      hrounds⟩ := tripCount?_some hcount
    have hkeeps := counted_keeps hloop hbody hvar (counterOf_for hinit) hcount
    cases hloop
    obtain ⟨hdriven, hround⟩ := hexact
    obtain ⟨hfirst, sum, hsum, hsecond⟩ := rounds_one hrounds
    have hread := read_lead hinit (fun e he => hdriven e (by simp [he])) hlead
    have henter := condition_test other htest (fun e he => hdriven e (by simp [he])) hread
    rw [hfirst] at henter
    obtain ⟨r, st'', hst'', hbindings⟩ := hkeeps st'
    refine Course.rounds_iff henter hst'' <| next_ends htest hstep
      (fun e he => hdriven e (List.mem_cons_of_mem _ he))
      ((Store.read_congr hbindings).trans hread) fun rounded hadd => ?_
    rw [hround name start p step sum rounded hinit htest hstep hsum hadd, hsecond]

def counting (start bound : Int) (statement : Node) : Node :=
  let init : Node := .variableDeclaration (.fresh none) "var"
    [some (.variableDeclarator (.fresh none) (some (.identifier (.fresh none) "i"))
      (some (.literal (.fresh none) (.int start))))]
  let test : Node := .binaryExpression (.fresh none) "<" (.identifier (.fresh none) "i")
    (.literal (.fresh none) (.int bound))
  let update : Node :=
    .updateExpression (.fresh none) "++" false (.identifier (.fresh none) "i")
  .mk (.fresh none) .forStatement [.one (some init), .one (some test), .one (some update),
    .one (some (.blockStatement (.fresh none) [some statement]))]

def declaring (kind : String) (value : Int) : Node :=
  .variableDeclaration (.fresh none) kind
    [some (.variableDeclarator (.fresh none) (some (.identifier (.fresh none) "i"))
      (some (.literal (.fresh none) (.int value))))]

/-- `for (var i = 0; i < 1; i++) { { let i = 5; } }` -/
def shadowing : Node := counting 0 1 (.blockStatement (.fresh none) [some (declaring "let" 5)])

theorem stepsFaithfully_shadowing : StepsFaithfully shadowing := by
  refine ⟨fun e he => ?_, ?_⟩
  · simp only [List.mem_cons, Option.some.injEq, List.not_mem_nil, or_false] at he
    rcases he with rfl | rfl | rfl <;> decide
  · rintro name start p step sum rounded hinit htest hstep hsum hrounded
    cases hinit
    cases htest
    cases hstep
    cases hsum
    cases hrounded
    rfl

/-- No names, and operators that throw. -/
def nowhere : Store := ⟨[], fun _ => none⟩

def throwing : Operators := fun _ _ _ => none

theorem body_spares_shadowed : tripCount? shadowing = .ok (some 1) ∧ ∃ c o st,
    course throwing shadowing = some c ∧ isStatement c.body = true ∧
    c.body.Every (redeclares "i" · = false) ∧
    Rule.unwrapLoop ⟨[], {}, {}, []⟩ shadowing = .ok (some o) ∧ StepsFaithfully shadowing ∧
    c.lead nowhere = some (.ok (), st) ∧
    (∃ r st', execBody throwing c.body st = some (r, st') ∧ st'.read "i" = st.read "i") ∧
    c.Rounds throwing c.first st 1 := by
  have hcount : tripCount? shadowing = .ok (some 1) := rfl
  have hvar : (Node.blockStatement (.fresh none) [some (.blockStatement (.fresh none)
      [some (declaring "let" 5)])]).Every (redeclares "i" · = false) := by decide
  have h := body_spares_counter (show course throwing shadowing = some _ from rfl) rfl
    fun name start hcounter => by
      cases hcounter
      exact hvar
  exact ⟨hcount, _, _, _, rfl, rfl, hvar, rfl, stepsFaithfully_shadowing, rfl,
    h.1 "i" (.int 0) 1 _ rfl hcount,
    (h.2 ⟨[], {}, {}, []⟩ _ nowhere _ 1 rfl stepsFaithfully_shadowing rfl).mpr rfl⟩

/-- `for (var i = 1; i < 2; i++) { var i = 0; }` -/
def resetting : Node := counting 1 2 (declaring "var" 0)

/-- Counted once and unwrapped, but each round sets the counter back, and the loop goes on. -/
theorem body_resets_counter : tripCount? resetting = .ok (some 1) ∧ ∃ c o st st',
    course throwing resetting = some c ∧ isStatement c.body = true ∧
    Rule.unwrapLoop ⟨[], {}, {}, []⟩ resetting = .ok (some o) ∧
    c.lead nowhere = some (.ok (), st) ∧ execBody throwing c.body st = some (.ok (), st') ∧
    st.read "i" = some (.int 1) ∧ st'.read "i" = some (.int 0) ∧
    ¬ c.Rounds throwing c.first st 1 :=
  ⟨rfl, _, _, _, _, rfl, rfl, rfl, rfl, rfl, rfl, rfl,
    Course.not_rounds_one rfl rfl rfl rfl⟩

end Unravel.Script
