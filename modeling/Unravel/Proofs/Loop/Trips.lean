import Unravel.Loop
import Unravel.Proofs.Rule.Move
import Unravel.Proofs.Number.Sum
import Mathlib.Data.ENat.Lattice

/-! Trip counts against the loop that runs. The count steps with exact integers, the loop with the sum
of the language, which rounds beyond the limit. -/

namespace Unravel

namespace Number

theorem comparison_congr {operator : String} {compares : Number → Number → Bool}
    (h : comparison? operator = some compares) {a b a' b' : Number}
    (hsame : a.compare? b = a'.compare? b') : compares a b = compares a' b' := by
  unfold comparison? at h
  split at h <;> cases h <;> simp only [hsame]

theorem comparison_ints {operator : String} {compares : Number → Number → Bool}
    (h : comparison? operator = some compares) :
    (operator = "<" ∧ ∀ a b : Int, compares (.int a) (.int b) = decide (a < b)) ∨
    (operator = "<=" ∧ ∀ a b : Int, compares (.int a) (.int b) = decide (a ≤ b)) ∨
    (operator = ">" ∧ ∀ a b : Int, compares (.int a) (.int b) = decide (b < a)) ∨
    (operator = ">=" ∧ ∀ a b : Int, compares (.int a) (.int b) = decide (b ≤ a)) ∨
    ((operator = "!=" ∨ operator = "!==") ∧
      ∀ a b : Int, compares (.int a) (.int b) = decide (a ≠ b)) := by
  have hlt (a b : Int) : ((Number.int a).compare? (.int b) == some .lt) = decide (a < b) := by
    rw [Bool.eq_iff_iff]
    simp [compare?, Int.compare_eq_lt]
  have heq (a b : Int) : ((Number.int a).compare? (.int b) == some .eq) = decide (a = b) := by
    rw [Bool.eq_iff_iff]
    simp [compare?]
  have hgt (a b : Int) : ((Number.int a).compare? (.int b) == some .gt) = decide (b < a) := by
    rw [Bool.eq_iff_iff]
    simp [compare?, Int.compare_eq_gt]
  unfold comparison? at h
  split at h <;> cases h
  case h_1 => exact .inl ⟨rfl, hlt⟩
  case h_2 => exact .inr (.inl ⟨rfl, fun a b => by simp only [hlt, heq]; grind⟩)
  case h_3 => exact .inr (.inr (.inl ⟨rfl, hgt⟩))
  case h_4 => exact .inr (.inr (.inr (.inl ⟨rfl, fun a b => by simp only [hgt, heq]; grind⟩)))
  case h_5 => exact .inr (.inr (.inr (.inr ⟨.inl rfl, fun a b => by simp only [bne, heq]; grind⟩)))
  case h_6 => exact .inr (.inr (.inr (.inr ⟨.inr rfl, fun a b => by simp only [bne, heq]; grind⟩)))

end Number

namespace Loop

open Double

/-- A loop that integers drive: where its counter starts, what each round adds to it, and how it is
compared with a bound. -/
structure Drive where
  start : Int
  step : Int
  bound : Int
  operator : String
  flipped : Bool

namespace Drive

def test (d : Drive) (v : Number) : Bool :=
  match Number.comparison? d.operator with
  | some compares => if d.flipped then compares (.int d.bound) v else compares v (.int d.bound)
  | none => false

def counter (d : Drive) : Nat → Except Fault Value
  | 0 => .ok (.int d.start)
  | k + 1 => do (← d.counter k).add (.int d.step)

def enters (d : Drive) (k : Nat) : Bool :=
  match d.counter k with
  | .ok (.number v) => d.test v
  | _ => false

/-- How many rounds the loop runs: up to the first one that is not entered, and no end without it. -/
noncomputable def iterations (d : Drive) : ℕ∞ := ⨅ (k : ℕ) (_ : d.enters k = false), (k : ℕ∞)

structure Exact (d : Drive) : Prop where
  start : d.start.natAbs ≤ Number.integerLimit
  step : d.step.natAbs ≤ Number.integerLimit
  bound : d.bound.natAbs ≤ Number.integerLimit

/-- The first step goes one beyond the limit, the bound is the limit, and the test tells the two
apart. -/
def Straddles (d : Drive) : Prop :=
  (d.start + d.step = Number.integerLimit + 1 ∧ d.bound = Number.integerLimit ∧
    (d.operator = (if d.flipped then ">=" else "<=") ∨
      (d.operator = "!=" ∨ d.operator = "!==") ∧ d.start ≠ d.bound)) ∨
  (d.start + d.step = -(Number.integerLimit + 1) ∧ d.bound = -Number.integerLimit ∧
    (d.operator = (if d.flipped then "<=" else ">=") ∨
      (d.operator = "!=" ∨ d.operator = "!==") ∧ d.start ≠ d.bound))

end Drive

def Drive.condition (d : Drive) (name : String) (t u v : Tag) : Node :=
  if d.flipped then .binaryExpression t d.operator (.literal v (.int d.bound)) (.identifier u name)
  else .binaryExpression t d.operator (.identifier u name) (.literal v (.int d.bound))

inductive Drives (d : Drive) : Node → Prop where
  | mk {t u v w : Tag} {name : String} {init update body : Option Node} :
    counter? init = .ok (some (name, .int d.start)) → step? name update = some (.int d.step) →
    Drives d (.mk t .forStatement
      [.one init, .one (some (d.condition name u v w)), .one update, .one body])

/-! The rounds that are run, up to two. -/

theorem two_le_iterations {d : Drive} (h : d.enters 0 = true) (h' : d.enters 1 = true) :
    2 ≤ d.iterations := by
  refine le_iInf₂ fun k hk => ?_
  match k with
  | 0 => rw [h] at hk; cases hk
  | 1 => rw [h'] at hk; cases hk
  | k + 2 => exact_mod_cast Nat.le_add_left 2 k

theorem iterations_eq_one {d : Drive} (h : d.enters 0 = true) (h' : d.enters 1 = false) :
    d.iterations = 1 := by
  refine le_antisymm (iInf₂_le 1 h') (le_iInf₂ fun k hk => ?_)
  match k with
  | 0 => rw [h] at hk; cases hk
  | k + 1 => exact_mod_cast Nat.le_add_left 1 k

theorem min_two_iterations (d : Drive) : min 2 d.iterations =
    ((if d.enters 0 then (if d.enters 1 then 2 else 1) else 0 : Nat) : ℕ∞) := by
  cases h : d.enters 0 with
  | false =>
    have hzero : d.iterations = 0 := nonpos_iff_eq_zero.mp (iInf₂_le 0 h)
    rw [hzero]
    rfl
  | true =>
    cases h' : d.enters 1 with
    | true => exact min_eq_left (two_le_iterations h h')
    | false =>
      rw [iterations_eq_one h h']
      rfl

/-! The rounds that are counted. -/

theorem test?_condition (d : Drive) (name : String) (t u v : Tag) :
    test? name (some (d.condition name t u v)) =
      (Number.comparison? d.operator).map fun _ => d.test := by
  unfold Drive.condition Drive.test
  cases hflipped : d.flipped with
  | true =>
    cases hoperator : Number.comparison? d.operator with
    | none => simp [test?, hoperator]
    | some compares => simp [test?, hoperator]
  | false =>
    cases hoperator : Number.comparison? d.operator with
    | none => simp [test?, hoperator]
    | some compares => simp [test?, hoperator]

theorem rounds_ints (test : Number → Bool) (start step : Int) :
    rounds test (.int step) 2 (.int start) = .ok
      (if test (.int start) then (if test (.int (start + step)) then 2 else 1) else 0) := by
  have hadd : (Number.int start).add (.int step) = .ok (.int (start + step)) := rfl
  have hadd' : (Number.int (start + step)).add (.int step) = .ok (.int (start + step + step)) := rfl
  cases h : test (.int start) with
  | false => simp [rounds, h]
  | true =>
    cases h' : test (.int (start + step)) with
    | false => simp [rounds, h, h', hadd, bind, Except.bind, pure, Except.pure]
    | true => simp [rounds, h, h', hadd, hadd', bind, Except.bind, pure, Except.pure]

theorem tripCount?_some {n : Node} {k : Nat} (h : tripCount? n = .ok (some k)) :
    ∃ t init test update body name start p step names,
      n = .mk t .forStatement [.one init, .one test, .one update, .one (some body)] ∧
      counter? init = .ok (some (name, start)) ∧ test? name test = some p ∧
      step? name update = some step ∧ body.mutatedNames = .ok names ∧ name ∉ names ∧
      rounds p step 2 start = .ok k := by
  unfold tripCount? at h
  split at h
  case h_2 => cases h
  case h_1 t init test update body =>
    obtain ⟨counter, hcounter, h⟩ := bind_eq_ok.mp h
    match counter, h with
    | some (name, start), h =>
      dsimp only at h
      cases htest : test? name test with
      | none => rw [htest] at h; cases h
      | some p =>
        cases hstep : step? name update with
        | none => rw [htest, hstep] at h; cases h
        | some step =>
          rw [htest, hstep] at h
          match body, h with
          | some body, h =>
            obtain ⟨names, hnames, h⟩ := bind_eq_ok.mp h
            split at h
            case isTrue => cases h
            case isFalse hname =>
              obtain ⟨k', hk', h⟩ := bind_eq_ok.mp h
              cases h
              exact ⟨t, init, test, update, body, name, start, p, step, names, rfl, hcounter, htest,
                hstep, hnames, by simpa using hname, hk'⟩

theorem tripCount_of_drives {d : Drive} {loop : Node} {k : Nat} (hloop : Drives d loop)
    (hcount : tripCount? loop = .ok (some k)) : Number.comparison? d.operator ≠ none ∧
      k = if d.test (.int d.start) then (if d.test (.int (d.start + d.step)) then 2 else 1) else 0 := by
  obtain ⟨hcounter, hstep⟩ := hloop
  obtain ⟨_, _, _, _, _, _, _, p, _, _, hloop, hcounter', htest, hstep', -, -, hrounds⟩ :=
    tripCount?_some hcount
  cases hloop
  rw [hcounter] at hcounter'
  cases hcounter'
  rw [hstep] at hstep'
  cases hstep'
  rw [test?_condition] at htest
  obtain ⟨compares, hcompares, rfl⟩ := Option.map_eq_some_iff.mp htest
  rw [rounds_ints] at hrounds
  cases hrounds
  exact ⟨by simp [hcompares], rfl⟩

/-! The first step, as the loop takes it. -/

theorem enters_zero (d : Drive) : d.enters 0 = d.test (.int d.start) := rfl

def Drive.next (d : Drive) : Int :=
  if (d.start + d.step).natAbs ≤ Number.integerLimit then d.start + d.step
  else nearest (d.start + d.step)

theorem test_float {d : Drive} {x : Float} {n : Int} (hnumber : x.isNaN = false)
    (hvalue : ∀ m, compareInt x m = compare n m) : d.test (.float x) = d.test (.int n) := by
  unfold Drive.test
  split
  case h_2 => rfl
  case h_1 compares hcompares =>
    split
    · refine Number.comparison_congr hcompares ?_
      simp only [Number.compare?, hnumber, Bool.false_eq_true, if_false, hvalue]
      rw [Std.OrientedOrd.eq_swap (a := d.bound)]
    · refine Number.comparison_congr hcompares ?_
      simp only [Number.compare?, hnumber, Bool.false_eq_true, if_false, hvalue]

theorem enters_one {d : Drive} (h : d.Exact) : d.enters 1 = d.test (.int d.next) := by
  have hcounter : d.counter 1 = (Value.int d.start).add (.int d.step) := rfl
  unfold Drive.enters Drive.next
  rw [hcounter]
  rcases add_ints h.start h.step with ⟨hle, hadd⟩ | ⟨hlt, x, hadd, hnumber, hvalue⟩
  · rw [hadd, if_pos hle]
  · rw [hadd, if_neg (Nat.not_le.mpr hlt)]
    exact test_float hnumber hvalue

/-- Rounding changes the second test exactly where the loop straddles the limit. -/
theorem test_next_iff {d : Drive} (h : d.Exact) (hoperator : Number.comparison? d.operator ≠ none) :
    (d.test (.int d.start) = true → d.test (.int (d.start + d.step)) = d.test (.int d.next)) ↔
      ¬ d.Straddles := by
  obtain ⟨hstart, hstep, hbound⟩ := h
  obtain ⟨compares, hcompares⟩ := Option.ne_none_iff_exists'.mp hoperator
  have hlimit : (Number.integerLimit : Int) = 2 ^ 53 := rfl
  have hnext : ((d.start + d.step).natAbs ≤ 2 ^ 53 ∧ d.next = d.start + d.step) ∨
      (2 ^ 53 < d.start + d.step ∧ 2 ^ 53 ≤ d.next ∧ (d.next = 2 ^ 53 ↔ d.start + d.step = 2 ^ 53 + 1)) ∨
      (d.start + d.step < -2 ^ 53 ∧ d.next ≤ -2 ^ 53 ∧
        (d.next = -2 ^ 53 ↔ d.start + d.step = -(2 ^ 53 + 1))) := by
    unfold Drive.next
    split
    case isTrue hle => exact .inl ⟨hle, rfl⟩
    case isFalse hbeyond => exact .inr (nearest_cases (Nat.not_le.mp hbeyond))
  have hstart : d.start.natAbs ≤ 2 ^ 53 := hstart
  have hbound : d.bound.natAbs ≤ 2 ^ 53 := hbound
  generalize d.next = next at hnext
  unfold Drive.test Drive.Straddles
  rw [hcompares, hlimit]
  rcases Number.comparison_ints hcompares with
    ⟨hop, hints⟩ | ⟨hop, hints⟩ | ⟨hop, hints⟩ | ⟨hop, hints⟩ | ⟨hop | hop, hints⟩ <;>
  cases d.flipped <;>
  simp only [hints, hop, Bool.false_eq_true, if_false, if_true, decide_eq_true_eq, decide_eq_decide,
    String.reduceEq, false_or, true_and, and_false, false_and, or_false, or_true] <;>
  grind

/-- The trip count is the number of rounds that the loop runs, up to two, unless the first step goes
one beyond the limit and the test tells that value from the limit. -/
theorem tripCount_iff {d : Drive} {loop : Node} {k : Nat} (hloop : Drives d loop) (hexact : d.Exact)
    (hcount : tripCount? loop = .ok (some k)) :
    (k : ℕ∞) = min 2 d.iterations ↔ ¬ d.Straddles := by
  obtain ⟨hoperator, rfl⟩ := tripCount_of_drives hloop hcount
  rw [← test_next_iff hexact hoperator, min_two_iterations, Nat.cast_inj, enters_zero,
    enters_one hexact]
  cases d.test (.int d.start) with
  | false => simp
  | true =>
    cases d.test (.int (d.start + d.step)) <;> cases d.test (.int d.next) <;> simp

/-- `for (var i = start; i operator bound; i += step) {}`, or with the bound on the left. -/
def Drive.loop (d : Drive) : Node :=
  let start : Node := .variableDeclaration (.fresh none) "var"
    [some (.variableDeclarator (.fresh none) (some (.identifier (.fresh none) "i"))
      (some (.literal (.fresh none) (.int d.start))))]
  let step : Node := .assignmentExpression (.fresh none) "+=" (.identifier (.fresh none) "i")
    (.literal (.fresh none) (.int d.step))
  .mk (.fresh none) .forStatement [.one (some start),
    .one (some (d.condition "i" (.fresh none) (.fresh none) (.fresh none))), .one (some step),
    .one (some (.blockStatement (.fresh none) []))]

theorem drives_loop (d : Drive) : Drives d d.loop := .mk rfl rfl

/-- `for (var i = 9007199254740991; 9007199254740992 >= i; i += 1) {}` -/
def reaching : Drive := ⟨9007199254740991, 1, 9007199254740992, ">=", true⟩

theorem tripCount_reaching : Drives reaching reaching.loop ∧ reaching.Exact ∧
    tripCount? reaching.loop = .ok (some 2) ∧
    (((2 : Nat) : ℕ∞) = min 2 reaching.iterations ↔ ¬ reaching.Straddles) :=
  have hexact : reaching.Exact := ⟨by decide, by decide, by decide⟩
  ⟨drives_loop reaching, hexact, rfl, tripCount_iff (drives_loop reaching) hexact rfl⟩

/-- `for (var i = 9007199254740992; i <= 9007199254740992; i += 1) {}` -/
def stuck : Drive := ⟨9007199254740992, 1, 9007199254740992, "<=", false⟩

/-- `for (var i = 1; i !== 9007199254740992; i += 9007199254740992) {}` -/
def landing : Drive := ⟨1, 9007199254740992, 9007199254740992, "!==", false⟩

/-- Counted once, and it runs on; counted twice, and it runs once. -/
theorem tripCount_beyond : stuck.Exact ∧ tripCount? stuck.loop = .ok (some 1) ∧
    2 ≤ stuck.iterations ∧ landing.Exact ∧ tripCount? landing.loop = .ok (some 2) ∧
    landing.iterations = 1 := by
  have hstuck : stuck.Exact := ⟨by decide, by decide, by decide⟩
  have hlanding : landing.Exact := ⟨by decide, by decide, by decide⟩
  exact ⟨hstuck, rfl, two_le_iterations rfl ((enters_one hstuck).trans rfl), hlanding, rfl,
    iterations_eq_one rfl ((enters_one hlanding).trans rfl)⟩

end Loop
end Unravel
