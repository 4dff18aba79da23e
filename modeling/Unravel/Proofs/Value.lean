import Unravel.Loop

/-! Exact values: those that a literal can carry, with integers that are doubles as well. Every
conversion of an exact value gives a result, and sums of exact values are exact. -/

namespace Unravel

/-- A value of the language; an integer is within the limit up to which all integers are doubles. -/
def Value.isExact : Value → Bool
  | .foreign _ => false
  | .int n => n.natAbs ≤ Number.integerLimit
  | _ => true

namespace Number

def Fits (a : Number) : Prop := ∃ x, a.toFloat = .ok x

theorem fits_float (x : Float) : Fits (.float x) := ⟨x, rfl⟩

theorem fits_int {n : Int} (h : n.natAbs ≤ integerLimit) : Fits (.int n) := by
  have hlimit : integerLimit < twoPow 1024 - twoPow 970 := by decide +kernel
  have hn : n.natAbs < twoPow 1024 - twoPow 970 := Nat.lt_of_le_of_lt h hlimit
  have hdouble : Double.ofInt? n ≠ none := by
    unfold Double.ofInt?
    rw [if_pos hn]
    exact Option.some_ne_none _
  unfold Fits toFloat
  split
  · rename_i n' hint
    cases hint
    split
    · exact ⟨_, rfl⟩
    · rename_i hnone
      exact absurd hnone hdouble
  · exact ⟨_, rfl⟩

theorem fits_of_isExact {a : Number} (h : (Value.number a).isExact = true) : a.Fits := by
  cases a with
  | int n => exact fits_int (of_decide_eq_true h)
  | float x => exact fits_float x

theorem fits_neg_of_isExact {a : Number} (h : (Value.number a).isExact = true) : a.neg.Fits := by
  cases a with
  | int n =>
    have hn : n.natAbs ≤ integerLimit := of_decide_eq_true h
    exact fits_int (by rwa [Int.natAbs_neg])
  | float x => exact fits_float _

theorem add_cases (a b : Number) : (∃ m n, a = .int m ∧ b = .int n ∧ a.add b = .ok (.int (m + n))) ∨
    (a.Fits → b.Fits → ∃ x, a.add b = .ok (.float x)) := by
  by_cases hints : ∃ m n, a = .int m ∧ b = .int n
  · obtain ⟨m, n, rfl, rfl⟩ := hints
    exact .inl ⟨m, n, rfl, rfl, by rw [add]⟩
  · refine .inr ?_
    rintro ⟨x, hx⟩ ⟨y, hy⟩
    have hadd : a.add b = (do return .float ((← a.toFloat) + (← b.toFloat))) := by
      rw [add]
      rintro m n rfl rfl
      exact hints ⟨m, n, rfl, rfl⟩
    rw [hadd, hx, hy]
    exact ⟨_, rfl⟩

end Number

namespace Value

variable {a b : Value}

theorem truthy_ok (h : a.isExact = true) : ∃ b, a.truthy = .ok b := by
  cases a with
  | undefined | null | bool | str | foreign => exact ⟨_, rfl⟩
  | number n =>
    cases n with
    | float => exact ⟨_, rfl⟩
    | int n =>
      obtain ⟨x, hx⟩ := Number.fits_of_isExact h
      by_cases hn : n = 0
      · exact ⟨_, by rw [truthy, if_pos hn]⟩
      · refine ⟨true, ?_⟩
        rw [truthy, if_neg hn, hx]
        rfl

theorem toText_ok (h : a.isExact = true) : ∃ s, a.toText = .ok s := by
  cases a with
  | undefined | null | bool | str => exact ⟨_, rfl⟩
  | foreign => cases h
  | number n =>
    cases n with
    | float => exact ⟨_, rfl⟩
    | int n =>
      have hn : n.natAbs ≤ Number.integerLimit := of_decide_eq_true h
      exact ⟨_, by rw [toText, Number.text, if_pos hn]⟩

theorem fits_toNumber (h : a.isExact = true) (htext : a.isText = false) : a.toNumber.Fits := by
  cases a with
  | undefined => exact Number.fits_float _
  | null => exact Number.fits_int (Nat.zero_le _)
  | bool b => exact Number.fits_int (by cases b <;> decide)
  | number n => exact Number.fits_of_isExact h
  | str => cases htext
  | foreign => cases h

theorem add_ok (ha : a.isExact = true) (hb : b.isExact = true) :
    ∃ v, a.add b = .ok v ∧ v.isExact = true := by
  by_cases htext : (a.isText || b.isText) = true
  · obtain ⟨s, hs⟩ := toText_ok ha
    obtain ⟨s', hs'⟩ := toText_ok hb
    exact ⟨.str (s ++ s'), by rw [add, if_pos htext, hs, hs']; rfl, rfl⟩
  · have hnumbers : a.isText = false ∧ b.isText = false := by simpa using htext
    obtain ⟨x, hx⟩ := fits_toNumber ha hnumbers.1
    obtain ⟨y, hy⟩ := fits_toNumber hb hnumbers.2
    rw [add, if_neg htext]
    dsimp only
    rw [hx, hy]
    split
    · split
      · rename_i hlimit
        exact ⟨_, rfl, decide_eq_true hlimit⟩
      · exact ⟨_, rfl, rfl⟩
    · exact ⟨_, rfl, rfl⟩

theorem arrayIndex?_cases (v : Value) :
    (∃ i, v.arrayIndex? = .ok i) ∨ ∃ k, v.arrayIndex? = .error (.refused (.digitCount k)) := by
  unfold arrayIndex?
  split
  · dsimp only
    split
    · split
      · exact .inr ⟨_, rfl⟩
      · exact .inl ⟨_, rfl⟩
    · exact .inl ⟨_, rfl⟩
  all_goals exact .inl ⟨_, rfl⟩

end Value

namespace Loop

theorem rounds_ok (test : Number → Bool) {step : Number} (hstep : step.Fits) (limit : Nat)
    {value : Number} (hvalue : value.Fits ∨ ∃ m n, value = .int m ∧ step = .int n) :
    ∃ k, rounds test step limit value = .ok k := by
  induction limit generalizing value with
  | zero => exact ⟨0, rfl⟩
  | succ limit ih =>
    rw [rounds]
    split
    · have hnext : ∃ v, value.add step = .ok v ∧ (v.Fits ∨ ∃ m n, v = .int m ∧ step = .int n) := by
        rcases Number.add_cases value step with ⟨m, n, rfl, rfl, hadd⟩ | hadd
        · exact ⟨_, hadd, .inr ⟨_, n, rfl, rfl⟩⟩
        · rcases hvalue with hvalue | ⟨m, n, rfl, rfl⟩
          · obtain ⟨x, hx⟩ := hadd hvalue hstep
            exact ⟨_, hx, .inl (Number.fits_float x)⟩
          · exact ⟨_, rfl, .inr ⟨_, n, rfl, rfl⟩⟩
      obtain ⟨v, hv, hnext⟩ := hnext
      obtain ⟨k, hk⟩ := ih hnext
      rw [hv]
      exact ⟨1 + k, by simp only [bind, Except.bind, hk]; rfl⟩
    · exact ⟨0, rfl⟩

end Loop
end Unravel
