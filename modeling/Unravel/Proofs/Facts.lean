import Unravel.Facts

/-! Tables and what recording a fact does to them. Most rules ask only which names are known, so
tables are compared by their names. -/

namespace Unravel

def Fact.name : Fact → String
  | .constant name _ | .array name _ | .function name _ => name

namespace Table

variable {α : Type} {t : Table α} {name x : String} {a : α}

theorem isSome_get? (t : Table α) (x : String) : (t.get? x).isSome = t.has x := by
  rw [get?, has, Option.isSome_map, List.isSome_find?]

theorem get?_of_has_eq {t t' : Table α} (h : t.has x = t'.has x) :
    (t.get? x = none ∧ t'.get? x = none) ∨ ∃ a a', t.get? x = some a ∧ t'.get? x = some a' := by
  rw [← isSome_get?, ← isSome_get?] at h
  cases ha : t.get? x with
  | none =>
    rw [ha, Option.isSome_none, eq_comm, Option.isSome_eq_false_iff, Option.isNone_iff_eq_none] at h
    exact .inl ⟨rfl, h⟩
  | some a =>
    rw [ha, Option.isSome_some, eq_comm, Option.isSome_iff_exists] at h
    obtain ⟨a', ha'⟩ := h
    exact .inr ⟨a, a', rfl, ha'⟩

@[simp] theorem has_set : (t.set name a).has x = (t.has x || name == x) := by
  unfold set
  split
  · rename_i hname
    have hmap : has (t.map fun e => if e.1 == name then (name, a) else e) x = t.has x := by
      unfold has
      rw [List.any_map]
      refine congrArg (t.any ·) (funext fun e => ?_)
      by_cases he : e.1 = name <;> simp [he]
    rw [hmap]
    by_cases hx : name = x
    · rw [← hx, hname, Bool.true_or]
    · simp [hx]
  · simp [has]

theorem has_set_of_has (h : t.has name = true) : (t.set name a).has x = t.has x := by
  rw [has_set]
  by_cases hx : name = x
  · rw [← hx, h, Bool.true_or]
  · simp [hx]

def missing (names : List String) (t : Table α) : Nat := names.countP fun x => !t.has x

theorem missing_le (names : List String) (t : Table α) : t.missing names ≤ names.length :=
  List.countP_le_length

theorem missing_set_lt {names : List String} (hname : name ∈ names) (h : t.has name = false) :
    (t.set name a).missing names < t.missing names := by
  obtain ⟨before, after, rfl⟩ := List.append_of_mem hname
  have hless (xs : List String) : (t.set name a).missing xs ≤ t.missing xs := by
    refine List.countP_mono_left fun x _ hx => ?_
    rw [has_set, Bool.not_or, Bool.and_eq_true] at hx
    exact hx.1
  have hbefore := hless before
  have hafter := hless after
  unfold missing at hbefore hafter ⊢
  simp only [List.countP_append, List.countP_cons, has_set, h, beq_self_eq_true, Bool.or_true,
    Bool.not_true, Bool.not_false, Bool.false_eq_true, if_true, if_false] at hbefore hafter ⊢
  omega

@[simp] theorem get?_set : (t.set name a).get? x = if name == x then some a else t.get? x := by
  unfold set
  split
  · rename_i hname
    have hfind : (t.map fun e => if e.1 == name then (name, a) else e).find? (·.1 == x) =
        (t.find? (·.1 == x)).map fun e => if e.1 == name then (name, a) else e := by
      rw [List.find?_map]
      refine congrArg (fun p => (t.find? p).map _) (funext fun e => ?_)
      by_cases he : e.1 = name <;> simp [he]
    rw [← isSome_get?] at hname
    rw [get?, hfind]
    cases hx : t.find? (·.1 == x) with
    | none =>
      have hne : name ≠ x := by
        rintro rfl
        simp [get?, hx] at hname
      simp [get?, hx, hne]
    | some e =>
      have he : e.1 = x := by simpa using List.find?_some hx
      by_cases hne : name = x
      · simp [he, hne]
      · simp [get?, hx, he, hne, Ne.symm hne]
  · rename_i hname
    rw [← isSome_get?] at hname
    rw [get?, List.find?_append]
    cases hx : t.find? (·.1 == x) with
    | none =>
      by_cases hne : name = x
      · simp [hne]
      · simp [get?, hx, hne]
    | some e =>
      have he : e.1 = x := by simpa using List.find?_some hx
      have hne : name ≠ x := by
        rintro rfl
        simp [get?, hx] at hname
      simp [get?, hx, hne]

end Table

namespace Facts

variable {facts : Facts} {x : String}

structure SameNames (a b : Facts) : Prop where
  constants : ∀ x, a.constants.has x = b.constants.has x
  arrays : ∀ x, a.arrays.has x = b.arrays.has x
  functions : ∀ x, a.functions.has x = b.functions.has x

namespace SameNames

variable {a b c : Facts}

theorem refl (a : Facts) : SameNames a a := ⟨fun _ => rfl, fun _ => rfl, fun _ => rfl⟩

theorem symm (h : SameNames a b) : SameNames b a :=
  ⟨fun x => (h.constants x).symm, fun x => (h.arrays x).symm, fun x => (h.functions x).symm⟩

theorem trans (h : SameNames a b) (h' : SameNames b c) : SameNames a c :=
  ⟨fun x => (h.constants x).trans (h'.constants x), fun x => (h.arrays x).trans (h'.arrays x),
    fun x => (h.functions x).trans (h'.functions x)⟩

theorem learn_isNew (h : SameNames a b) (fact : Fact) : (a.learn fact).2 = (b.learn fact).2 := by
  cases fact with
  | constant name value => simp only [learn, h.constants name]
  | array name values => simp only [learn, h.arrays name]
  | function name fn => simp only [learn, h.functions name]

end SameNames

theorem sameNames_learn {fact : Fact} (h : (facts.learn fact).2 = false) :
    SameNames facts (facts.learn fact).1 := by
  cases fact with
  | constant name value =>
    have hname : facts.constants.has name = true := by simpa [learn] using h
    exact ⟨fun x => (Table.has_set_of_has hname).symm, fun _ => rfl, fun _ => rfl⟩
  | array name values =>
    have hname : facts.arrays.has name = true := by simpa [learn] using h
    exact ⟨fun _ => rfl, fun x => (Table.has_set_of_has hname).symm, fun _ => rfl⟩
  | function name fn =>
    have hname : facts.functions.has name = true := by simpa [learn] using h
    exact ⟨fun _ => rfl, fun _ => rfl, fun x => (Table.has_set_of_has hname).symm⟩

theorem get?_refresh (facts : Facts) (current : Nat → Option Node) (x : String) :
    (facts.refresh current).functions.get? x =
      (facts.functions.get? x).map fun fn => (fn.mark.bind current).getD fn := by
  unfold refresh Table.get?
  rw [List.find?_map]
  simp [Function.comp_def]

theorem sameNames_update (facts : Facts) (n : Node) : SameNames facts (facts.update n) := by
  refine ⟨fun _ => rfl, fun _ => rfl, fun x => ?_⟩
  rw [update, ← Table.isSome_get?, ← Table.isSome_get?, get?_refresh, Option.isSome_map]

def missing (names : List String) (facts : Facts) : Nat :=
  facts.constants.missing names + facts.arrays.missing names + facts.functions.missing names

theorem missing_le (names : List String) (facts : Facts) :
    facts.missing names ≤ 3 * names.length := by
  have hc := facts.constants.missing_le names
  have ha := facts.arrays.missing_le names
  have hf := facts.functions.missing_le names
  unfold missing
  omega

theorem SameNames.missing_eq {a b : Facts} (h : SameNames a b) (names : List String) :
    a.missing names = b.missing names := by
  unfold missing Table.missing
  simp only [h.constants, h.arrays, h.functions]

theorem missing_learn_lt {names : List String} {fact : Fact} (hname : fact.name ∈ names)
    (h : (facts.learn fact).2 = true) : (facts.learn fact).1.missing names < facts.missing names := by
  cases fact with
  | constant name value =>
    have hnew : facts.constants.has name = false := by simpa [learn] using h
    have hless : (facts.constants.set name value).missing names < _ := Table.missing_set_lt hname hnew
    simp only [missing, learn]
    omega
  | array name values =>
    have hnew : facts.arrays.has name = false := by simpa [learn] using h
    have hless : (facts.arrays.set name values).missing names < _ := Table.missing_set_lt hname hnew
    simp only [missing, learn]
    omega
  | function name fn =>
    have hnew : facts.functions.has name = false := by simpa [learn] using h
    have hless : (facts.functions.set name fn).missing names < _ := Table.missing_set_lt hname hnew
    simp only [missing, learn]
    omega

end Facts
end Unravel
