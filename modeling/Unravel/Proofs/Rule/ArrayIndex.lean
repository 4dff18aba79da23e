import Mathlib.Data.List.Basic
import Unravel.Proofs.Number.Literal
import Unravel.Rule.Fold

/-! Indices into recorded arrays. A text is an index exactly when it is the canonical spelling of a
natural number, and then it finds what that number finds. -/

namespace Unravel

open NumericLiteral

/-- The text is the decimal spelling of the number, with no zero in front of other digits. -/
def Spells (s : String) (k : Nat) : Prop :=
  Digits 10 s.toList k ∧ (s.toList.head? = some '0' → s.toList = ['0'])

/-- The text, if it consists of digits, has no more of them than are read exactly. -/
def Readable (s : String) : Prop := ∀ n, Digits 10 s.toList n → s.toList.length ≤ Number.digitLimit

def Value.IsNatural (v : Value) (k : Nat) : Prop :=
  v = .int k ∨ ∃ x, v = .float x ∧ Double.toInt? x = some (k : Int)

variable {s : String} {k n : Nat} {cs : List Char}

/-! Canonical spellings. -/

theorem head_toDigits (hn : n ≠ 0) : (Nat.toDigits 10 n).head? ≠ some '0' := by
  have hdigit : ∀ d < 10, d ≠ 0 → some (Nat.digitChar d) ≠ some '0' := by decide
  induction n using Nat.strongRecOn with
  | ind n ih =>
    by_cases hsmall : n < 10
    · rw [Nat.toDigits_of_lt_base hsmall]
      exact hdigit n hsmall hn
    · rw [Nat.toDigits_of_base_le (by decide) (by omega),
        List.head?_append_of_ne_nil _ Nat.toDigits_ne_nil]
      exact ih (n / 10) (by omega) (by omega)

theorem eq_toDigits (h : Digits 10 cs k) (hzero : cs.head? = some '0' → cs = ['0']) :
    cs = Nat.toDigits 10 k := by
  have hdigit : ∀ e ∈ digits, e.2 < 10 → [e.1] = [Nat.digitChar e.2] := by decide
  induction h with
  | single hc hd =>
    rw [Nat.toDigits_of_lt_base hd]
    exact hdigit _ hc hd
  | @snoc cs n c d hcs hc hd ih =>
    have hhead : cs.head? ≠ some '0' := by
      intro hhead
      have hlength := congrArg List.length
        (hzero (by rw [List.head?_append_of_ne_nil _ hcs.ne_nil, hhead]))
      have hpos := List.length_pos_iff.mpr hcs.ne_nil
      rw [List.length_append, List.length_singleton, List.length_singleton] at hlength
      omega
    have hcs' : cs = Nat.toDigits 10 n := ih fun h => absurd h hhead
    have hn : n ≠ 0 := by
      rintro rfl
      exact hhead (congrArg List.head? hcs')
    have hlast : (10 * n + d) % 10 = d := by omega
    have hrest : (10 * n + d) / 10 = n := by omega
    rw [Nat.toDigits_of_base_le (by decide) (by omega), hlast, hrest, ← hcs', ← hdigit _ hc hd]

theorem spells_iff : Spells s k ↔ Nat.repr k = s := by
  rw [← String.toList_inj, Nat.toList_repr]
  constructor
  · exact fun h => (eq_toDigits h.1 h.2).symm
  · intro h
    unfold Spells
    rw [← h]
    refine ⟨digits_toDigits k, fun hhead => ?_⟩
    by_cases hk : k = 0
    · rw [hk]
      rfl
    · exact absurd hhead (head_toDigits hk)

/-! Texts as indices. -/

theorem digitsValue_of_digits (h : Digits 10 cs n) :
    digitsValue 10 (cs.map fun c => c.toNat - 48) = n := by
  have hdigit : ∀ e ∈ digits, e.2 < 10 → e.1.toNat - 48 = e.2 := by decide
  induction h with
  | single hc hd => simp [digitsValue, hdigit _ hc hd]
  | snoc hcs hc hd ih =>
    rw [digitsValue] at ih
    rw [List.map_append, digitsValue, List.foldl_append, ih, List.map_singleton,
      hdigit _ hc hd]
    rfl

namespace Value

theorem arrayIndex?_of_not_digits (h : ¬ ∃ n, Digits 10 s.toList n) :
    (Value.str s).arrayIndex? = .ok none := by
  have hdigits : ¬ (!s.toList.isEmpty && s.toList.all Char.isDigit) = true := by
    intro hall
    simp only [Bool.and_eq_true, Bool.not_eq_true', List.all_eq_true] at hall
    exact h (exists_digits (by simpa using hall.1) hall.2)
  rw [arrayIndex?]
  exact if_neg hdigits

theorem arrayIndex?_of_digits (h : Digits 10 s.toList n) : (Value.str s).arrayIndex? =
    if Number.digitLimit < s.toList.length then .error (.refused (.digitCount s.toList.length))
    else .ok (if Nat.repr n = s then some (n : Int) else none) := by
  have hdigits : (!s.toList.isEmpty && s.toList.all Char.isDigit) = true := by
    simp only [Bool.and_eq_true, Bool.not_eq_true', List.all_eq_true]
    exact ⟨by simpa using h.ne_nil, h.isDigit⟩
  rw [arrayIndex?]
  refine (if_pos hdigits).trans ?_
  rw [digitsValue_of_digits h]

theorem spells_of_arrayIndex? {i : Int} (h : (Value.str s).arrayIndex? = .ok (some i)) :
    ∃ k : Nat, i = k ∧ Spells s k := by
  by_cases hdigits : ∃ n, Digits 10 s.toList n
  · obtain ⟨n, hn⟩ := hdigits
    rw [arrayIndex?_of_digits hn] at h
    split at h
    · cases h
    · split at h
      · rename_i hrepr
        cases h
        exact ⟨n, rfl, spells_iff.mpr hrepr⟩
      · cases h
  · rw [arrayIndex?_of_not_digits hdigits] at h
    cases h

theorem arrayIndex?_of_spells (hs : Readable s) (h : Spells s k) :
    (Value.str s).arrayIndex? = .ok (some (k : Int)) := by
  rw [arrayIndex?_of_digits h.1, if_neg (Nat.not_lt.mpr (hs k h.1)), if_pos (spells_iff.mp h)]

theorem arrayIndex?_of_not_spells (hs : Readable s) (h : ¬ ∃ k, Spells s k) :
    (Value.str s).arrayIndex? = .ok none := by
  by_cases hdigits : ∃ n, Digits 10 s.toList n
  · obtain ⟨n, hn⟩ := hdigits
    have hrepr : Nat.repr n ≠ s := fun hrepr => h ⟨n, spells_iff.mpr hrepr⟩
    rw [arrayIndex?_of_digits hn, if_neg (Nat.not_lt.mpr (hs n hn)), if_neg hrepr]
  · exact arrayIndex?_of_not_digits hdigits

theorem arrayIndex?_of_isNatural {v : Value} (h : v.IsNatural k) :
    v.arrayIndex? = .ok (some (k : Int)) := by
  rcases h with rfl | ⟨x, rfl, hx⟩
  · rfl
  · exact congrArg Except.ok hx

end Value

namespace Rule

def indexed (t u v : Tag) (name : String) (index : Value) : Node :=
  .memberExpression t true (.identifier u name) (.literal v index)

def element (t : Tag) (values : List Value) (k : Nat) : Node :=
  .literal (.fresh t.loc) (values[k]?.getD .undefined)

variable {site : Site} {t u v : Tag} {name : String} {values : List Value}

theorem foldArrayMember_of_index {index : Value} (h : index.arrayIndex? = .ok (some (k : Int))) :
    foldArrayMember site (indexed t u v name index) =
      .ok (if isWriteTarget site.seat? || !site.isConstantName name then none
        else (site.facts.arrays.get? name).map fun values => .replace (element t values k)) := by
  simp only [foldArrayMember, indexed, h]
  split
  · rfl
  · cases site.facts.arrays.get? name with
    | none => rfl
    | some values =>
      simp only [List.getD_eq_getElem?_getD]
      rfl

theorem foldArrayMember_ne {index : Value} (h : ∀ i, index.arrayIndex? ≠ .ok (some i))
    (o : Outcome) : foldArrayMember site (indexed t u v name index) ≠ .ok (some o) := by
  simp only [foldArrayMember, indexed]
  split
  · nofun
  · cases site.facts.arrays.get? name with
    | none => nofun
    | some values =>
      cases hindex : index.arrayIndex? with
      | error => nofun
      | ok i =>
        cases i with
        | none => nofun
        | some i => exact absurd hindex (h i)

/-- A text is taken as an index exactly when it spells a natural number, and as no index otherwise.
In a recorded array it then finds what the number finds, the element or `undefined` past the end,
and no other text finds anything. -/
theorem indices_agree :
    (∀ s, Readable s →
      (∀ i, (Value.str s).arrayIndex? = .ok (some i) ↔ ∃ k : Nat, i = k ∧ Spells s k) ∧
      ((¬ ∃ k, Spells s k) → (Value.str s).arrayIndex? = .ok none)) ∧
    ∀ (site : Site) (t u v : Tag) (name : String),
      (∀ s k index, Readable s → Spells s k → index.IsNatural k →
        foldArrayMember site (indexed t u v name index) =
          foldArrayMember site (indexed t u v name (.str s)) ∧
        ∀ values, site.facts.arrays.get? name = some values →
          site.isConstantName name = true → isWriteTarget site.seat? = false →
          foldArrayMember site (indexed t u v name (.str s)) =
            .ok (some (.replace (element t values k)))) ∧
      ∀ s, (¬ ∃ k, Spells s k) → ∀ o,
        foldArrayMember site (indexed t u v name (.str s)) ≠ .ok (some o) := by
  refine ⟨fun s hs => ⟨fun i => ⟨Value.spells_of_arrayIndex?, ?_⟩, ?_⟩, ?_⟩
  · rintro ⟨k, rfl, hk⟩
    exact Value.arrayIndex?_of_spells hs hk
  · exact Value.arrayIndex?_of_not_spells hs
  intro site t u v name
  constructor
  · intro s k index hs hk hindex
    have htext := Value.arrayIndex?_of_spells hs hk
    rw [foldArrayMember_of_index (Value.arrayIndex?_of_isNatural hindex),
      foldArrayMember_of_index htext]
    refine ⟨rfl, fun values harray hconstant htarget => ?_⟩
    rw [harray, hconstant, htarget]
    rfl
  · intro s hs o
    refine foldArrayMember_ne (fun i hi => hs ?_) o
    obtain ⟨k, -, hk⟩ := Value.spells_of_arrayIndex? hi
    exact ⟨k, hk⟩

def knownSeven : Site where
  trail := []
  facts := { arrays := [("a", [.int 7])] }
  settings := {}
  mutated := []

theorem indices_agree_pastEnd : Readable "1" ∧ Spells "1" 1 ∧ (Value.int 1).IsNatural 1 ∧
    foldArrayMember knownSeven (indexed ⟨none, none⟩ ⟨none, none⟩ ⟨none, none⟩ "a" (.int 1)) =
      foldArrayMember knownSeven (indexed ⟨none, none⟩ ⟨none, none⟩ ⟨none, none⟩ "a" (.str "1")) ∧
    foldArrayMember knownSeven (indexed ⟨none, none⟩ ⟨none, none⟩ ⟨none, none⟩ "a" (.str "1")) =
      .ok (some (.replace (.literal ⟨none, none⟩ .undefined))) := by
  have hshort : Readable "1" := fun _ _ => by decide
  have hspells : Spells "1" 1 :=
    ⟨.single (show ('1', 1) ∈ digits by decide) (by decide), by decide⟩
  have hnatural : (Value.int 1).IsNatural 1 := .inl rfl
  obtain ⟨hsame, hfound⟩ := (indices_agree.2 knownSeven ⟨none, none⟩ ⟨none, none⟩ ⟨none, none⟩
    "a").1 "1" 1 (.int 1) hshort hspells hnatural
  exact ⟨hshort, hspells, hnatural, hsame, hfound [.int 7] (by decide) (by decide) (by decide)⟩

end Rule
end Unravel
