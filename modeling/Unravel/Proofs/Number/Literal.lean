import Mathlib.Data.List.Induction
import Mathlib.Data.List.TakeDrop
import Mathlib.Data.List.TakeWhile
import Unravel.Number.Reading

/-! The grammar of numeric text: a decimal with an optional fraction and an optional power of ten,
or `Infinity`, either of them with an optional sign, and an unsigned integer after `0x`, `0o` or
`0b`. The readers of digits, powers and fractions accept exactly what the grammar derives. -/

namespace Unravel

namespace NumericLiteral

def digits : List (Char × Nat) :=
  [('0', 0), ('1', 1), ('2', 2), ('3', 3), ('4', 4), ('5', 5), ('6', 6), ('7', 7), ('8', 8),
    ('9', 9), ('a', 10), ('b', 11), ('c', 12), ('d', 13), ('e', 14), ('f', 15), ('A', 10),
    ('B', 11), ('C', 12), ('D', 13), ('E', 14), ('F', 15)]

inductive Digits (base : Nat) : List Char → Nat → Prop
  | single {c : Char} {d : Nat} (hc : (c, d) ∈ digits) (hd : d < base) : Digits base [c] d
  | snoc {cs : List Char} {n : Nat} {c : Char} {d : Nat} (hcs : Digits base cs n)
    (hc : (c, d) ∈ digits) (hd : d < base) : Digits base (cs ++ [c]) (base * n + d)

inductive Sign : List Char → Bool → Prop
  | none : Sign [] false
  | plus : Sign ['+'] false
  | minus : Sign ['-'] true

inductive Power : List Char → Prop
  | none : Power []
  | some {e : Char} {s ds : List Char} {b : Bool} {n : Nat} (he : e = 'e' ∨ e = 'E')
    (hs : Sign s b) (hds : Digits 10 ds n) : Power (e :: (s ++ ds))

/-- A decimal without a sign. Digits stand before or after the point, if there is one. -/
inductive Unsigned : List Char → Prop
  | whole {ds es : List Char} {n : Nat} (hds : Digits 10 ds n) (hes : Power es) :
    Unsigned (ds ++ es)
  | point {ds es : List Char} {n : Nat} (hds : Digits 10 ds n) (hes : Power es) :
    Unsigned (ds ++ '.' :: es)
  | fraction {ds fs es : List Char} {m n : Nat} (hds : Digits 10 ds n) (hfs : Digits 10 fs m)
    (hes : Power es) : Unsigned (ds ++ '.' :: (fs ++ es))
  | bare {fs es : List Char} {m : Nat} (hfs : Digits 10 fs m) (hes : Power es) :
    Unsigned ('.' :: (fs ++ es))

def radices : List (Char × Nat) :=
  [('x', 16), ('X', 16), ('o', 8), ('O', 8), ('b', 2), ('B', 2)]

end NumericLiteral

open NumericLiteral

inductive NumericLiteral : List Char → Prop
  | decimal {s cs : List Char} {b : Bool} (hs : Sign s b) (hcs : Unsigned cs) :
    NumericLiteral (s ++ cs)
  | infinity {s : List Char} {b : Bool} (hs : Sign s b) : NumericLiteral (s ++ "Infinity".toList)
  | radix {x : Char} {base n : Nat} {ds : List Char} (hx : (x, base) ∈ radices)
    (hds : Digits base ds n) : NumericLiteral ('0' :: x :: ds)

inductive IntegerLiteral : List Char → Int → Prop
  | decimal {s ds : List Char} {b : Bool} {n : Nat} (hs : Sign s b) (hds : Digits 10 ds n) :
    IntegerLiteral (s ++ ds) (if b then -n else n)
  | radix {x : Char} {base n : Nat} {ds : List Char} (hx : (x, base) ∈ radices)
    (hds : Digits base ds n) : IntegerLiteral ('0' :: x :: ds) n

namespace NumericLiteral

open Number

variable {base n d : Nat} {c : Char} {cs ds es : List Char} {b : Bool}

/-! Digits. -/

theorem Digits.ne_nil (h : Digits base cs n) : cs ≠ [] := by
  cases h <;> simp

theorem toNat_lt_of_digitIn? (h : digitIn? base c = some d) : c.toNat < 128 := by
  have hcode : ∀ e : Char, c ≤ e → e.toNat < 128 → c.toNat < 128 := fun e hle hlt =>
    Nat.lt_of_le_of_lt (UInt32.le_iff_toNat_le.mp hle) hlt
  unfold digitIn? at h
  obtain ⟨hvalue, -⟩ := Option.filter_eq_some_iff.mp h
  split at hvalue
  · rename_i hdigit
    simp only [Char.isDigit, Bool.and_eq_true, decide_eq_true_eq] at hdigit
    exact hcode '9' hdigit.2 (by decide)
  · split at hvalue
    · rename_i hletter
      simp only [Bool.and_eq_true, decide_eq_true_eq] at hletter
      exact hcode 'z' hletter.2 (by decide)
    · split at hvalue
      · rename_i hletter
        simp only [Bool.and_eq_true, decide_eq_true_eq] at hletter
        exact hcode 'Z' hletter.2 (by decide)
      · cases hvalue

theorem digitIn?_eq (hbase : base ≤ 16) (c : Char) :
    digitIn? base c = (digitIn? 16 c).filter (· < base) := by
  have hboth : (fun d => decide (d < base)) = fun d => decide (d < 16) && decide (d < base) := by
    funext d
    rw [Bool.eq_iff_iff, Bool.and_eq_true, decide_eq_true_eq, decide_eq_true_eq]
    omega
  unfold digitIn?
  rw [Option.filter_filter, ← hboth]

theorem digitIn?_eq_some_iff (hbase : base ≤ 16) :
    digitIn? base c = some d ↔ (c, d) ∈ digits ∧ d < base := by
  have hread : ∀ m < 128, ∀ d ∈ digitIn? 16 (Char.ofNat m), (Char.ofNat m, d) ∈ digits := by
    decide +kernel
  have hwritten : ∀ e ∈ digits, digitIn? 16 e.1 = some e.2 := by decide
  rw [digitIn?_eq hbase, Option.filter_eq_some_iff, decide_eq_true_eq]
  refine and_congr_left fun _ => ⟨fun h => ?_, hwritten (c, d)⟩
  have hlisted := hread _ (toNat_lt_of_digitIn? h) d
  rw [Char.ofNat_toNat] at hlisted
  exact hlisted h

theorem natural?_singleton (base : Nat) (c : Char) : natural? base [c] = digitIn? base c := by
  cases h : digitIn? base c <;> simp [natural?, h, digitsValue]

theorem natural?_append_singleton (hcs : cs ≠ []) : natural? base (cs ++ [c]) = some n ↔
    ∃ m d, natural? base cs = some m ∧ digitIn? base c = some d ∧ base * m + d = n := by
  have hread : (cs ++ [c]).mapM (digitIn? base) =
      (cs.mapM (digitIn? base)).bind fun as => (digitIn? base c).map fun d => as ++ [d] := by
    rw [List.mapM_append]
    cases cs.mapM (digitIn? base) <;> cases h : digitIn? base c <;> simp [h]
  have hvalue (as : List Nat) (d : Nat) :
      digitsValue base (as ++ [d]) = base * digitsValue base as + d := by
    simp [digitsValue]
  simp only [natural?, hread]
  cases cs.mapM (digitIn? base) <;> cases digitIn? base c <;> simp [hcs, hvalue]

theorem natural?_eq_some_iff (hbase : base ≤ 16) :
    natural? base cs = some n ↔ Digits base cs n := by
  constructor
  · intro h
    induction cs using List.reverseRecOn generalizing n with
    | nil => cases h
    | append_singleton cs c ih =>
      rcases eq_or_ne cs [] with rfl | hcs
      · rw [List.nil_append, natural?_singleton, digitIn?_eq_some_iff hbase] at h
        exact .single h.1 h.2
      · obtain ⟨m, d, hm, hd, rfl⟩ := (natural?_append_singleton hcs).mp h
        obtain ⟨hc, hd⟩ := (digitIn?_eq_some_iff hbase).mp hd
        exact .snoc (ih hm) hc hd
  · intro h
    induction h with
    | single hc hd => rw [natural?_singleton, (digitIn?_eq_some_iff hbase).mpr ⟨hc, hd⟩]
    | snoc hcs hc hd ih =>
      exact (natural?_append_singleton hcs.ne_nil).mpr
        ⟨_, _, ih, (digitIn?_eq_some_iff hbase).mpr ⟨hc, hd⟩, rfl⟩

theorem Digits.isDigit (h : Digits 10 cs n) : ∀ c ∈ cs, c.isDigit = true := by
  have hall : ∀ e ∈ digits, e.2 < 10 → e.1.isDigit = true := by decide
  induction h with
  | single hc hd => simpa using hall _ hc hd
  | snoc _ hc hd ih =>
    rw [List.forall_mem_append]
    exact ⟨ih, by simpa using hall _ hc hd⟩

theorem exists_digits (hne : cs ≠ []) (hcs : ∀ c ∈ cs, c.isDigit = true) : ∃ n, Digits 10 cs n := by
  have hread (c : Char) (hc : c.isDigit = true) : ∃ d, (c, d) ∈ digits ∧ d < 10 := by
    have hall : ∀ m < 58, 48 ≤ m → ∃ d < 10, (Char.ofNat m, d) ∈ digits := by decide
    simp only [Char.isDigit, Bool.and_eq_true, decide_eq_true_eq] at hc
    have hlow : 48 ≤ c.toNat := UInt32.le_iff_toNat_le.mp hc.1
    have hhigh : c.toNat ≤ 57 := UInt32.le_iff_toNat_le.mp hc.2
    obtain ⟨d, hd, hlisted⟩ := hall c.toNat (by omega) hlow
    rw [Char.ofNat_toNat] at hlisted
    exact ⟨d, hlisted, hd⟩
  induction cs using List.reverseRecOn with
  | nil => exact absurd rfl hne
  | append_singleton cs c ih =>
    rw [List.forall_mem_append] at hcs
    obtain ⟨d, hc, hd⟩ := hread c (hcs.2 c (List.mem_singleton_self c))
    rcases eq_or_ne cs [] with rfl | hcs'
    · exact ⟨d, .single hc hd⟩
    · obtain ⟨n, hn⟩ := ih hcs' hcs.1
      exact ⟨_, .snoc hn hc hd⟩

theorem digits_toDigits (n : Nat) : Digits 10 (Nat.toDigits 10 n) n := by
  have hdigit : ∀ d < 10, (Nat.digitChar d, d) ∈ digits := by decide
  induction n using Nat.strongRecOn with
  | ind n ih =>
    by_cases hsmall : n < 10
    · rw [Nat.toDigits_of_lt_base hsmall]
      exact .single (hdigit n hsmall) hsmall
    · have hlast : n % 10 < 10 := Nat.mod_lt n (by decide)
      have hdigits := (ih (n / 10) (by omega)).snoc (hdigit _ hlast) hlast
      rwa [Nat.div_add_mod, ← Nat.toDigits_of_base_le (by decide) (by omega)] at hdigits

theorem natural?_isSome_iff : (natural? 10 cs).isSome ↔ cs ≠ [] ∧ ∀ c ∈ cs, c.isDigit = true := by
  rw [Option.isSome_iff_exists]
  simp only [natural?_eq_some_iff (show 10 ≤ 16 by decide)]
  exact ⟨fun ⟨_, h⟩ => ⟨h.ne_nil, h.isDigit⟩, fun h => exists_digits h.1 h.2⟩

/-! Signs and powers of ten. -/

theorem ne_of_isDigit {mark : Char} (hmark : mark.isDigit = false) (hc : c.isDigit = true) :
    c ≠ mark := by
  rintro rfl
  exact Bool.false_ne_true (hmark.symm.trans hc)

theorem exists_sign (cs : List Char) : ∃ s, Sign s (sign cs).1 ∧ cs = s ++ (sign cs).2 := by
  unfold sign
  split
  · exact ⟨['-'], .minus, rfl⟩
  · exact ⟨['+'], .plus, rfl⟩
  · exact ⟨[], .none, rfl⟩

theorem sign_append {s : List Char} (hs : Sign s b) (hcs : ∀ c ∈ cs.head?, c ≠ '+' ∧ c ≠ '-') :
    sign (s ++ cs) = (b, cs) := by
  cases hs with
  | plus | minus => rfl
  | none =>
    rw [List.nil_append]
    unfold sign
    split
    · exact absurd rfl (hcs '-' rfl).2
    · exact absurd rfl (hcs '+' rfl).1
    · rfl

theorem Digits.head (h : Digits 10 ds n) : ∀ c ∈ (ds ++ es).head?, c.isDigit = true := by
  obtain ⟨c, cs, rfl⟩ := List.exists_cons_of_ne_nil h.ne_nil
  intro c' hc'
  obtain rfl := Option.some.inj hc'
  exact h.isDigit c (List.mem_cons_self ..)

theorem sign_append_digits {s : List Char} (hs : Sign s b) (h : Digits 10 ds n) :
    sign (s ++ ds) = (b, ds) := by
  refine sign_append hs fun c hc => ?_
  rw [← List.append_nil ds] at hc
  exact ⟨ne_of_isDigit rfl (h.head c hc), ne_of_isDigit rfl (h.head c hc)⟩

theorem power?_cons (he : c = 'e' ∨ c = 'E') :
    (power? (c :: cs)).isSome = (natural? 10 (sign cs).2).isSome := by
  have hmark : (c == 'e' || c == 'E') = true := by simpa using he
  simp only [power?, hmark, if_true]
  cases natural? 10 (sign cs).2 <;> rfl

theorem power?_isSome_iff : (power? cs).isSome ↔ Power cs := by
  constructor
  · intro h
    cases cs with
    | nil => exact .none
    | cons c cs =>
      by_cases he : c = 'e' ∨ c = 'E'
      · rw [power?_cons he] at h
        obtain ⟨n, hn⟩ := Option.isSome_iff_exists.mp h
        obtain ⟨s, hs, hcs⟩ := exists_sign cs
        rw [hcs]
        exact .some he hs ((natural?_eq_some_iff (by decide)).mp hn)
      · have hmark : ¬ (c == 'e' || c == 'E') = true := by simpa using he
        rw [power?, if_neg hmark] at h
        cases h
  · rintro (_ | ⟨he, hs, hds⟩)
    · rfl
    · rw [power?_cons he, sign_append_digits hs hds,
        (natural?_eq_some_iff (by decide)).mpr hds]
      rfl

theorem Power.head (h : Power es) : ∀ c ∈ es.head?, c.isDigit = false ∧ c ≠ '.' := by
  cases h with
  | none => exact nofun
  | some he =>
    intro c hc
    obtain rfl := Option.some.inj hc
    rcases he with rfl | rfl <;> decide

theorem Unsigned.head {us : List Char} (h : Unsigned us) : ∀ c ∈ us.head?, c ≠ '+' ∧ c ≠ '-' := by
  intro c hc
  have hdigit (hc : c.isDigit = true) : c ≠ '+' ∧ c ≠ '-' :=
    ⟨ne_of_isDigit rfl hc, ne_of_isDigit rfl hc⟩
  cases h with
  | whole hds | point hds | fraction hds => exact hdigit (hds.head c hc)
  | bare =>
    obtain rfl := Option.some.inj hc
    decide

/-! Fractions. -/

theorem span_digits (hds : ∀ c ∈ ds, c.isDigit = true) (hes : ∀ c ∈ es.head?, c.isDigit = false) :
    (ds ++ es).span Char.isDigit = (ds, es) := by
  rw [List.span_eq_takeWhile_dropWhile, List.takeWhile_append_of_pos hds,
    List.dropWhile_append_of_pos hds]
  cases es with
  | nil => simp
  | cons c es => simp [hes c rfl]

section
variable {us ws fs : List Char} (hsign : sign cs = (b, us))
include hsign

theorem fraction?_point (hus : us = ws ++ '.' :: (fs ++ es)) (hws : ∀ c ∈ ws, c.isDigit = true)
    (hfs : ∀ c ∈ fs, c.isDigit = true) (hes : ∀ c ∈ es.head?, c.isDigit = false) :
    (fraction? cs).isSome ↔ (natural? 10 (ws ++ fs)).isSome ∧ (power? es).isSome := by
  have hpoint : ∀ c ∈ ('.' :: (fs ++ es)).head?, c.isDigit = false := by
    intro c hc
    obtain rfl := Option.some.inj hc
    rfl
  subst hus
  simp only [fraction?, hsign, span_digits hws hpoint, span_digits hfs hes]
  cases natural? 10 (ws ++ fs) <;> cases power? es <;> simp

theorem fraction?_whole (hus : us = ws ++ es) (hws : ∀ c ∈ ws, c.isDigit = true)
    (hes : ∀ c ∈ es.head?, c.isDigit = false ∧ c ≠ '.') :
    (fraction? cs).isSome ↔ (natural? 10 ws).isSome ∧ (power? es).isSome := by
  subst hus
  simp only [fraction?, hsign, span_digits hws fun c hc => (hes c hc).1]
  cases es with
  | nil => cases hn : natural? 10 ws <;> simp [power?, hn]
  | cons c es =>
    have hc : c ≠ '.' := (hes c rfl).2
    cases hn : natural? 10 ws <;> cases hp : power? (c :: es) <;> simp [hc, hn, hp]

end

theorem exists_span (cs : List Char) : ∃ ds rest, cs = ds ++ rest ∧
    (∀ c ∈ ds, c.isDigit = true) ∧ ∀ c ∈ rest.head?, c.isDigit = false := by
  refine ⟨cs.takeWhile Char.isDigit, cs.dropWhile Char.isDigit,
    List.takeWhile_append_dropWhile.symm, fun c hc => List.mem_takeWhile_imp hc, fun c hc => ?_⟩
  have hfirst := List.head?_dropWhile_not Char.isDigit cs
  rw [Option.mem_def.mp hc] at hfirst
  simpa using hfirst

/-- Fractions are read from exactly the decimals with an optional sign. -/
theorem fraction?_isSome_iff :
    (fraction? cs).isSome ↔ ∃ s b us, Sign s b ∧ Unsigned us ∧ cs = s ++ us := by
  constructor
  · intro h
    obtain ⟨s, hs, hcs⟩ := exists_sign cs
    refine ⟨s, _, _, hs, ?_, hcs⟩
    obtain ⟨ws, rest, hus, hws, hrest⟩ := exists_span (sign cs).2
    have hpair : sign cs = ((sign cs).1, (sign cs).2) := rfl
    by_cases hpoint : ∃ more, rest = '.' :: more
    · obtain ⟨more, rfl⟩ := hpoint
      obtain ⟨fs, es, rfl, hfs, hes⟩ := exists_span more
      rw [fraction?_point hpair hus hws hfs hes, natural?_isSome_iff, power?_isSome_iff] at h
      obtain ⟨⟨hne, -⟩, hpower⟩ := h
      rw [hus]
      rcases eq_or_ne ws [] with rfl | hws'
      · obtain ⟨m, hm⟩ := exists_digits hne hfs
        exact .bare hm hpower
      · obtain ⟨n, hn⟩ := exists_digits hws' hws
        rcases eq_or_ne fs [] with rfl | hfs'
        · exact .point hn hpower
        · obtain ⟨m, hm⟩ := exists_digits hfs' hfs
          exact .fraction hn hm hpower
    · have hes : ∀ c ∈ rest.head?, c.isDigit = false ∧ c ≠ '.' := by
        rintro c hc
        refine ⟨hrest c hc, ?_⟩
        rintro rfl
        obtain ⟨more, hmore⟩ := List.head?_eq_some_iff.mp hc
        exact hpoint ⟨more, hmore⟩
      rw [fraction?_whole hpair hus hws hes, natural?_isSome_iff, power?_isSome_iff] at h
      obtain ⟨⟨hne, -⟩, hpower⟩ := h
      obtain ⟨n, hn⟩ := exists_digits hne hws
      rw [hus]
      exact .whole hn hpower
  · rintro ⟨s, b, us, hs, hus, rfl⟩
    have hsign := sign_append hs hus.head
    cases hus with
    | @whole ds es n hds hes =>
      rw [fraction?_whole hsign rfl hds.isDigit hes.head, natural?_isSome_iff]
      exact ⟨⟨hds.ne_nil, hds.isDigit⟩, power?_isSome_iff.mpr hes⟩
    | @point ds es n hds hes =>
      have hnone : ds ++ '.' :: es = ds ++ '.' :: ([] ++ es) := rfl
      rw [fraction?_point hsign hnone hds.isDigit nofun fun c hc => (hes.head c hc).1,
        List.append_nil, natural?_isSome_iff]
      exact ⟨⟨hds.ne_nil, hds.isDigit⟩, power?_isSome_iff.mpr hes⟩
    | @fraction ds fs es m n hds hfs hes =>
      rw [fraction?_point hsign rfl hds.isDigit hfs.isDigit fun c hc => (hes.head c hc).1,
        natural?_isSome_iff]
      refine ⟨⟨List.append_ne_nil_of_left_ne_nil hds.ne_nil _, ?_⟩, power?_isSome_iff.mpr hes⟩
      exact List.forall_mem_append.mpr ⟨hds.isDigit, hfs.isDigit⟩
    | @bare fs es m hfs hes =>
      have hnone : '.' :: (fs ++ es) = [] ++ '.' :: (fs ++ es) := rfl
      rw [fraction?_point hsign hnone nofun hfs.isDigit fun c hc => (hes.head c hc).1,
        List.nil_append, natural?_isSome_iff]
      exact ⟨⟨hfs.ne_nil, hfs.isDigit⟩, power?_isSome_iff.mpr hes⟩

end NumericLiteral
end Unravel
