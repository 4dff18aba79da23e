import Mathlib.Data.List.TakeWhile
import Unravel.Proofs.Number.Decimal

/-! The layout of numbers. The digits of a decimal without the zeros at both ends, and the place of
the point before them, have the value of the decimal; the layout writes that value with no zero but
those that keep the place. -/

namespace Unravel

open Decimal

structure Significant (ds : List (Fin 10)) : Prop where
  nonempty : ds ≠ []
  head : ds.head? ≠ some 0
  last : ds.getLast? ≠ some 0

/-- The number `0.d₁d₂… · 10 ^ point`. -/
def pointValue (ds : List (Fin 10)) (point : Int) : ℚ := magnitude ds * 10 ^ (point - ds.length)

/-- A decimal without a power of ten and without a zero that could be left out. -/
structure Decimal.Plain (s : Decimal) : Prop where
  power : s.power = none
  whole : s.whole = [0] ∨ s.whole.head? ≠ some 0
  fraction : s.fraction.getLast? ≠ some 0

/-- One digit, a fraction and this power of ten, without a zero that could be left out. -/
structure Decimal.Scientific (s : Decimal) (exponent : Int) : Prop where
  whole : ∃ d, d ≠ 0 ∧ s.whole = [d]
  fraction : s.fraction.getLast? ≠ some 0
  power : ∃ p, s.power = some p ∧ p.value = exponent ∧ p.digits.head? ≠ some 0

variable {ds : List (Fin 10)} {point : Int}

/-! The place of the point is the size of the number. -/

theorem ten_zpow_add (a b : Int) : (10 : ℚ) ^ (a + b) = 10 ^ a * 10 ^ b :=
  zpow_add₀ (by norm_num) a b

theorem Significant.bounds (h : Significant ds) (point : Int) :
    (10 : ℚ) ^ (point - 1) ≤ pointValue ds point ∧ pointValue ds point < 10 ^ point := by
  obtain _ | ⟨d, es⟩ := ds
  · exact absurd rfl h.nonempty
  have hd : d ≠ 0 := fun heq => h.head (congrArg some heq)
  have hpos : (0 : ℚ) < 10 ^ (point - (d :: es).length) := zpow_pos (by norm_num) _
  have hlow : ((10 ^ es.length : Nat) : ℚ) ≤ magnitude (d :: es) :=
    Nat.cast_le.mpr (le_magnitude hd es)
  have hhigh : (magnitude (d :: es) : ℚ) < ((10 ^ (d :: es).length : Nat) : ℚ) :=
    Nat.cast_lt.mpr (magnitude_lt (d :: es))
  push_cast [← zpow_natCast] at hlow hhigh
  constructor
  · calc (10 : ℚ) ^ (point - 1)
        = 10 ^ (es.length : Int) * 10 ^ (point - (d :: es).length) := by
          rw [← ten_zpow_add, List.length_cons]
          congr 1
          omega
      _ ≤ pointValue (d :: es) point := mul_le_mul_of_nonneg_right hlow hpos.le
  · calc pointValue (d :: es) point
        < 10 ^ ((d :: es).length : Int) * 10 ^ (point - (d :: es).length) :=
          mul_lt_mul_of_pos_right hhigh hpos
      _ = 10 ^ point := by
          rw [← ten_zpow_add]
          congr 1
          omega

/-! Zeros at the ends are taken off. -/

theorem exists_zeros (ds : List (Fin 10)) :
    ∃ n, ds = List.replicate n 0 ++ ds.dropWhile (· == 0) := by
  refine ⟨(ds.takeWhile (· == 0)).length, ?_⟩
  have hzeros : ds.takeWhile (· == 0) = List.replicate (ds.takeWhile (· == 0)).length 0 :=
    List.eq_replicate_of_mem fun d hd => by
      have hzero : (d == 0) = true := List.mem_takeWhile_imp (p := (· == 0)) hd
      exact beq_iff_eq.mp hzero
  rw [← hzeros, List.takeWhile_append_dropWhile]

theorem head_dropWhile_zeros (ds : List (Fin 10)) : (ds.dropWhile (· == 0)).head? ≠ some 0 := by
  intro hzero
  have hfirst := List.head?_dropWhile_not (· == (0 : Fin 10)) ds
  rw [hzero] at hfirst
  cases hfirst

theorem dropWhile_val (ds : List (Fin 10)) :
    (ds.map Fin.val).dropWhile (· == 0) = (ds.dropWhile (· == 0)).map Fin.val := by
  have hzero : (fun n : Nat => n == 0) ∘ Fin.val = fun d : Fin 10 => d == 0 := by
    funext d
    rw [Function.comp_apply, Bool.eq_iff_iff, beq_iff_eq, beq_iff_eq, Fin.val_eq_zero_iff]
  rw [List.dropWhile_map, hzero]

namespace Decimal

theorem exists_normal (s : Decimal) (hs : ∃ d ∈ s.whole ++ s.fraction, d ≠ 0) :
    ∃ ds a b, s.whole ++ s.fraction = List.replicate a 0 ++ (ds ++ List.replicate b 0) ∧
      Significant ds ∧
      (Numeral.read s.text.toList).normal =
        (ds.map Fin.val, s.whole.length + s.exponent - a) := by
  -- zeros in front first, then those behind, as the layout takes them off
  obtain ⟨a, ha⟩ := exists_zeros (s.whole ++ s.fraction)
  have hhead := head_dropWhile_zeros (s.whole ++ s.fraction)
  generalize hdigits : (s.whole ++ s.fraction).dropWhile (· == 0) = digits at ha hhead
  obtain ⟨b, hb⟩ := exists_zeros digits.reverse
  have hlast := head_dropWhile_zeros digits.reverse
  generalize hds : digits.reverse.dropWhile (· == 0) = rest at hb hlast
  have hsplit : digits = rest.reverse ++ List.replicate b 0 := by
    rw [← List.reverse_reverse digits, hb, List.reverse_append, List.reverse_replicate]
  have hnonempty : rest.reverse ≠ [] := by
    intro hnil
    obtain ⟨d, hd, hne⟩ := hs
    rw [ha, hsplit, hnil, List.nil_append, List.replicate_append_replicate] at hd
    exact hne (List.eq_of_mem_replicate hd)
  refine ⟨rest.reverse, a, b, hsplit ▸ ha, ⟨hnonempty, ?_, ?_⟩, ?_⟩
  · rwa [hsplit, List.head?_append_of_ne_nil _ hnonempty] at hhead
  · rwa [List.getLast?_reverse]
  · have hlength : (s.whole ++ s.fraction).length - digits.length = a := by
      rw [ha, List.length_append, List.length_replicate, Nat.add_sub_cancel]
    have hraw : s.whole.map Fin.val ++ s.fraction.map Fin.val =
        (s.whole ++ s.fraction).map Fin.val := (List.map_append ..).symm
    rw [read_text]
    unfold Numeral.normal
    simp only [hraw, dropWhile_val, hdigits, ← List.map_reverse, hds, List.length_map, hlength]

theorem value_eq_pointValue (ds : List (Fin 10)) (a b : Nat) {s : Decimal}
    (hsplit : s.whole ++ s.fraction = List.replicate a 0 ++ (ds ++ List.replicate b 0)) :
    s.value = pointValue ds (s.whole.length + s.exponent - a) := by
  have hlength := congrArg List.length hsplit
  simp only [List.length_append, List.length_replicate] at hlength
  have hmagnitude : magnitude (s.whole ++ s.fraction) = magnitude ds * 10 ^ b := by
    rw [hsplit, magnitude_append, magnitude_append, magnitude_zeros, magnitude_zeros]
    simp
  have hexponent : (s.whole.length + s.exponent - a - ds.length : Int) =
      b + (s.exponent - s.fraction.length) := by omega
  unfold value pointValue
  rw [hmagnitude, hexponent, ten_zpow_add, zpow_natCast]
  push_cast
  ring

end Decimal

/-! The layout, branch by branch. -/

namespace Numeral

theorem layout_integer (hds : Significant ds) (hlow : ds.length ≤ point) (hhigh : point ≤ 21) :
    ∃ out : Decimal, out.text = String.ofList (layout (ds.map Fin.val) point) ∧
      out.value = pointValue ds point ∧ out.Plain := by
  obtain ⟨n, rfl⟩ : ∃ n : Nat, point = ds.length + n := ⟨(point - ds.length).toNat, by omega⟩
  have hne : ds ++ List.replicate n 0 ≠ [] := List.append_ne_nil_of_left_ne_nil hds.nonempty _
  refine ⟨⟨ds ++ List.replicate n 0, [], none, hne⟩, ?_, ?_, ⟨rfl, .inr ?_, nofun⟩⟩
  · have hzeros : ((ds.length + n - ds.length : Int)).toNat = n := by omega
    simp only [Decimal.text, Decimal.mantissaChars, Decimal.pointChars, Decimal.powerChars,
      layout, List.length_map, hlow, hhigh, hzeros, written_append, written_zeros]
    simp [written]
  · rw [Decimal.value_eq_pointValue ds 0 n (by simp)]
    simp [Decimal.exponent]
  · rw [List.head?_append_of_ne_nil _ hds.nonempty]
    exact hds.head

theorem layout_split (hds : Significant ds) (hpos : 0 < point) (hlow : point < ds.length)
    (hhigh : point ≤ 21) :
    ∃ out : Decimal, out.text = String.ofList (layout (ds.map Fin.val) point) ∧
      out.value = pointValue ds point ∧ out.Plain := by
  obtain ⟨n, rfl⟩ := Int.eq_ofNat_of_zero_le hpos.le
  have hne : ds.take n ≠ [] := by
    intro hnil
    rcases List.take_eq_nil_iff.mp hnil with hzero | hds'
    · omega
    · exact hds.nonempty hds'
  have hrest : ds.drop n ≠ [] := by
    rw [ne_eq, List.drop_eq_nil_iff]
    omega
  refine ⟨⟨ds.take n, ds.drop n, none, hne⟩, ?_, ?_, ⟨rfl, .inr ?_, ?_⟩⟩
  · have hbranch : ¬ (ds.length : Int) ≤ n := by omega
    simp only [Decimal.text, Decimal.mantissaChars, Decimal.pointChars, Decimal.powerChars,
      layout, List.length_map, hbranch, hpos, hhigh, hrest]
    simp [written, List.map_take, List.map_drop]
  · have hlength : (ds.take n).length = n := by
      rw [List.length_take]
      omega
    rw [Decimal.value_eq_pointValue ds 0 0 (by simp)]
    simp [Decimal.exponent, hlength]
  · rw [List.head?_take]
    split
    · exact (Option.some_ne_none 0).symm
    · exact hds.head
  · rw [List.getLast?_drop]
    split
    · exact (Option.some_ne_none 0).symm
    · exact hds.last

theorem layout_small (hds : Significant ds) (hlow : -6 < point) (hhigh : point ≤ 0) :
    ∃ out : Decimal, out.text = String.ofList (layout (ds.map Fin.val) point) ∧
      out.value = pointValue ds point ∧ out.Plain := by
  obtain ⟨n, rfl⟩ : ∃ n : Nat, point = -n := ⟨(-point).toNat, by omega⟩
  have hpos : 0 < ds.length := List.length_pos_iff.mpr hds.nonempty
  have hne : List.replicate n 0 ++ ds ≠ [] := List.append_ne_nil_of_right_ne_nil _ hds.nonempty
  refine ⟨⟨[0], List.replicate n 0 ++ ds, none, nofun⟩, ?_, ?_, ⟨rfl, .inl rfl, ?_⟩⟩
  · have hinteger : ¬ (ds.length : Int) ≤ -n := by omega
    have hsplit : ¬ (0 : Int) < -n := by omega
    simp only [Decimal.text, Decimal.mantissaChars, Decimal.pointChars, Decimal.powerChars,
      layout, List.length_map, hinteger, hsplit, hlow, hhigh, hne, written_append, written_zeros]
    simp [written, digitText]
  · rw [Decimal.value_eq_pointValue ds (n + 1) 0 (by simp [List.replicate_succ])]
    simp [Decimal.exponent]
  · rw [List.getLast?_append_of_ne_nil _ hds.nonempty]
    exact hds.last

/-! A power of ten is written without a leading zero. -/

theorem toDigits_written (n : Nat) : ∃ ds : List (Fin 10), ds ≠ [] ∧
    Nat.toDigits 10 n = written ds ∧ magnitude ds = n ∧ (n ≠ 0 → ds.head? ≠ some 0) := by
  have hdigit (d : Nat) (hd : d < 10) : [d.digitChar] = written [⟨d, hd⟩] := by
    have hall : ∀ d : Fin 10, [Nat.digitChar d] = written [d] := by decide
    exact hall ⟨d, hd⟩
  induction n using Nat.strongRecOn with
  | ind n ih =>
    by_cases hsmall : n < 10
    · refine ⟨[⟨n, hsmall⟩], nofun, ?_, magnitude_singleton _, fun hn hzero => hn ?_⟩
      · rw [Nat.toDigits_of_lt_base hsmall, hdigit n hsmall]
      · exact congrArg Fin.val (Option.some.inj hzero)
    · obtain ⟨ds, hne, hchars, hvalue, hhead⟩ := ih (n / 10) (by omega)
      have hlast : n % 10 < 10 := Nat.mod_lt n (by decide)
      refine ⟨ds ++ [⟨n % 10, hlast⟩], by simp, ?_, ?_, fun _ => ?_⟩
      · rw [Nat.toDigits_of_base_le (by decide) (by omega), hchars, hdigit _ hlast, written_append]
      · rw [magnitude_append, hvalue, magnitude_singleton, List.length_singleton, pow_one]
        exact Nat.div_add_mod' n 10
      · rw [List.head?_append_of_ne_nil _ hne]
        exact hhead (by omega)

theorem exists_power {e : Int} (he : e ≠ 0) : ∃ p : Power,
    p.chars = 'e' :: (if 0 ≤ e then '+' else '-') :: Nat.toDigits 10 e.natAbs ∧
      p.value = e ∧ p.digits.head? ≠ some 0 := by
  obtain ⟨ds, hne, hchars, hvalue, hhead⟩ := toDigits_written e.natAbs
  refine ⟨⟨decide (e < 0), ds, hne⟩, ?_, ?_, hhead (Int.natAbs_ne_zero.mpr he)⟩
  · unfold Power.chars
    rw [hchars]
    by_cases hnegative : e < 0
    · have hsign : ¬ 0 ≤ e := by omega
      simp [hnegative, hsign]
    · have hsign : 0 ≤ e := by omega
      simp [hnegative, hsign]
  · unfold Power.value
    rw [hvalue]
    by_cases hnegative : e < 0
    · simp only [hnegative, decide_true, if_true]
      omega
    · simp only [hnegative, decide_false]
      show ((e.natAbs : Nat) : Int) = e
      omega

theorem layout_power (hds : Significant ds) (hout : ¬ (-6 < point ∧ point ≤ 21)) :
    ∃ out : Decimal, out.text = String.ofList (layout (ds.map Fin.val) point) ∧
      out.value = pointValue ds point ∧ out.Scientific (point - 1) := by
  obtain _ | ⟨d, es⟩ := ds
  · exact absurd rfl hds.nonempty
  obtain ⟨p, hchars, hvalue, hhead⟩ := exists_power (show point - 1 ≠ 0 by omega)
  have hd : d ≠ 0 := fun heq => hds.head (congrArg some heq)
  refine ⟨⟨[d], es, some p, nofun⟩, ?_, ?_, ⟨⟨d, hd, rfl⟩, ?_, ⟨p, rfl, hvalue, hhead⟩⟩⟩
  · have hinteger : ¬ (((es.length + 1 : Nat) : Int) ≤ point ∧ point ≤ 21) := by omega
    have hsplit : ¬ (0 < point ∧ point ≤ 21) := by omega
    have hsmall : ¬ (-6 < point ∧ point ≤ 0) := by omega
    have hmantissa : (if ((es.length + 1 : Nat) : Int) = 1 then written (d :: es)
        else written [d] ++ '.' :: written es) = written [d] ++ Decimal.pointChars es := by
      cases es with
      | nil => rfl
      | cons c cs =>
        have hlong : ¬ (((c :: cs).length + 1 : Nat) : Int) = 1 := by
          rw [List.length_cons]
          omega
        rw [if_neg hlong]
        rfl
    have hlayout : layout ((d :: es).map Fin.val) point = (if ((es.length + 1 : Nat) : Int) = 1
        then written (d :: es) else written [d] ++ '.' :: written es) ++ p.chars := by
      simp only [layout, List.length_map, List.length_cons, Bool.and_eq_true, decide_eq_true_eq,
        hinteger, hsplit, hsmall, if_false, hchars]
      rfl
    rw [hlayout, hmantissa]
    rfl
  · rw [Decimal.value_eq_pointValue (d :: es) 0 0 (by simp)]
    simp [Decimal.exponent, hvalue]
  · intro hlast
    have hes : es ≠ [] := by
      rintro rfl
      cases hlast
    rw [← List.getLast?_cons_of_ne_nil hes] at hlast
    exact hds.last hlast

theorem layout_spec (hds : Significant ds) (point : Int) :
    ∃ out : Decimal, out.text = String.ofList (layout (ds.map Fin.val) point) ∧
      out.value = pointValue ds point ∧
      if -6 < point ∧ point ≤ 21 then out.Plain else out.Scientific (point - 1) := by
  by_cases hplain : -6 < point ∧ point ≤ 21
  · simp only [if_pos hplain]
    obtain ⟨hlow, hhigh⟩ := hplain
    rcases lt_or_ge 0 point with hpos | hneg
    · rcases lt_or_ge point ds.length with hshort | hlong
      · exact layout_split hds hpos hshort hhigh
      · exact layout_integer hds hlong hhigh
    · exact layout_small hds hlow hneg
  · simp only [if_neg hplain]
    exact layout_power hds hplain

/-- A number that is laid out anew keeps its value. It is written with no zero but those that keep
the place of its digits: plainly when that place, which the size of the number tells, lies in
`(-6, 21]`, and else with a power of ten. -/
theorem relayout_spec (s : Decimal) (hs : ∃ d ∈ s.whole ++ s.fraction, d ≠ 0) :
    ∃ (out : Decimal) (point : Int), out.text = relayout s.text ∧
      (∀ out' : Decimal, out'.text = relayout s.text → out' = out) ∧
      out.value = s.value ∧
      (10 : ℚ) ^ (point - 1) ≤ s.value ∧ s.value < 10 ^ point ∧
      if -6 < point ∧ point ≤ 21 then out.Plain else out.Scientific (point - 1) := by
  obtain ⟨ds, a, b, hsplit, hds, hnormal⟩ := s.exists_normal hs
  have hvalue := Decimal.value_eq_pointValue ds a b hsplit
  generalize (s.whole.length : Int) + s.exponent - a = point at hnormal hvalue
  obtain ⟨out, htext, hsame, hlayout⟩ := layout_spec hds point
  obtain ⟨hlow, hhigh⟩ := hds.bounds point
  have hrelayout : out.text = relayout s.text := by
    rw [htext, relayout, plain, hnormal]
  refine ⟨out, point, hrelayout, fun out' hout' => ?_, hsame.trans hvalue.symm, ?_, ?_, hlayout⟩
  · exact Decimal.text_injective (hout'.trans hrelayout.symm)
  · rwa [hvalue]
  · rwa [hvalue]

def smallDecimal : Decimal := ⟨[2], [5, 0], some ⟨true, [0, 7], nofun⟩, nofun⟩

theorem relayout_small : smallDecimal.text = "2.50e-07" ∧
    (∃ d ∈ smallDecimal.whole ++ smallDecimal.fraction, d ≠ 0) ∧
    ∃ out : Decimal, out.text = "2.5e-7" ∧ out.value = smallDecimal.value := by
  have hdigit : ∃ d ∈ smallDecimal.whole ++ smallDecimal.fraction, d ≠ 0 := by decide
  obtain ⟨out, -, htext, -, hvalue, -⟩ := relayout_spec smallDecimal hdigit
  have hlaid : relayout smallDecimal.text = "2.5e-7" := by decide +kernel
  exact ⟨by decide +kernel, hdigit, out, htext.trans hlaid, hvalue⟩

end Numeral
end Unravel
