import Mathlib.Algebra.Order.Field.Rat
import Mathlib.Data.Nat.Digits.Lemmas
import Mathlib.Tactic.Ring
import Unravel.Number.Decimal

/-! Decimal texts as they are written: digits, a fraction after a point and a signed power of ten,
the last two of which may be left out. A text is read in one way, and what is read has the value
of what is written. -/

namespace Unravel

namespace Decimal

def magnitude (ds : List (Fin 10)) : Nat := Nat.ofDigits 10 (ds.reverse.map Fin.val)

def written (ds : List (Fin 10)) : List Char := digitText (ds.map Fin.val)

@[ext]
structure Power where
  negative : Bool
  digits : List (Fin 10)
  nonempty : digits ≠ []
deriving DecidableEq

end Decimal

/-- A decimal text. The point is written when there is a fraction. -/
@[ext]
structure Decimal where
  whole : List (Fin 10)
  fraction : List (Fin 10)
  power : Option Decimal.Power
  nonempty : whole ≠ []
deriving DecidableEq

namespace Decimal
namespace Power

def value (p : Power) : Int := if p.negative then -magnitude p.digits else magnitude p.digits

def chars (p : Power) : List Char :=
  'e' :: (if p.negative then '-' else '+') :: written p.digits

end Power

def exponent (s : Decimal) : Int := (s.power.map Power.value).getD 0

def value (s : Decimal) : ℚ :=
  magnitude (s.whole ++ s.fraction) * 10 ^ (s.exponent - s.fraction.length)

def pointChars (fraction : List (Fin 10)) : List Char :=
  if fraction = [] then [] else '.' :: written fraction

def powerChars (power : Option Power) : List Char := (power.map Power.chars).getD []

def mantissaChars (s : Decimal) : List Char := written s.whole ++ pointChars s.fraction

def text (s : Decimal) : String := String.ofList (s.mantissaChars ++ powerChars s.power)

/-! Digits and their characters. -/

section
variable {ds es : List (Fin 10)}

theorem written_append : written (ds ++ es) = written ds ++ written es := by
  simp [written, digitText]

theorem written_zeros (n : Nat) : written (List.replicate n 0) = List.replicate n '0' := by
  simp [written, digitText]

theorem ne_of_mem_written {c mark : Char} (hmark : mark = 'e' ∨ mark = '.') (hc : c ∈ written ds) :
    c ≠ mark := by
  simp only [written, digitText, List.map_map, List.mem_map] at hc
  obtain ⟨d, -, rfl⟩ := hc
  have hall : ∀ d : Fin 10, Char.ofNat (48 + d) ≠ 'e' ∧ Char.ofNat (48 + d) ≠ '.' := by decide
  rcases hmark with rfl | rfl
  · exact (hall d).1
  · exact (hall d).2

theorem map_digitOf_written (ds : List (Fin 10)) : (written ds).map digitOf = ds.map Fin.val := by
  have hall : ∀ d : Fin 10, digitOf (Char.ofNat (48 + d)) = d := by decide
  simp only [written, digitText, List.map_map]
  exact List.map_congr_left fun d _ => hall d

theorem written_injective : Function.Injective written := by
  intro ds es heq
  have hdigits := congrArg (List.map digitOf) heq
  rw [map_digitOf_written, map_digitOf_written] at hdigits
  exact List.map_injective_iff.mpr Fin.val_injective hdigits

theorem magnitude_append (ds es : List (Fin 10)) :
    magnitude (ds ++ es) = magnitude ds * 10 ^ es.length + magnitude es := by
  unfold magnitude
  rw [List.reverse_append, List.map_append, Nat.ofDigits_append, List.length_map,
    List.length_reverse]
  ring

@[simp] theorem magnitude_singleton (d : Fin 10) : magnitude [d] = d := Nat.ofDigits_singleton

@[simp] theorem magnitude_zeros (n : Nat) : magnitude (List.replicate n 0) = 0 := by
  simp [magnitude, Nat.ofDigits_replicate_zero]

theorem digitsValue_eq (ds : List (Fin 10)) : digitsValue 10 (ds.map Fin.val) = magnitude ds := by
  induction ds using List.reverseRecOn with
  | nil => rfl
  | append_singleton ds d ih =>
    rw [magnitude_append, ← ih]
    simp [digitsValue, Nat.mul_comm]

theorem magnitude_lt (ds : List (Fin 10)) : magnitude ds < 10 ^ ds.length := by
  have hlt := Nat.ofDigits_lt_base_pow_length (b := 10) (l := ds.reverse.map Fin.val) (by decide)
    fun d hd => by
      obtain ⟨e, -, rfl⟩ := List.mem_map.mp hd
      exact e.isLt
  rwa [List.length_map, List.length_reverse] at hlt

theorem le_magnitude {d : Fin 10} (hd : d ≠ 0) (ds : List (Fin 10)) :
    10 ^ ds.length ≤ magnitude (d :: ds) := by
  have hpos : 1 ≤ d.val := Nat.one_le_iff_ne_zero.mpr (Fin.val_ne_zero_iff.mpr hd)
  rw [← List.singleton_append, magnitude_append, magnitude_singleton]
  nlinarith [Nat.mul_le_mul_right (10 ^ ds.length) hpos]

end

/-! A text is read in one way: up to the first `e`, and before it up to the first point. -/

theorem span_mark {mark : Char} {cs rest : List Char} (hcs : ∀ c ∈ cs, c ≠ mark)
    (hrest : rest = [] ∨ ∃ more, rest = mark :: more) :
    (cs ++ rest).takeWhile (· != mark) = cs ∧ (cs ++ rest).dropWhile (· != mark) = rest := by
  have hall : ∀ c ∈ cs, (c != mark) = true := fun c hc => bne_iff_ne.mpr (hcs c hc)
  rw [List.takeWhile_append_of_pos hall, List.dropWhile_append_of_pos hall]
  rcases hrest with rfl | ⟨more, rfl⟩ <;> simp

theorem mantissa_no_e (s : Decimal) : ∀ c ∈ s.mantissaChars, c ≠ 'e' := by
  intro c hc
  rcases List.mem_append.mp hc with hwhole | hpoint
  · exact ne_of_mem_written (.inl rfl) hwhole
  · unfold pointChars at hpoint
    split at hpoint
    · cases hpoint
    · rcases List.mem_cons.mp hpoint with rfl | hfraction
      · decide
      · exact ne_of_mem_written (.inl rfl) hfraction

theorem span_power (s : Decimal) :
    s.text.toList.takeWhile (· != 'e') = s.mantissaChars ∧
      s.text.toList.dropWhile (· != 'e') = powerChars s.power := by
  rw [text, String.toList_ofList]
  refine span_mark s.mantissa_no_e ?_
  cases s.power with
  | none => exact .inl rfl
  | some p => exact .inr ⟨_, rfl⟩

theorem span_point (s : Decimal) :
    s.mantissaChars.takeWhile (· != '.') = written s.whole ∧
      s.mantissaChars.dropWhile (· != '.') = pointChars s.fraction := by
  refine span_mark (fun c hc => ne_of_mem_written (.inr rfl) hc) ?_
  unfold pointChars
  split
  · exact .inl rfl
  · exact .inr ⟨_, rfl⟩

theorem pointChars_injective : Function.Injective pointChars := by
  intro fs gs heq
  unfold pointChars at heq
  split at heq <;> split at heq
  · simp_all
  · cases heq
  · cases heq
  · exact written_injective (List.cons.inj heq).2

theorem powerChars_injective : Function.Injective powerChars := by
  rintro (_ | p) (_ | q) heq
  · rfl
  · cases heq
  · cases heq
  · obtain ⟨-, hrest⟩ := List.cons.inj heq
    obtain ⟨hsign, hdigits⟩ := List.cons.inj hrest
    have hnegative : p.negative = q.negative := by
      cases hp : p.negative <;> cases hq : q.negative <;> simp_all
    exact congrArg some (Power.ext hnegative (written_injective hdigits))

theorem text_injective : Function.Injective text := by
  intro s s' heq
  obtain ⟨hmantissa, hpower⟩ := s.span_power
  obtain ⟨hmantissa', hpower'⟩ := s'.span_power
  rw [heq] at hmantissa hpower
  have hsame : s.mantissaChars = s'.mantissaChars := hmantissa.symm.trans hmantissa'
  obtain ⟨hwhole, hpoint⟩ := s.span_point
  obtain ⟨hwhole', hpoint'⟩ := s'.span_point
  rw [hsame] at hwhole hpoint
  exact Decimal.ext (written_injective (hwhole.symm.trans hwhole'))
    (pointChars_injective (hpoint.symm.trans hpoint'))
    (powerChars_injective (hpower.symm.trans hpower'))

/-! What is read is what is written. -/

theorem signedValue_power (p : Power) : Numeral.signedValue p.chars.tail = p.value := by
  unfold Power.chars Power.value
  cases p.negative with
  | true =>
    show -(digitsValue 10 ((written p.digits).map digitOf) : Int) = -magnitude p.digits
    rw [map_digitOf_written, digitsValue_eq]
  | false =>
    show (digitsValue 10 ((written p.digits).map digitOf) : Int) = magnitude p.digits
    rw [map_digitOf_written, digitsValue_eq]

theorem read_text (s : Decimal) : Numeral.read s.text.toList =
    ⟨s.whole.map Fin.val, s.fraction.map Fin.val, s.exponent⟩ := by
  obtain ⟨hmantissa, hpower⟩ := s.span_power
  obtain ⟨hwhole, hpoint⟩ := s.span_point
  have hfraction : ((pointChars s.fraction).filter (· != '.')).map digitOf =
      s.fraction.map Fin.val := by
    unfold pointChars
    split
    · rename_i hnone
      rw [hnone]
      rfl
    · have hdigits : (written s.fraction).filter (· != '.') = written s.fraction :=
        List.filter_eq_self.mpr fun c hc => bne_iff_ne.mpr (ne_of_mem_written (.inr rfl) hc)
      rw [List.filter_cons_of_neg (by decide), hdigits, map_digitOf_written]
  have hexponent : Numeral.signedValue (powerChars s.power).tail = s.exponent := by
    unfold exponent
    cases s.power with
    | none => rfl
    | some p => exact signedValue_power p
  unfold Numeral.read
  simp only [hmantissa, hpower, hwhole, hpoint, map_digitOf_written, hfraction, hexponent]

end Decimal
end Unravel
