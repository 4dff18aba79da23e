import Unravel.Number.Double

/-! The sign of a double. Negation turns it around and keeps a number a number. -/

namespace Unravel.Double

open Float.Model Float.Model.UnpackedFloat

def signOf : UnpackedFloat → Sign
  | .infinity s | .zero s | .finite s _ _ _ => s
  | .notANumber => .positive

theorem signOf_neg {u : UnpackedFloat} (hu : u.isNaN = false) : signOf u.neg = -signOf u := by
  cases u with
  | notANumber => cases hu
  | infinity | zero | finite => rfl

theorem isNaN_neg (u : UnpackedFloat) : u.neg.isNaN = u.isNaN := by
  cases u <;> rfl

theorem exists_components {u : UnpackedFloat} (hu : u.isNaN = false) :
    ∃ (e : BitVec 11) (m : BitVec 52), (e = -1#11 → m = 0#52) ∧
      UnpackedFloat.pack Format.binary64 u = packComponents Format.binary64 (signOf u) e m := by
  cases u with
  | notANumber => cases hu
  | infinity s => exact ⟨-1#11, 0#52, fun _ => rfl, rfl⟩
  | zero s => exact ⟨0#11, 0#52, fun _ => rfl, rfl⟩
  | finite s m e hm =>
    have hsign : signOf (.finite s m e hm) = s := rfl
    rw [hsign]
    delta UnpackedFloat.pack
    dsimp only
    split
    · exact ⟨-1#11, 0#52, fun _ => rfl, rfl⟩
    · rename_i hsmall
      split
      · refine ⟨_, _, fun he => absurd (congrArg BitVec.toNat he) ?_, rfl⟩
        rw [BitVec.toNat_ofNat]
        intro hall
        have hlargest : (-1#11).toNat = 2047 := rfl
        rw [hlargest] at hall
        omega
      · exact ⟨0#11, _, fun he => absurd he (by decide), rfl⟩

theorem unpack_cases (b : BitVec 64) :
    (@unpackExponent Format.binary64 b = -1#11 ∧ @unpackMantissa Format.binary64 b ≠ 0#52 ∧
      (UnpackedFloat.unpack Format.binary64 b).isNaN = true) ∨
    ((UnpackedFloat.unpack Format.binary64 b).isNaN = false ∧
      signOf (UnpackedFloat.unpack Format.binary64 b) =
        Sign.ofBitVec (@unpackSign Format.binary64 b)) := by
  delta UnpackedFloat.unpack
  dsimp only
  by_cases he : @unpackExponent Format.binary64 b = -1#11
  · by_cases hm : @unpackMantissa Format.binary64 b = 0#52
    · rw [if_pos he, if_pos hm]
      exact .inr ⟨rfl, rfl⟩
    · rw [if_pos he, if_neg hm]
      exact .inl ⟨he, hm, rfl⟩
  · refine .inr ?_
    rw [if_neg he]
    by_cases hzero : @unpackExponent Format.binary64 b = 0#11
    · rw [if_pos hzero]
      by_cases hm : @unpackMantissa Format.binary64 b = 0#52
      · rw [dif_pos hm]
        exact ⟨rfl, rfl⟩
      · rw [dif_neg hm]
        exact ⟨rfl, rfl⟩
    · rw [if_neg hzero]
      exact ⟨rfl, rfl⟩

theorem msb_packComponents (s : Sign) (e : BitVec 11) (m : BitVec 52) :
    BitVec.msb (packComponents Format.binary64 s e m) = (s matches .negative) := by
  unfold packComponents
  rw [BitVec.msb_append, BitVec.msb_append]
  cases s <;> rfl

theorem ofBitVec_unpackSign (b : BitVec 64) :
    (Sign.ofBitVec (@unpackSign Format.binary64 b) matches .negative) = b.msb := by
  have hsign : @unpackSign Format.binary64 b = BitVec.ofBool b.msb := by
    ext i hi
    obtain rfl : i = 0 := Nat.lt_one_iff.mp hi
    have htop : b.getLsbD 63 = b[63] := BitVec.getLsbD_eq_getElem (by decide)
    delta unpackSign
    simp [BitVec.msb_eq_getLsbD_last, htop]
  rw [hsign]
  cases b.msb <;> rfl

theorem isNegative_eq_msb (x : Float) : isNegative x = x.toBits.toBitVec.msb := by
  rw [BitVec.msb_eq_decide]
  rfl

theorem isNaN_pack {u : UnpackedFloat} (hu : u.isNaN = false) :
    (Float.ofModel (.pack u)).isNaN = false := by
  obtain ⟨e, m, hem, hpack⟩ := exists_components hu
  have hbits : (Float.ofModel (.pack u)).toBits.toBitVec =
      packComponents Format.binary64 (signOf u) e m := hpack
  rcases unpack_cases (Float.ofModel (.pack u)).toBits.toBitVec with
    ⟨hexponent, hmantissa, -⟩ | ⟨hnumber, -⟩
  · rw [hbits, unpackExponent_packComponents] at hexponent
    rw [hbits, unpackMantissa_packComponents] at hmantissa
    exact absurd (hem hexponent) hmantissa
  · exact hnumber

theorem neg_number {x : Float} (hx : x.isNaN = false) :
    (-x).isNaN = false ∧ isNegative (-x) = !isNegative x := by
  have hu : (UnpackedFloat.unpack Format.binary64 x.toBits.toBitVec).isNaN = false := hx
  have hneg := (isNaN_neg (UnpackedFloat.unpack Format.binary64 x.toBits.toBitVec)).trans hu
  obtain ⟨e, m, hem, hpack⟩ := exists_components hneg
  have hbits : (-x).toBits.toBitVec = packComponents Format.binary64
      (-signOf (UnpackedFloat.unpack Format.binary64 x.toBits.toBitVec)) e m := by
    rw [← signOf_neg hu]
    exact hpack
  have hsign : signOf (UnpackedFloat.unpack Format.binary64 x.toBits.toBitVec) =
      Sign.ofBitVec (@unpackSign Format.binary64 x.toBits.toBitVec) := by
    rcases unpack_cases x.toBits.toBitVec with ⟨-, -, hnan⟩ | ⟨-, hsign⟩
    · rw [hu] at hnan
      cases hnan
    · exact hsign
  refine ⟨isNaN_pack hneg, ?_⟩
  rw [isNegative_eq_msb, isNegative_eq_msb, hbits, msb_packComponents, hsign, ← ofBitVec_unpackSign]
  cases Sign.ofBitVec (@unpackSign Format.binary64 x.toBits.toBitVec) <;> rfl

theorem nonneg_of_toInt? {x : Float} {n : Int} (hx : isNegative x = false) (h : toInt? x = some n) :
    0 ≤ n := by
  unfold toInt? at h
  split at h
  · dsimp only at h
    split at h
    · rw [hx, if_neg Bool.false_ne_true] at h
      cases h
      exact Int.natCast_nonneg _
    · cases h
  · cases h

end Unravel.Double
