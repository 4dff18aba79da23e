import Unravel.Proofs.Exchange.Sign
import Mathlib

/-! Normal doubles: a sign, a significand of 53 bits and a power of two. They are read off the bits
and compared with integers by their value. -/

namespace Unravel.Double

open Float.Model Float.Model.UnpackedFloat

structure Normal (m : Nat) (e : Int) : Prop where
  low : 2 ^ 52 ≤ m
  high : m < 2 ^ 53
  least : -1074 ≤ e
  greatest : e ≤ 971

theorem Normal.pos {m : Nat} {e : Int} (h : Normal m e) : 0 < m :=
  Nat.lt_of_lt_of_le (by decide) h.low

def normalBits (s : Sign) (m : Nat) (e : Int) : BitVec 64 :=
  packComponents Format.binary64 s (BitVec.ofNat 11 (e + 1075).toNat) (BitVec.ofNat 52 m)

structure Shows (x : Float) (s : Sign) (m : Nat) (e : Int) : Prop where
  normal : Normal m e
  bits : x.toBits.toBitVec = normalBits s m e

section
variable {s : Sign} {m : Nat} {e : Int}

theorem Normal.exponent_toNat (h : Normal m e) :
    (BitVec.ofNat 11 (e + 1075).toNat).toNat = (e + 1075).toNat := by
  have hleast := h.least
  have hgreatest := h.greatest
  rw [BitVec.toNat_ofNat]
  exact Nat.mod_eq_of_lt (by omega)

theorem Normal.fraction_toNat (h : Normal m e) : (BitVec.ofNat 52 m).toNat = m - 2 ^ 52 := by
  have hlow := h.low
  have hhigh := h.high
  rw [BitVec.toNat_ofNat]
  omega

theorem toNat_normalBits (h : Normal m e) : (normalBits s m e).toNat =
    (s.toBitVec.toNat * 2 ^ 11 + (e + 1075).toNat) * 2 ^ 52 + (m - 2 ^ 52) := by
  have hexponent := h.exponent_toNat
  have hfraction := h.fraction_toNat
  unfold normalBits packComponents
  rw [BitVec.toNat_append, BitVec.toNat_append, ← Nat.shiftLeft_add_eq_or_of_lt,
    ← Nat.shiftLeft_add_eq_or_of_lt, hexponent, hfraction, Nat.shiftLeft_eq, Nat.shiftLeft_eq]
  · exact BitVec.isLt _
  · exact BitVec.isLt _

theorem sign_normalBits :
    Sign.ofBitVec (@unpackSign Format.binary64 (normalBits s m e)) = s := by
  have hsign := ofBitVec_unpackSign (normalBits s m e)
  rw [normalBits, msb_packComponents] at hsign
  rw [normalBits]
  generalize Sign.ofBitVec _ = s' at hsign
  cases s <;> cases s' <;> first | rfl | cases hsign

theorem unpack_normalBits (h : Normal m e) :
    UnpackedFloat.unpack Format.binary64 (normalBits s m e) = .finite s m e h.pos := by
  have hleast := h.least
  have hgreatest := h.greatest
  have hlow := h.low
  have hexponent := h.exponent_toNat
  have hne : BitVec.ofNat 11 (e + 1075).toNat ≠ -1#11 := by
    intro heq
    have hnat := congrArg BitVec.toNat heq
    rw [hexponent] at hnat
    have hlargest : (-1#11).toNat = 2047 := rfl
    omega
  have hnonzero : BitVec.ofNat 11 (e + 1075).toNat ≠ 0#11 := by
    intro heq
    have hnat := congrArg BitVec.toNat heq
    rw [hexponent] at hnat
    have hzero : (0#11).toNat = 0 := rfl
    omega
  have hmantissa : (1#1 ++ BitVec.ofNat 52 m).toNat = m := by
    rw [BitVec.toNat_append, ← Nat.shiftLeft_add_eq_or_of_lt (BitVec.isLt _), h.fraction_toNat,
      Nat.shiftLeft_eq]
    have hone : (1#1).toNat = 1 := rfl
    omega
  have hbias :
      ((Format.binary64.exponentBias : Int) + Format.binary64.mantissaBitsWithoutImplicit) = 1075 :=
    rfl
  delta UnpackedFloat.unpack
  dsimp only
  rw [sign_normalBits]
  simp only [normalBits, unpackExponent_packComponents, unpackMantissa_packComponents, if_neg hne,
    if_neg hnonzero, hexponent, hmantissa, hbias]
  have he : ((e + 1075).toNat : Int) - 1075 = e := by omega
  rw [he]

theorem pack_finite (h : Normal m e) :
    UnpackedFloat.pack Format.binary64 (.finite s m e h.pos) = normalBits s m e := by
  have hleast := h.least
  have hgreatest := h.greatest
  have hlog : m.log2 = 52 := Nat.log2_eq_iff (Nat.ne_of_gt h.pos) |>.mpr ⟨h.low, h.high⟩
  have hexponent : (e + Format.binary64.exponentBias + Format.binary64.mantissaBitsWithoutImplicit).toNat =
      (e + 1075).toNat := congrArg Int.toNat (Int.add_assoc e 1023 52)
  have hsmall : ¬ 2 ^ Format.binary64.exponentBits ≤ (e + 1075).toNat + 1 := by
    have hpow : 2 ^ Format.binary64.exponentBits = 2048 := rfl
    omega
  have hbits : m.log2 + 1 = Format.binary64.mantissaBits := by rw [hlog]; rfl
  delta UnpackedFloat.pack
  dsimp only
  rw [hexponent, if_neg hsmall, if_pos hbits]
  rfl

theorem Shows.unpack {x : Float} (h : Shows x s m e) :
    UnpackedFloat.unpack Format.binary64 x.toBits.toBitVec = .finite s m e h.normal.pos := by
  rw [h.bits, unpack_normalBits h.normal]

theorem shows_pack {u : UnpackedFloat} (h : Normal m e) (hu : u = .finite s m e h.pos) :
    Shows (.ofModel (.pack u)) s m e := by
  refine ⟨h, ?_⟩
  rw [← pack_finite h, ← hu]
  rfl

theorem shows_ofBits (h : Normal m e) {bits : UInt64} (hbits : bits.toBitVec = normalBits s m e) :
    Shows (Float.ofBits bits) s m e := by
  refine shows_pack h ?_
  rw [hbits, unpack_normalBits h]

theorem Shows.neg {x : Float} (h : Shows x s m e) : Shows (-x) (-s) m e := by
  refine shows_pack (u := (UnpackedFloat.unpack Format.binary64 x.toBits.toBitVec).neg) h.normal ?_
  rw [h.unpack]
  rfl

theorem Shows.isNaN_eq {x : Float} (h : Shows x s m e) : x.isNaN = false := by
  have hnan : x.isNaN = (UnpackedFloat.unpack Format.binary64 x.toBits.toBitVec).isNaN := rfl
  rw [hnan, h.unpack]
  rfl

theorem Shows.isNegative_eq {x : Float} (h : Shows x s m e) :
    isNegative x = (s == .negative) := by
  rw [isNegative_eq_msb, h.bits, normalBits, msb_packComponents]
  cases s <;> rfl

theorem Shows.toNat_toBits {x : Float} (h : Shows x s m e) : x.toBits.toNat =
    (s.toBitVec.toNat * 2 ^ 11 + (e + 1075).toNat) * 2 ^ 52 + (m - 2 ^ 52) := by
  rw [← toNat_normalBits h.normal, ← h.bits]
  rfl

theorem Shows.exponentField_eq {x : Float} (h : Shows x s m e) :
    exponentField x = (e + 1075).toNat := by
  have hleast := h.normal.least
  have hgreatest := h.normal.greatest
  have hhigh := h.normal.high
  rw [exponentField, h.toNat_toBits]
  have h52 : twoPow 52 = 2 ^ 52 := rfl
  have h11 : twoPow 11 = 2 ^ 11 := rfl
  rw [h52, h11]
  omega

theorem Shows.fractionField_eq {x : Float} (h : Shows x s m e) : fractionField x = m - 2 ^ 52 := by
  have hlow := h.normal.low
  have hhigh := h.normal.high
  rw [fractionField, h.toNat_toBits]
  have h52 : twoPow 52 = 2 ^ 52 := rfl
  rw [h52]
  omega

theorem Shows.compareInt_eq {x : Float} (h : Shows x s m e) (n : Int) :
    compareInt x n = compare (s.apply m * 2 ^ e.toNat) (n * 2 ^ (-e).toNat) := by
  have hleast := h.normal.least
  have hgreatest := h.normal.greatest
  have hlow := h.normal.low
  have hfield : exponentField x ≠ 0 := by
    rw [h.exponentField_eq]
    omega
  have hfinite : isFinite x = true := by
    rw [isFinite, h.exponentField_eq, decide_eq_true_eq]
    omega
  have hsignificand : significand x = m := by
    have h52 : twoPow 52 = 2 ^ 52 := rfl
    rw [significand, if_neg hfield, h.fractionField_eq, h52]
    omega
  have hexponent : exponent x = e := by
    rw [exponent, if_neg hfield, h.exponentField_eq]
    omega
  have hpow (k : Nat) : ((twoPow k : Nat) : Int) = 2 ^ k := Nat.cast_pow 2 k
  rw [compareInt, if_pos hfinite, hsignificand, hexponent, h.isNegative_eq, hpow, hpow]
  cases s <;> rfl

end

end Unravel.Double
