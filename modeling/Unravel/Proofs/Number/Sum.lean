import Unravel.Value
import Unravel.Proofs.Number.Normal
import Mathlib.Tactic.Ring

/-! The sum of two integers, each within the limit up to which all integers are doubles. Beyond the
limit it is the even integer nearest to the exact sum, and in a tie the multiple of four. -/

namespace Unravel.Double

open Float.Model Float.Model.UnpackedFloat

def Worth (m : Nat) (e : Int) (n : Nat) : Prop := m * 2 ^ e.toNat = n * 2 ^ (-e).toNat

theorem twoPow_eq (k : Nat) : twoPow k = 2 ^ k := rfl

theorem toNat_toUInt64 (n : Nat) : n.toUInt64.toBitVec.toNat = n % 2 ^ 64 := rfl

/-! Integers as doubles. -/

theorem normal_scaled {n L : Nat} (hlog : n.log2 = L) (hn : n ≠ 0) (hL : L ≤ 52) :
    Normal (n * 2 ^ (52 - L)) (-(52 - L : Nat)) := by
  obtain ⟨hlow, hhigh⟩ := (Nat.log2_eq_iff hn).mp hlog
  have h52 : 2 ^ L * 2 ^ (52 - L) = 2 ^ 52 := by rw [← Nat.pow_add]; congr 1; omega
  have h53 : 2 ^ (L + 1) * 2 ^ (52 - L) = 2 ^ 53 := by rw [← Nat.pow_add]; congr 1; omega
  refine ⟨?_, ?_, by omega, by omega⟩
  · rw [← h52]
    exact Nat.mul_le_mul_right _ hlow
  · rw [← h53]
    exact Nat.mul_lt_mul_of_pos_right hhigh (Nat.two_pow_pos _)

theorem shows_ofRatio {n : Nat} (hn : n ≠ 0) (hlt : n < 2 ^ 53) :
    Shows (ofRatio n 1) .positive (n * 2 ^ (52 - n.log2)) (-(52 - n.log2 : Nat)) := by
  have hL : n.log2 ≤ 52 := Nat.lt_succ_iff.mp ((Nat.log2_lt hn).mpr hlt)
  have hnormal := normal_scaled rfl hn hL
  obtain ⟨hlow, -⟩ := (Nat.log2_eq_iff hn).mp (rfl : n.log2 = n.log2)
  have hbits : ofRatio n 1 = Float.ofBits
      ((n.log2 + 1022) * 2 ^ 52 + n * 2 ^ (52 - n.log2)).toUInt64 := by
    have hguess : (n.log2 : Int) - (Nat.log2 1 : Nat) = n.log2 := by
      rw [show Nat.log2 1 = 0 from rfl]
      exact Int.sub_zero _
    have hreaches : 1 * twoPow (n.log2 : Int).toNat ≤ n * twoPow (-(n.log2 : Int)).toNat := by
      rw [twoPow_eq, twoPow_eq, Int.toNat_natCast, Int.toNat_neg_natCast, Nat.one_mul, Nat.pow_zero,
        Nat.mul_one]
      exact hlow
    have hscale : max ((n.log2 : Int) - 52) (-1074) = -((52 - n.log2 : Nat) : Int) := by omega
    have hround : roundDiv (n * twoPow (52 - n.log2)) 1 = n * 2 ^ (52 - n.log2) := by
      rw [roundDiv, Nat.mod_one, Nat.div_one, if_pos (by decide), twoPow_eq]
    have hfield : (-((52 - n.log2 : Nat) : Int) + 1074).toNat = n.log2 + 1022 := by omega
    have hsmall : (n.log2 + 1022) * 2 ^ 52 + n * 2 ^ (52 - n.log2) < 0x7FF0000000000000 := by
      have hhigh := hnormal.high
      omega
    unfold ofRatio
    rw [if_neg hn]
    dsimp only
    rw [hguess, if_pos hreaches, hscale, Int.neg_neg, Int.toNat_natCast,
      Int.toNat_neg_natCast, twoPow_eq 0, Nat.pow_zero, Nat.mul_one, hround, hfield, twoPow_eq,
      if_pos hsmall]
  rw [hbits]
  refine shows_ofBits hnormal (BitVec.eq_of_toNat_eq ?_)
  have hlow := hnormal.low
  have hhigh := hnormal.high
  have hsign : (Sign.toBitVec .positive).toNat = 0 := rfl
  rw [toNat_normalBits hnormal, hsign, toNat_toUInt64]
  omega

theorem shows_ofRatio_limit : Shows (ofRatio (2 ^ 53) 1) .positive (2 ^ 52) 1 :=
  ⟨⟨by decide, by decide, by decide, by decide⟩, by decide +kernel⟩

theorem exists_shows_ofRatio {n : Nat} (hn : n ≠ 0) (hle : n ≤ 2 ^ 53) : ∃ m e,
    Shows (ofRatio n 1) .positive m e ∧ Worth m e n ∧ (e ≤ 0 ∨ n = 2 ^ 53 ∧ m = 2 ^ 52 ∧ e = 1) := by
  rcases Nat.lt_or_eq_of_le hle with hlt | rfl
  · refine ⟨_, _, shows_ofRatio hn hlt, ?_, .inl (by omega)⟩
    rw [Worth, Int.toNat_neg_natCast, Int.neg_neg, Int.toNat_natCast, Nat.pow_zero, Nat.mul_one]
  · exact ⟨_, _, shows_ofRatio_limit, rfl, .inr ⟨rfl, rfl, rfl⟩⟩

def signOfInt (a : Int) : Sign := if a < 0 then .negative else .positive

theorem exists_shows_int {a : Int} (ha : a ≠ 0) (hle : a.natAbs ≤ 2 ^ 53) : ∃ x m e,
    (Number.int a).toFloat = .ok x ∧ Shows x (signOfInt a) m e ∧ Worth m e a.natAbs ∧
      (e ≤ 0 ∨ a.natAbs = 2 ^ 53 ∧ m = 2 ^ 52 ∧ e = 1) := by
  obtain ⟨m, e, hshows, hworth, he⟩ := exists_shows_ofRatio (Int.natAbs_ne_zero.mpr ha) hle
  have hlimit : 2 ^ 53 < twoPow 1024 - twoPow 970 := by decide +kernel
  have hdouble : ofInt? a = some (signed (a < 0) (ofRatio a.natAbs 1)) := by
    unfold ofInt?
    exact if_pos (Nat.lt_of_le_of_lt hle hlimit)
  refine ⟨signed (a < 0) (ofRatio a.natAbs 1), m, e, ?_, ?_, hworth, he⟩
  · unfold Number.toFloat
    dsimp only
    rw [hdouble]
  · rw [signed, signOfInt]
    by_cases hneg : a < 0
    · rw [if_pos (decide_eq_true hneg), if_pos hneg]
      exact hshows.neg
    · rw [if_neg (by simpa using hneg), if_neg hneg]
      exact hshows

/-! Rounding. -/

theorem shiftRight_exact (n k : Nat) :
    (⟨n * 2 ^ k, false, false⟩ : ExtendedMantissa) >>> k = ⟨n, false, false⟩ := by
  induction k generalizing n with
  | zero => exact congrArg (ExtendedMantissa.mk · false false) (Nat.mul_one n)
  | succ k ih =>
    have hlast : (⟨n * 2 ^ (k + 1), false, false⟩ : ExtendedMantissa) >>> (k + 1) =
        ((⟨n * 2 * 2 ^ k, false, false⟩ : ExtendedMantissa) >>> k).shiftRightOne := by
      rw [Nat.mul_assoc, ← Nat.pow_succ']
      rfl
    rw [hlast, ih]
    simp [ExtendedMantissa.shiftRightOne]

theorem roundedMantissa_shiftRight (n k : Nat) :
    ((⟨n * 2 ^ k, false, false⟩ : ExtendedMantissa) >>> (k + 1)).roundedMantissa = roundDiv n 2 := by
  have hlast : (⟨n * 2 ^ k, false, false⟩ : ExtendedMantissa) >>> (k + 1) =
      ((⟨n * 2 ^ k, false, false⟩ : ExtendedMantissa) >>> k).shiftRightOne := rfl
  rw [hlast, shiftRight_exact, ExtendedMantissa.shiftRightOne, roundDiv]
  rcases Nat.mod_two_eq_zero_or_one n with heven | hodd
  · rw [heven]
    rfl
  · rw [hodd]
    rfl

theorem targetExponent_scaled {n L : Nat} (hn : n ≠ 0) (hlog : n.log2 = L) (hL : 52 ≤ L) (k : Nat) :
    Format.binary64.targetExponent (totalExponent (n * 2 ^ k) (-k)) = L - 52 := by
  have hscaled : (n * 2 ^ k).log2 = L + k := by
    obtain ⟨hlow, hhigh⟩ := (Nat.log2_eq_iff hn).mp hlog
    refine (Nat.log2_eq_iff (Nat.mul_ne_zero hn (Nat.pos_iff_ne_zero.mp (Nat.two_pow_pos k)))).mpr ⟨?_, ?_⟩
    · rw [Nat.pow_add]
      exact Nat.mul_le_mul_right _ hlow
    · rw [show L + k + 1 = L + 1 + k by omega, Nat.pow_add]
      exact Nat.mul_lt_mul_of_pos_right hhigh (Nat.two_pow_pos k)
  rw [totalExponent, hscaled]
  change max (((L + k : Nat) : Int) + 1 + -k - 53) (-1074) = L - 52
  omega

/-- A scaled integer of 54 bits is rounded to 53. -/
theorem exists_round {n : Nat} (hlow : 2 ^ 53 ≤ n) (hhigh : n < 2 ^ 54) (s : Sign) (k : Nat) :
    ∃ m e, ∃ h : Normal m e, round Format.binary64 s (n * 2 ^ k) (-k) = .finite s m e h.pos ∧
      0 ≤ e ∧ m * 2 ^ e.toNat = 2 * roundDiv n 2 := by
  have hn : n ≠ 0 := by omega
  have hlog : n.log2 = 53 := (Nat.log2_eq_iff hn).mpr ⟨hlow, hhigh⟩
  have htarget := targetExponent_scaled hn hlog (by decide) k
  have hone : ((53 : Nat) : Int) - 52 = 1 := rfl
  rw [hone] at htarget
  have hfirst : shiftToTargetExponent Format.binary64 (n * 2 ^ k) (-k) .exact =
      ((⟨n * 2 ^ k, false, false⟩ : ExtendedMantissa) >>> (k + 1), 1) := by
    have hshift : ((1 : Int) - -(k : Int)).toNat = k + 1 := by omega
    rw [shiftToTargetExponent, htarget]
    simp only [shiftToExponent, hshift, ExtendedMantissa.ofMantissaAndAccuracy]
    congr 1
    push_cast
    omega
  have hround : round Format.binary64 s (n * 2 ^ k) (-k) =
      roundWithAccuracy Format.binary64 s (n * 2 ^ k) (-k) .exact := by
    have hshift : (-(k : Int) - 1).toNat = 0 := by omega
    rw [UnpackedFloat.round, htarget]
    simp only [decreaseExponent, hshift, Nat.shiftLeft_zero, Int.natCast_zero, Int.sub_zero]
  have hr : 2 ^ 52 ≤ roundDiv n 2 ∧ roundDiv n 2 ≤ 2 ^ 53 := by
    unfold roundDiv
    dsimp only
    split
    · omega
    · split <;> omega
  rcases Nat.lt_or_eq_of_le hr.2 with hlt | heq
  · have hnormal : Normal (roundDiv n 2) 1 := ⟨hr.1, hlt, by decide, by decide⟩
    have hsecond : shiftToTargetExponent Format.binary64 (roundDiv n 2) 1 .exact =
        (⟨roundDiv n 2, false, false⟩, 1) := by
      have hlog : (roundDiv n 2).log2 = 52 :=
        (Nat.log2_eq_iff (Nat.ne_of_gt hnormal.pos)).mpr ⟨hr.1, hlt⟩
      have htarget : Format.binary64.targetExponent (totalExponent (roundDiv n 2) 1) = 1 := by
        rw [totalExponent, hlog]
        rfl
      rw [shiftToTargetExponent, htarget]
      rfl
    refine ⟨_, _, hnormal, ?_, by decide, ?_⟩
    · rw [hround, roundWithAccuracy, hfirst]
      dsimp only
      simp only [roundedMantissa_shiftRight, hsecond, Nat.ne_of_gt hnormal.pos, dif_neg, not_false_eq_true]
    · exact Nat.mul_comm _ _
  · have hnormal : Normal (2 ^ 52) 2 := ⟨by decide, by decide, by decide, by decide⟩
    have hsecond : shiftToTargetExponent Format.binary64 (2 ^ 53) 1 .exact =
        (⟨2 ^ 52, false, false⟩, 2) := by
      have hlog : (2 ^ 53).log2 = 53 := Nat.log2_two_pow
      have htarget : Format.binary64.targetExponent (totalExponent (2 ^ 53) 1) = 2 := by
        rw [totalExponent, hlog]
        rfl
      rw [shiftToTargetExponent, htarget]
      rfl
    refine ⟨_, _, hnormal, ?_, by decide, ?_⟩
    · rw [hround, roundWithAccuracy, hfirst]
      dsimp only
      simp only [roundedMantissa_shiftRight, heq, hsecond]
      rfl
    · rw [heq]
      rfl

/-! Addition. -/

theorem shiftLeft_of_worth {m n k : Nat} {e : Int} (h : Worth m e n) (hk : -(k : Int) ≤ e) :
    m <<< (e - -(k : Int)).toNat = n * 2 ^ k := by
  rw [Nat.shiftLeft_eq]
  rcases Int.le_total 0 e with he | he
  · have hsum : (e - -(k : Int)).toNat = e.toNat + k := by omega
    have hzero : (-e).toNat = 0 := by omega
    rw [Worth, hzero, Nat.pow_zero, Nat.mul_one] at h
    rw [hsum, Nat.pow_add, ← Nat.mul_assoc, h]
  · have hsum : k = (-e).toNat + (e - -(k : Int)).toNat := by omega
    have hzero : e.toNat = 0 := by omega
    rw [Worth, hzero, Nat.pow_zero, Nat.mul_one] at h
    conv_rhs => rw [hsum]
    rw [h, Nat.pow_add, Nat.mul_assoc]

theorem add_finite {m₁ m₂ p q k : Nat} {e₁ e₂ : Int} (s : Sign) (h₁ : 0 < m₁) (h₂ : 0 < m₂)
    (hp : Worth m₁ e₁ p) (hq : Worth m₂ e₂ q) (hpq : 0 < p + q) (hmin : min e₁ e₂ = -k) :
    UnpackedFloat.add Format.binary64 (.finite s m₁ e₁ h₁) (.finite s m₂ e₂ h₂) =
      round Format.binary64 s ((p + q) * 2 ^ k) (-k) := by
  have hpos : 0 < (p + q) * 2 ^ k := Nat.mul_pos hpq (Nat.two_pow_pos k)
  have hfirst := shiftLeft_of_worth (k := k) hp (by omega)
  have hsecond := shiftLeft_of_worth (k := k) hq (by omega)
  rw [UnpackedFloat.add]
  simp only [decreaseExponent, hmin, hfirst, hsecond]
  rw [Nat.add_mul] at hpos ⊢
  cases s with
  | positive =>
    have hsum : (Sign.positive.apply (p * 2 ^ k : Nat) + Sign.positive.apply (q * 2 ^ k : Nat)) =
        ((p * 2 ^ k + q * 2 ^ k : Nat) : Int) := rfl
    have hcompare : compare ((p * 2 ^ k + q * 2 ^ k : Nat) : Int) 0 = .gt :=
      Int.compare_eq_gt.mpr (by omega)
    rw [hsum, UnpackedFloat.normalize, hcompare]
    rfl
  | negative =>
    have hsum : (Sign.negative.apply (p * 2 ^ k : Nat) + Sign.negative.apply (q * 2 ^ k : Nat)) =
        -((p * 2 ^ k + q * 2 ^ k : Nat) : Int) := by
      simp only [Sign.apply]
      omega
    have hcompare : compare (-((p * 2 ^ k + q * 2 ^ k : Nat) : Int)) 0 = .lt :=
      Int.compare_eq_lt.mpr (by omega)
    rw [hsum, UnpackedFloat.normalize, hcompare]
    simp only [Int.neg_neg, Int.toNat_natCast]

theorem exists_shows_add {x y : Float} {s : Sign} {m₁ m₂ p q : Nat} {e₁ e₂ : Int}
    (hx : Shows x s m₁ e₁) (hy : Shows y s m₂ e₂) (hp : Worth m₁ e₁ p) (hq : Worth m₂ e₂ q)
    (hmin : min e₁ e₂ ≤ 0) (hlow : 2 ^ 53 ≤ p + q) (hhigh : p + q < 2 ^ 54) :
    ∃ m e, Shows (x + y) s m e ∧ 0 ≤ e ∧ m * 2 ^ e.toNat = 2 * roundDiv (p + q) 2 := by
  obtain ⟨k, hk⟩ : ∃ k : Nat, min e₁ e₂ = -(k : Int) := ⟨(-min e₁ e₂).toNat, by omega⟩
  obtain ⟨m, e, hnormal, hround, he, hvalue⟩ := exists_round hlow hhigh s k
  refine ⟨m, e, shows_pack (u := UnpackedFloat.add Format.binary64
    (UnpackedFloat.unpack Format.binary64 x.toBits.toBitVec)
    (UnpackedFloat.unpack Format.binary64 y.toBits.toBitVec)) hnormal ?_, he, hvalue⟩
  rw [hx.unpack, hy.unpack, add_finite s _ _ hp hq (by omega) hk, hround]

theorem lt_of_worth {m n : Nat} {e : Int} (hm : Normal m e) (h : Worth m e n) (he : e ≤ 0) :
    n < 2 ^ 53 := by
  have hzero : e.toNat = 0 := by omega
  rw [Worth, hzero, Nat.pow_zero, Nat.mul_one] at h
  exact Nat.lt_of_le_of_lt (Nat.le_mul_of_pos_right n (Nat.two_pow_pos _)) (h ▸ hm.high)

theorem add_limit (s : Sign) (h : 0 < 2 ^ 52) (h' : 0 < 2 ^ 52) :
    UnpackedFloat.add Format.binary64 (.finite s (2 ^ 52) 1 h) (.finite s (2 ^ 52) 1 h') =
      .finite s (2 ^ 52) 2 h := by
  cases s <;> rfl

/-- An integer between `2 ^ 53` and `2 ^ 54` in magnitude, rounded to 53 bits. -/
def nearest (c : Int) : Int := (signOfInt c).apply (2 * roundDiv c.natAbs 2 : Nat)

theorem nearest_cases {c : Int} (h : 2 ^ 53 < c.natAbs) :
    (2 ^ 53 < c ∧ 2 ^ 53 ≤ nearest c ∧ (nearest c = 2 ^ 53 ↔ c = 2 ^ 53 + 1)) ∨
    (c < -2 ^ 53 ∧ nearest c ≤ -2 ^ 53 ∧ (nearest c = -2 ^ 53 ↔ c = -(2 ^ 53 + 1))) := by
  have hround : 2 ^ 53 ≤ 2 * roundDiv c.natAbs 2 ∧
      (2 * roundDiv c.natAbs 2 = 2 ^ 53 ↔ c.natAbs = 2 ^ 53 + 1) := by
    unfold roundDiv
    dsimp only
    split
    · omega
    · split <;> omega
  unfold nearest signOfInt
  split
  · refine .inr ⟨by omega, ?_, ?_⟩ <;> simp only [Sign.apply] <;> omega
  · refine .inl ⟨by omega, ?_, ?_⟩ <;> simp only [Sign.apply] <;> omega

theorem exists_add_beyond {a b : Int} (ha : a.natAbs ≤ 2 ^ 53) (hb : b.natAbs ≤ 2 ^ 53)
    (hbeyond : 2 ^ 53 < (a + b).natAbs) : ∃ x y, (Number.int a).toFloat = .ok x ∧
      (Number.int b).toFloat = .ok y ∧ (x + y).isNaN = false ∧
      ∀ n, compareInt (x + y) n = compare (nearest (a + b)) n := by
  obtain ⟨x, m₁, e₁, hx, hshows₁, hworth₁, he₁⟩ := exists_shows_int (a := a) (by omega) ha
  obtain ⟨y, m₂, e₂, hy, hshows₂, hworth₂, he₂⟩ := exists_shows_int (a := b) (by omega) hb
  have hsign₁ : signOfInt a = signOfInt (a + b) := by
    unfold signOfInt
    split <;> split <;> first | rfl | omega
  have hsign₂ : signOfInt b = signOfInt (a + b) := by
    unfold signOfInt
    split <;> split <;> first | rfl | omega
  have habs : (a + b).natAbs = a.natAbs + b.natAbs := by
    unfold signOfInt at hsign₁ hsign₂
    split at hsign₁ <;> split at hsign₁ <;> omega
  rw [hsign₁] at hshows₁
  rw [hsign₂] at hshows₂
  obtain ⟨m, e, hshows, he, hvalue⟩ : ∃ m e, Shows (x + y) (signOfInt (a + b)) m e ∧ 0 ≤ e ∧
      m * 2 ^ e.toNat = 2 * roundDiv (a + b).natAbs 2 := by
    by_cases hboth : min e₁ e₂ ≤ 0
    · rw [habs]
      have hsmall : a.natAbs < 2 ^ 53 ∨ b.natAbs < 2 ^ 53 := by
        rcases min_le_iff.mp hboth with he | he
        · exact .inl (lt_of_worth hshows₁.normal hworth₁ he)
        · exact .inr (lt_of_worth hshows₂.normal hworth₂ he)
      exact exists_shows_add hshows₁ hshows₂ hworth₁ hworth₂ hboth (by omega) (by omega)
    · obtain ⟨hp, rfl, rfl⟩ := he₁.resolve_left (by omega)
      obtain ⟨hq, rfl, rfl⟩ := he₂.resolve_left (by omega)
      have hnormal : Normal (2 ^ 52) 2 := ⟨by decide, by decide, by decide, by decide⟩
      refine ⟨2 ^ 52, 2, shows_pack (u := UnpackedFloat.add Format.binary64
        (UnpackedFloat.unpack Format.binary64 x.toBits.toBitVec)
        (UnpackedFloat.unpack Format.binary64 y.toBits.toBitVec)) hnormal ?_, by decide, ?_⟩
      · rw [hshows₁.unpack, hshows₂.unpack, add_limit]
      · rw [habs, hp, hq]
        decide
  refine ⟨x, y, hx, hy, hshows.isNaN_eq, fun n => ?_⟩
  have hzero : (-e).toNat = 0 := by omega
  have happly (s : Sign) : s.apply m * 2 ^ e.toNat = s.apply (m * 2 ^ e.toNat : Nat) := by
    cases s <;> simp [Sign.apply]
  rw [hshows.compareInt_eq, hzero, pow_zero, mul_one, nearest, ← hvalue, happly]

/-- The sum of two integers within the limit: exact up to the limit, and else the nearest double. -/
theorem add_ints {a b : Int} (ha : a.natAbs ≤ Number.integerLimit)
    (hb : b.natAbs ≤ Number.integerLimit) :
    ((a + b).natAbs ≤ Number.integerLimit ∧ (Value.int a).add (.int b) = .ok (.int (a + b))) ∨
    (Number.integerLimit < (a + b).natAbs ∧ ∃ x, (Value.int a).add (.int b) = .ok (.float x) ∧
      x.isNaN = false ∧ ∀ n, compareInt x n = compare (nearest (a + b)) n) := by
  have hadd : (Value.int a).add (.int b) =
      if (a + b).natAbs ≤ Number.integerLimit then .ok (.int (a + b))
      else do return .float ((← (Number.int a).toFloat) + (← (Number.int b).toFloat)) := rfl
  rcases Nat.lt_or_ge Number.integerLimit (a + b).natAbs with hbeyond | hle
  · obtain ⟨x, y, hx, hy, hnumber, hcompare⟩ := exists_add_beyond ha hb hbeyond
    refine .inr ⟨hbeyond, x + y, ?_, hnumber, hcompare⟩
    rw [hadd, if_neg (Nat.not_le.mpr hbeyond), hx, hy]
    rfl
  · exact .inl ⟨hle, hadd.trans (if_pos hle)⟩

end Unravel.Double
