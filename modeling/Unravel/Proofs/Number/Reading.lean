import Mathlib.Algebra.GroupWithZero.Nat
import Mathlib.Data.List.DropRight
import Unravel.Proofs.Exchange.Spelled
import Unravel.Proofs.Number.Literal
import Unravel.Value

/-! Texts as numbers. A text of printable characters is a number exactly when it is blank or,
without the spaces around it, a numeric literal; integers are read exactly, and the text of an
integer is read back. -/

namespace Unravel

/-! Doubles made of bits or decimals are numbers. -/

namespace Double

open Float.Model Float.Model.UnpackedFloat

theorem toNat_unpackExponent (b : BitVec 64) :
    (@unpackExponent Format.binary64 b).toNat = b.toNat / 2 ^ 52 % 2 ^ 11 := by
  delta unpackExponent
  rw [BitVec.toNat_cast, BitVec.extractLsb_toNat, Nat.shiftRight_eq_div_pow]
  rfl

theorem isNaN_ofBits {bits : Nat} (h : bits < 0x7FF0000000000000) :
    (Float.ofBits bits.toUInt64).isNaN = false := by
  refine isNaN_pack (u := UnpackedFloat.unpack Format.binary64 bits.toUInt64.toBitVec) ?_
  rcases unpack_cases bits.toUInt64.toBitVec with ⟨hexponent, -, -⟩ | ⟨hnumber, -⟩
  · have hfield := congrArg BitVec.toNat hexponent
    have hlargest : (-1#11).toNat = 2047 := rfl
    have hbits : bits.toUInt64.toBitVec.toNat = bits % 2 ^ 64 := rfl
    rw [toNat_unpackExponent, hbits, hlargest] at hfield
    omega
  · exact hnumber

theorem isNaN_infinity : infinity.isNaN = false := by decide +kernel

theorem isNaN_ofRatio (num den : Nat) : (ofRatio num den).isNaN = false := by
  have hbounded (bits : Nat) : (if bits < 0x7FF0000000000000 then Float.ofBits bits.toUInt64
      else infinity).isNaN = false := by
    split
    · rename_i hbits
      exact isNaN_ofBits hbits
    · exact isNaN_infinity
  unfold ofRatio
  split
  · decide +kernel
  · exact hbounded _

theorem isNaN_ofDecimal (mantissa : Nat) (scale : Int) :
    (ofDecimal mantissa scale).isNaN = false := by
  unfold ofDecimal
  dsimp only
  split
  · decide +kernel
  · split
    · exact isNaN_infinity
    · exact isNaN_ofRatio _ _

theorem isNaN_signed {x : Float} (hx : x.isNaN = false) (negative : Bool) :
    (signed negative x).isNaN = false := by
  cases negative with
  | false => exact hx
  | true => exact (neg_number hx).1

end Double

/-! Printable characters. -/

namespace Text

def IsPrintable (c : Char) : Prop := ' ' ≤ c ∧ c ≤ '~'

instance : DecidablePred IsPrintable := fun _ => inferInstanceAs (Decidable (_ ∧ _))

def unpadded (cs : List Char) : List Char := (cs.dropWhile (· == ' ')).rdropWhile (· == ' ')

theorem IsPrintable.of_code {P : Char → Prop} {c : Char} (hc : IsPrintable c)
    (h : ∀ m < 127, 32 ≤ m → P (Char.ofNat m)) : P c := by
  have hlow : 32 ≤ c.toNat := UInt32.le_iff_toNat_le.mp hc.1
  have hhigh : c.toNat ≤ 126 := UInt32.le_iff_toNat_le.mp hc.2
  rw [← Char.ofNat_toNat c]
  exact h _ (by omega) hlow

variable {cs : List Char} {c : Char}

theorem isBlank_eq (hc : IsPrintable c) : isBlank c = (c == ' ') :=
  hc.of_code (P := fun c => isBlank c = (c == ' ')) (by decide)

theorem plainDigit_eq (hc : IsPrintable c) : plainDigit c = c :=
  hc.of_code (P := fun c => plainDigit c = c) (by decide)

theorem dropWhile_congr {p q : Char → Bool} (h : ∀ c ∈ cs, p c = q c) :
    cs.dropWhile p = cs.dropWhile q := by
  induction cs with
  | nil => rfl
  | cons c cs ih =>
    rw [List.dropWhile_cons, List.dropWhile_cons, h c (List.mem_cons_self ..),
      ih fun d hd => h d (List.mem_cons_of_mem _ hd)]

theorem mem_of_mem_unpadded (hc : c ∈ unpadded cs) : c ∈ cs := by
  have hmiddle : c ∈ cs.dropWhile (· == ' ') := by
    have hfront := List.rdropWhile_prefix (· == ' ') (cs.dropWhile (· == ' '))
    exact hfront.subset hc
  exact (List.dropWhile_suffix _).subset hmiddle

theorem unpadded_eq_self (hcs : ∀ c ∈ cs, c ≠ ' ') : unpadded cs = cs := by
  have hfront : cs.dropWhile (· == ' ') = cs := by
    refine List.dropWhile_eq_self_iff.mpr fun hpos hspace => ?_
    exact hcs _ (List.getElem_mem hpos) (beq_iff_eq.mp hspace)
  rw [unpadded, hfront]
  refine List.rdropWhile_eq_self_iff.mpr fun hne hspace => ?_
  exact hcs _ (List.getLast_mem hne) (beq_iff_eq.mp hspace)

theorem trim_eq (hcs : ∀ c ∈ cs, IsPrintable c) : trim cs = unpadded cs := by
  have hfront : cs.dropWhile isBlank = cs.dropWhile (· == ' ') :=
    dropWhile_congr fun c hc => isBlank_eq (hcs c hc)
  have hback : (cs.dropWhile (· == ' ')).reverse.dropWhile isBlank =
      (cs.dropWhile (· == ' ')).reverse.dropWhile (· == ' ') := by
    refine dropWhile_congr fun c hc => isBlank_eq (hcs c ?_)
    exact (List.dropWhile_suffix _).subset (List.mem_reverse.mp hc)
  rw [trim, hfront, hback]
  rfl

end Text

namespace NumericLiteral

open Number

variable {base n : Nat} {x c : Char} {s cs ds us es : List Char} {b : Bool}

/-! No letter of a base and no letter of the word for infinity is found in a decimal integer. -/

theorem radix?_eq_some_iff :
    radix? cs = some base ↔ ∃ x ds, (x, base) ∈ radices ∧ cs = '0' :: x :: ds := by
  constructor
  · intro h
    unfold radix? at h
    split at h
    · rename_i x ds
      refine ⟨x, ds, ?_, rfl⟩
      simp only [Bool.or_eq_true, beq_iff_eq] at h
      split_ifs at h with hx hx hx
      all_goals
        obtain rfl := Option.some.inj h
        rcases hx with rfl | rfl <;> decide
    · cases h
  · rintro ⟨x, ds, hx, rfl⟩
    have hall : ∀ e ∈ radices, radix? ['0', e.1] = some e.2 := by decide
    exact hall _ hx

theorem base_le (hx : (x, base) ∈ radices) : base ≤ 16 := by
  have hall : ∀ e ∈ radices, e.2 ≤ 16 := by decide
  exact hall _ hx

theorem sign_or_digit (hs : Sign s b) (hds : Digits 10 ds n) :
    ∀ c ∈ s ++ ds, c = '+' ∨ c = '-' ∨ c.isDigit = true := by
  intro c hc
  rcases List.mem_append.mp hc with hc | hc
  · cases hs with
    | none => cases hc
    | plus => exact .inl (List.mem_singleton.mp hc)
    | minus => exact .inr (.inl (List.mem_singleton.mp hc))
  · exact .inr (.inr (hds.isDigit c hc))

theorem integer?_eq_some_iff {i : Int} : integer? cs = some i ↔ ∃ s b ds n, Sign s b ∧
    Digits 10 ds n ∧ cs = s ++ ds ∧ ds.length ≤ digitLimit ∧ i = if b then -(n : Int) else n := by
  constructor
  · intro h
    obtain ⟨s, hs, hcs⟩ := exists_sign cs
    unfold integer? at h
    dsimp only at h
    split at h
    · cases h
    · rename_i hlength
      cases hn : natural? 10 (sign cs).2 with
      | none =>
        rw [hn] at h
        cases h
      | some n =>
        rw [hn] at h
        exact ⟨s, _, _, n, hs, (natural?_eq_some_iff (by decide)).mp hn, hcs,
          Nat.not_lt.mp hlength, (Option.some.inj h).symm⟩
  · rintro ⟨s, b, ds, n, hs, hds, rfl, hlength, rfl⟩
    have hshort : ¬ digitLimit < ds.length := Nat.not_lt.mpr hlength
    simp only [integer?, sign_append_digits hs hds, if_neg hshort,
      (natural?_eq_some_iff (show 10 ≤ 16 by decide)).mpr hds]
    rfl

def IsInfinity (cs : List Char) : Prop := ∃ s b, Sign s b ∧ cs = s ++ "Infinity".toList

def HasRadix (cs : List Char) : Prop := ∃ x base ds, (x, base) ∈ radices ∧ cs = '0' :: x :: ds

/-- More decimal digits than are read exactly. -/
def Overlong (cs : List Char) : Prop :=
  ∃ s b ds n, Sign s b ∧ Digits 10 ds n ∧ cs = s ++ ds ∧ digitLimit < ds.length

theorem not_hasRadix_of_digits (hs : Sign s b) (hds : Digits 10 ds n) : ¬ HasRadix (s ++ ds) := by
  rintro ⟨x, base, rest, hx, heq⟩
  have hall : ∀ e ∈ radices, ¬ (e.1 = '+' ∨ e.1 = '-' ∨ e.1.isDigit = true) := by decide
  refine hall _ hx (sign_or_digit hs hds x ?_)
  rw [heq]
  exact List.mem_cons_of_mem _ (List.mem_cons_self ..)

theorem not_isInfinity_of_digits (hs : Sign s b) (hds : Digits 10 ds n) :
    ¬ IsInfinity (s ++ ds) := by
  rintro ⟨s', b', -, heq⟩
  have hletter : ¬ ('I' = '+' ∨ 'I' = '-' ∨ 'I'.isDigit = true) := by decide
  refine hletter (sign_or_digit hs hds 'I' ?_)
  rw [heq]
  exact List.mem_append_right _ (by decide)

theorem isNaN_nan : (Number.float Double.nan).isNaN = true := by decide +kernel

theorem fraction?_of_radix (hx : (x, base) ∈ radices) : fraction? ('0' :: x :: ds) = none := by
  have hall : ∀ e ∈ radices, e.1 ≠ 'e' ∧ e.1 ≠ 'E' ∧ e.1 ≠ '.' ∧ e.1.isDigit = false := by decide
  obtain ⟨he, hE, hpoint, hdigit⟩ := hall _ hx
  have hrest : ∀ c ∈ (x :: ds).head?, c.isDigit = false ∧ c ≠ '.' := by
    intro c hc
    obtain rfl := Option.some.inj hc
    exact ⟨hdigit, hpoint⟩
  have hform : '0' :: x :: ds = ['0'] ++ x :: ds := rfl
  have hsign : sign ('0' :: x :: ds) = (false, '0' :: x :: ds) := rfl
  have hzero : ∀ c ∈ ['0'], c.isDigit = true := List.forall_mem_singleton.mpr rfl
  rw [← Option.not_isSome_iff_eq_none, fraction?_whole hsign hform hzero hrest, power?_isSome_iff]
  rintro ⟨-, _ | ⟨rfl | rfl, -, -⟩⟩
  · exact he rfl
  · exact hE rfl

theorem isNaN_of_fraction? {x : Float} (h : fraction? cs = some x) : x.isNaN = false := by
  unfold fraction? at h
  dsimp only at h
  split at h
  · obtain rfl := Option.some.inj h
    exact Double.isNaN_signed (Double.isNaN_ofDecimal _ _) _
  · cases h

theorem numericLiteral_iff (hradix : ¬ HasRadix cs) (hinfinity : ¬ IsInfinity cs) :
    NumericLiteral cs ↔ (fraction? cs).isSome := by
  rw [fraction?_isSome_iff]
  constructor
  · intro h
    cases h with
    | decimal hs hcs => exact ⟨_, _, _, hs, hcs, rfl⟩
    | infinity hs => exact absurd ⟨_, _, hs, rfl⟩ hinfinity
    | radix hx => exact absurd ⟨_, _, _, hx, rfl⟩ hradix
  · rintro ⟨s, b, us, hs, hus, rfl⟩
    exact .decimal hs hus

theorem numericLiteral_radix_iff (hx : (x, base) ∈ radices) :
    NumericLiteral ('0' :: x :: ds) ↔ (natural? base ds).isSome := by
  have hread (n : Nat) : natural? base ds = some n ↔ Digits base ds n :=
    natural?_eq_some_iff (base_le hx)
  constructor
  · intro h
    generalize hform : '0' :: x :: ds = cs at h
    cases h with
    | @decimal s us b hs hus =>
      have hsome := fraction?_isSome_iff.mpr ⟨s, b, us, hs, hus, rfl⟩
      rw [← hform, fraction?_of_radix hx] at hsome
      cases hsome
    | infinity hs => cases hs <;> cases hform
    | @radix x' base' n ds' hx' hds =>
      obtain ⟨rfl, rfl⟩ : x = x' ∧ ds = ds' := by simpa using hform
      have hfunction : ∀ e ∈ radices, ∀ e' ∈ radices, e.1 = e'.1 → e.2 = e'.2 := by decide
      obtain rfl : base = base' := hfunction _ hx _ hx' rfl
      rw [(hread n).mpr hds]
      rfl
  · intro h
    obtain ⟨n, hn⟩ := Option.isSome_iff_exists.mp h
    exact .radix hx ((hread n).mp hn)

/-! The reader, by the form of the text without its padding. -/

section
variable {text : String} (hprintable : ∀ c ∈ text.toList, Text.IsPrintable c)
  (hcs : Text.unpadded text.toList = cs)
include hprintable hcs

theorem trim_text : Text.trim text.toList = cs := by rw [Text.trim_eq hprintable, hcs]

theorem plain_text : cs.map Text.plainDigit = cs := by
  refine (List.map_congr_left fun c hc => ?_).trans (List.map_id cs)
  exact Text.plainDigit_eq (hprintable c (Text.mem_of_mem_unpadded (hcs ▸ hc)))

theorem ofText_nil (hnil : cs = []) : ofText text = .int 0 := by
  simp [ofText, trim_text hprintable hcs, hnil]

theorem ofText_radix (hx : (x, base) ∈ radices) (hform : cs = '0' :: x :: ds) :
    ofText text = ((natural? base ds).map fun n : Nat => .int n).getD (.float Double.nan) := by
  have hradix : radix? cs = some base := radix?_eq_some_iff.mpr ⟨x, ds, hx, hform⟩
  have hne : cs.isEmpty = false := by rw [hform]; rfl
  have hrest : cs.drop 2 = ds := by rw [hform]; rfl
  simp only [ofText, trim_text hprintable hcs, plain_text hprintable hcs, hradix, hne, hrest]
  rfl

theorem ofText_infinity (hs : Sign s b) (hform : cs = s ++ "Infinity".toList) :
    ofText text = .float (Double.signed b Double.infinity) := by
  have htrim := trim_text hprintable hcs
  subst hform
  cases hs <;> simp [ofText, htrim] <;> rfl

theorem ofText_decimal (hne : cs ≠ []) (hradix : ¬ HasRadix cs) (hinfinity : ¬ IsInfinity cs) :
    ofText text = (integer? cs).elim (.float ((fraction? cs).getD Double.nan)) .int := by
  have hnone : radix? cs = none := by
    refine Option.eq_none_iff_forall_not_mem.mpr fun base hbase => hradix ?_
    obtain ⟨x, ds, hx, hform⟩ := radix?_eq_some_iff.mp hbase
    exact ⟨x, base, ds, hx, hform⟩
  have hword {s : List Char} {b : Bool} (hs : Sign s b) : cs ≠ s ++ "Infinity".toList :=
    fun hform => hinfinity ⟨s, b, hs, hform⟩
  have hplain : cs ≠ "Infinity".toList := hword .none
  have hplus : cs ≠ "+Infinity".toList := hword .plus
  have hminus : cs ≠ "-Infinity".toList := hword .minus
  have hfull : cs.isEmpty = false := by simpa using hne
  simp only [ofText, trim_text hprintable hcs, plain_text hprintable hcs, hnone, hfull, hplain,
    hplus, hminus]
  cases integer? cs <;> rfl

theorem isNaN_ofText :
    (ofText text).isNaN = true ↔ cs ≠ [] ∧ ¬ NumericLiteral cs := by
  -- the forms in the order in which the reader tries them
  by_cases hne : cs = []
  · rw [ofText_nil hprintable hcs hne]
    simp [hne, isNaN]
  by_cases hradix : HasRadix cs
  · obtain ⟨x, base, ds, hx, hform⟩ := hradix
    rw [ofText_radix hprintable hcs hx hform, and_iff_right hne, hform, numericLiteral_radix_iff hx]
    cases natural? base ds with
    | none => exact iff_of_true isNaN_nan Bool.false_ne_true
    | some n => exact iff_of_false Bool.false_ne_true fun h => h rfl
  by_cases hinfinity : IsInfinity cs
  · obtain ⟨s, b, hs, hform⟩ := hinfinity
    have hnumber := Double.isNaN_signed Double.isNaN_infinity b
    rw [ofText_infinity hprintable hcs hs hform]
    refine iff_of_false ?_ fun h => h.2 (hform ▸ .infinity hs)
    rw [isNaN, hnumber]
    exact Bool.false_ne_true
  rw [ofText_decimal hprintable hcs hne hradix hinfinity, and_iff_right hne,
    numericLiteral_iff hradix hinfinity]
  cases hinteger : integer? cs with
  | some i =>
    obtain ⟨s, b, ds, n, hs, hds, rfl, -⟩ := integer?_eq_some_iff.mp hinteger
    have hread : (fraction? (s ++ ds)).isSome :=
      fraction?_isSome_iff.mpr ⟨s, b, ds, hs, List.append_nil ds ▸ .whole hds .none, rfl⟩
    exact iff_of_false Bool.false_ne_true fun h => h hread
  | none =>
    cases hfraction : fraction? cs with
    | none => exact iff_of_true isNaN_nan Bool.false_ne_true
    | some x =>
      refine iff_of_false ?_ fun h => h rfl
      rw [Option.elim_none, Option.getD_some, isNaN, isNaN_of_fraction? hfraction]
      exact Bool.false_ne_true

theorem ofText_integer {i : Int} (h : IntegerLiteral cs i) (hshort : ¬ Overlong cs) :
    ofText text = .int i := by
  cases h with
  | @decimal s ds b n hs hds =>
    have hlength : ds.length ≤ digitLimit :=
      Nat.not_lt.mp fun hlong => hshort ⟨s, b, ds, n, hs, hds, rfl, hlong⟩
    have hne : s ++ ds ≠ [] := List.append_ne_nil_of_right_ne_nil s hds.ne_nil
    rw [ofText_decimal hprintable hcs hne (not_hasRadix_of_digits hs hds)
      (not_isInfinity_of_digits hs hds),
      integer?_eq_some_iff.mpr ⟨s, b, ds, n, hs, hds, rfl, hlength, rfl⟩]
    rfl
  | @radix x base n ds hx hds =>
    rw [ofText_radix hprintable hcs hx rfl, (natural?_eq_some_iff (base_le hx)).mpr hds]
    rfl

end

/-! The text of an integer. -/

theorem exists_intText (i : Int) : ∃ s b, Sign s b ∧
    (intText i).toList = s ++ Nat.toDigits 10 i.natAbs ∧
    i = if b then -(i.natAbs : Int) else i.natAbs := by
  unfold intText
  split
  · have hvalue : i = -(i.natAbs : Int) := by omega
    exact ⟨['-'], true, .minus, by simp, hvalue⟩
  · have hvalue : i = (i.natAbs : Int) := by omega
    exact ⟨[], false, .none, by simp, hvalue⟩

theorem printable_of_digits (hs : Sign s b) (hds : Digits 10 ds n) :
    ∀ c ∈ s ++ ds, Text.IsPrintable c ∧ c ≠ ' ' := by
  intro c hc
  rcases sign_or_digit hs hds c hc with rfl | rfl | hdigit
  · decide
  · decide
  · simp only [Char.isDigit, Bool.and_eq_true, decide_eq_true_eq] at hdigit
    have hlow : ' ' ≤ '0' := by decide
    have hhigh : '9' ≤ '~' := by decide
    refine ⟨⟨Char.le_trans hlow hdigit.1, Char.le_trans hdigit.2 hhigh⟩, ?_⟩
    rintro rfl
    exact absurd hdigit.1 (by decide)

theorem ofText_intText {i : Int} (hi : i.natAbs ≤ integerLimit) : ofText (intText i) = .int i := by
  obtain ⟨s, b, hs, htext, hvalue⟩ := exists_intText i
  have hds := digits_toDigits i.natAbs
  have hprintable := printable_of_digits hs hds
  have hplain : ∀ c ∈ (intText i).toList, Text.IsPrintable c := by
    rw [htext]
    exact fun c hc => (hprintable c hc).1
  have hcs : Text.unpadded (intText i).toList = s ++ Nat.toDigits 10 i.natAbs := by
    rw [htext]
    exact Text.unpadded_eq_self fun c hc => (hprintable c hc).2
  have hliteral : IntegerLiteral (s ++ Nat.toDigits 10 i.natAbs) i := by
    have hdecimal := IntegerLiteral.decimal hs hds
    rwa [← hvalue] at hdecimal
  refine ofText_integer hplain hcs hliteral ?_
  -- an integer within the limit has no more than sixteen digits
  rintro ⟨s', b', ds', n', -, -, heq, hlong⟩
  have hdigits : (Nat.toDigits 10 i.natAbs).length ≤ 16 :=
    (Nat.length_toDigits_le_iff (by decide) (by decide)).mpr
      (Nat.lt_of_le_of_lt hi (by decide +kernel))
  have hsign : s.length ≤ 1 := by cases hs <;> decide
  have hlength := congrArg List.length heq
  rw [List.length_append, List.length_append] at hlength
  unfold digitLimit at hlong
  omega

end NumericLiteral

open NumericLiteral

/-- A text of printable characters is no number exactly when it is neither blank nor, without the
spaces around it, a numeric literal. Integers are read exactly unless they have too many decimal
digits, and an integer within the limit is read back from its text. -/
theorem Value.toNumber_reads_literals (text : String)
    (hprintable : ∀ c ∈ text.toList, Text.IsPrintable c) :
    ((Value.str text).toNumber.isNaN = true ↔
      Text.unpadded text.toList ≠ [] ∧ ¬ NumericLiteral (Text.unpadded text.toList)) ∧
    (∀ i, IntegerLiteral (Text.unpadded text.toList) i →
      ¬ Overlong (Text.unpadded text.toList) → (Value.str text).toNumber = .int i) ∧
    ∀ i : Int, i.natAbs ≤ Number.integerLimit →
      ∃ s, (Value.int i).toText = .ok s ∧ (Value.str s).toNumber = .int i := by
  refine ⟨isNaN_ofText hprintable rfl, fun i => ofText_integer hprintable rfl, fun i hi => ?_⟩
  exact ⟨intText i, by rw [toText, Number.text, if_pos hi], ofText_intText hi⟩

theorem Value.toNumber_paddedHex :
    (∀ c ∈ " 0x1F ".toList, Text.IsPrintable c) ∧
      (Value.str " 0x1F ").toNumber = .int 31 := by
  have hall : " 0x1F ".toList.all (Text.IsPrintable ·) = true := by decide
  have hprintable : ∀ c ∈ " 0x1F ".toList, Text.IsPrintable c := by simpa using hall
  have hdigits : Digits 16 ['1', 'F'] 31 :=
    .snoc (.single (show ('1', 1) ∈ digits by decide) (by decide))
      (show ('F', 15) ∈ digits by decide) (by decide)
  have hliteral : IntegerLiteral (Text.unpadded " 0x1F ".toList) 31 :=
    .radix (show ('x', 16) ∈ radices by decide) hdigits
  refine ⟨hprintable, (toNumber_reads_literals _ hprintable).2.1 31 hliteral ?_⟩
  rintro ⟨s, b, ds, n, -, -, heq, hlong⟩
  have hlength : 4 = s.length + ds.length := by
    rw [← List.length_append, ← heq]
    decide
  unfold Number.digitLimit at hlong
  omega

end Unravel
