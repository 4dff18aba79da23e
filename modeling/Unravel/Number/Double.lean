/-! Doubles as exact binary fractions. A finite double is `± significand · 2 ^ exponent`; rounding
goes to the nearest double, a tie to the even significand. -/

namespace Unravel

def twoPow (n : Nat) : Nat := Nat.pow 2 n

def tenPow (n : Nat) : Nat := Nat.pow 10 n

/-- The natural number nearest to `num / den`, a tie going to the even one. -/
def roundDiv (num den : Nat) : Nat :=
  let q := num / den
  let r := num % den
  if 2 * r < den then q
  else if den < 2 * r then q + 1
  else q + q % 2

namespace Double

def isNegative (x : Float) : Bool := twoPow 63 ≤ x.toBits.toNat

def exponentField (x : Float) : Nat := x.toBits.toNat / twoPow 52 % twoPow 11

def fractionField (x : Float) : Nat := x.toBits.toNat % twoPow 52

def isFinite (x : Float) : Bool := exponentField x ≠ 2047

def significand (x : Float) : Nat :=
  if exponentField x = 0 then fractionField x else twoPow 52 + fractionField x

def exponent (x : Float) : Int :=
  (if exponentField x = 0 then 1 else exponentField x : Nat) - 1075

def infinity : Float := Float.ofBits 0x7FF0000000000000

def nan : Float := Float.ofBits 0x7FF8000000000000

def signed (negative : Bool) (x : Float) : Float := if negative then -x else x

/-- The double nearest to `num / den`; what rounds to `2 ^ 1024` or more is infinite. -/
def ofRatio (num den : Nat) : Float :=
  if num = 0 then 0
  else
    let guess : Int := (num.log2 : Int) - den.log2
    let reaches := den * twoPow guess.toNat ≤ num * twoPow (-guess).toNat
    let top := if reaches then guess else guess - 1
    let scale := max (top - 52) (-1074)
    let m := roundDiv (num * twoPow (-scale).toNat) (den * twoPow scale.toNat)
    let bits := (scale + 1074).toNat * twoPow 52 + m
    if bits < 0x7FF0000000000000 then Float.ofBits bits.toUInt64 else infinity

def ofInt? (n : Int) : Option Float :=
  if n.natAbs < twoPow 1024 - twoPow 970 then some (signed (n < 0) (ofRatio n.natAbs 1)) else none

/-- The double nearest to `mantissa · 10 ^ scale`. Powers far outside the range of doubles are
settled by the number of digits alone. -/
def ofDecimal (mantissa : Nat) (scale : Int) : Float :=
  let size : Int := (Nat.toDigits 10 mantissa).length + scale
  if mantissa = 0 || size < -400 then 0
  else if 400 < size then infinity
  else ofRatio (mantissa * tenPow scale.toNat) (tenPow (-scale).toNat)

def toInt? (x : Float) : Option Int :=
  if isFinite x then
    let down := twoPow (-exponent x).toNat
    if significand x % down = 0 then
      let n : Nat := significand x * twoPow (exponent x).toNat / down
      some (if isNegative x then -(n : Int) else n)
    else none
  else none

def compareInt (x : Float) (n : Int) : Ordering :=
  if isFinite x then
    let m : Int := if isNegative x then -(significand x : Int) else significand x
    compare (m * twoPow (exponent x).toNat) (n * twoPow (-exponent x).toNat)
  else if isNegative x then .lt else .gt

end Double
end Unravel
