import Unravel.Number.Decimal

/-! Fixed places: a double rounded to a number of decimal places, a tie going to the even digit. -/

namespace Unravel

def fixedText (places : Nat) (x : Float) : String :=
  let up := twoPow (Double.exponent x).toNat * tenPow places
  let scaled := roundDiv (Double.significand x * up) (twoPow (-Double.exponent x).toNat)
  let digits := Nat.toDigits 10 scaled
  let padded := List.replicate (places + 1 - digits.length) '0' ++ digits
  let whole := padded.take (padded.length - places)
  let fraction := padded.drop (padded.length - places)
  let sign := if Double.isNegative x then ['-'] else []
  String.ofList (sign ++ whole ++ (if places = 0 then [] else '.' :: fraction))

def placesText (places : Nat) (x : Float) : String :=
  if x.isNaN then "nan"
  else if x.isInf then (if x < 0 then "-inf" else "inf")
  else fixedText places x

def durationText (seconds : Float) : String :=
  let ns := seconds * 1000000000
  if ns < 1000 then placesText 0 ns ++ " ns"
  else if ns < 1000000 then placesText 1 (ns / 1000) ++ " µs"
  else if ns < 1000000000 then placesText 2 (ns / 1000000) ++ " ms"
  else placesText 3 (ns / 1000000000) ++ " s"

end Unravel
