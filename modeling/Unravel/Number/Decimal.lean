import Unravel.Number.Double

/-! Decimal spellings. `Numeral` is a spelling with a whole part, a fraction and a power of ten;
`Numeral.ofDouble` is the spelling of a double by the fewest digits that read back, and
`Numeral.relayout` lays the text of a spelling out anew. -/

namespace Unravel

def digitsValue (base : Nat) (digits : List Nat) : Nat :=
  digits.foldl (fun n d => base * n + d) 0

def digitOf (c : Char) : Nat := c.toNat - 48

def decimalDigits (n : Nat) : List Nat := (Nat.toDigits 10 n).map digitOf

def digitText (digits : List Nat) : List Char := digits.map fun d => Char.ofNat (48 + d)

def intText (n : Int) : String :=
  if n < 0 then "-" ++ Nat.repr n.natAbs else Nat.repr n.natAbs

namespace Double

/-- The point that ends `num / den` in decimal: the least `e` with `num / den < 10 ^ e`, found by
counting up to `fuel` steps from `e`. -/
def decimalPoint (num den : Nat) : Nat → Int → Int
  | 0, e => e
  | fuel + 1, e =>
    if num * tenPow (-e).toNat < den * tenPow e.toNat then e else decimalPoint num den fuel (e + 1)

/-- Four times the significand and the two ends, in quarters, of the interval that reads back as
this double. -/
def readBack (x : Float) : Nat × Nat × Nat :=
  let m := significand x
  let below := if m = twoPow 52 && 1 < exponentField x then 1 else 2
  (4 * m, 4 * m - below, 4 * m + 2)

def readsBack (x : Float) (c : Nat) (scale : Int) : Bool :=
  let (_, low, high) := readBack x
  let twos := exponent x - 2
  let v := c * tenPow scale.toNat * twoPow (-twos).toNat
  let unit := tenPow (-scale).toNat * twoPow twos.toNat
  if significand x % 2 = 0 then low * unit ≤ v && v ≤ high * unit
  else low * unit < v && v < high * unit

/-- The best decimal with `count` digits: of the two neighbours of `x` on that grid, the nearest one
that reads back. -/
def neighbour? (x : Float) (point : Int) (count : Nat) : Option Nat :=
  let scale := point - count
  let num := significand x * twoPow (exponent x).toNat * tenPow (-scale).toNat
  let den := twoPow (-exponent x).toNat * tenPow scale.toNat
  let low := num / den
  let near := roundDiv num den
  let far := if near = low then low + 1 else low
  if readsBack x near scale then some near
  else if readsBack x far scale then some far
  else none

def shortestFrom (x : Float) (point : Int) : Nat → Nat → Nat × Int
  | 0, count => (((neighbour? x point count).getD 0), point - count)
  | fuel + 1, count =>
    match neighbour? x point count with
    | some c => (c, point - count)
    | none => shortestFrom x point fuel (count + 1)

/-- The shortest digits of a positive finite double and the place of the point before them: the
double reads back from `0.d₁d₂… · 10 ^ point`. -/
def shortest (x : Float) : List Nat × Int :=
  let num := significand x * twoPow (exponent x).toNat
  let den := twoPow (-exponent x).toNat
  let guess : Int := ((exponent x + (significand x).log2) * 1233) / 4096 - 1
  let point := decimalPoint num den 4 guess
  let (c, scale) := shortestFrom x point 16 1
  let digits := decimalDigits c
  ((digits.reverse.dropWhile (· == 0)).reverse, scale + digits.length)

end Double

structure Numeral where
  whole : List Nat
  fraction : List Nat
  exponent : Int
deriving DecidableEq, Repr

namespace Numeral

/-- Positional between `10 ^ -4` and `10 ^ 16` with at least one fraction digit, else one digit
before the point and an exponent. -/
def ofShortest (digits : List Nat) (point : Int) : Numeral :=
  if 16 < point || point < -3 then ⟨digits.take 1, digits.drop 1, point - 1⟩
  else if point ≤ 0 then ⟨[0], List.replicate (-point).toNat 0 ++ digits, 0⟩
  else
    let n := point.toNat
    let padded := digits ++ List.replicate (n - digits.length) 0
    ⟨padded.take n, if padded.length ≤ n then [0] else padded.drop n, 0⟩

def ofDouble (x : Float) : Numeral :=
  if x == 0 then ⟨[0], [0], 0⟩
  else
    let (digits, point) := Double.shortest x
    ofShortest digits point

def exponentText (e : Int) : List Char :=
  let ds := Nat.toDigits 10 e.natAbs
  (if e < 0 then '-' else '+') :: (if ds.length < 2 then '0' :: ds else ds)

def text (n : Numeral) : String :=
  let fraction := if n.fraction.isEmpty then [] else '.' :: digitText n.fraction
  let power := if n.exponent = 0 then [] else 'e' :: exponentText n.exponent
  String.ofList (digitText n.whole ++ fraction ++ power)

def signedValue : List Char → Int
  | '-' :: cs => -(digitsValue 10 (cs.map digitOf) : Int)
  | '+' :: cs => digitsValue 10 (cs.map digitOf)
  | cs => digitsValue 10 (cs.map digitOf)

def read (text : List Char) : Numeral :=
  let mantissa := text.takeWhile (· != 'e')
  let power := (text.dropWhile (· != 'e')).tail
  let whole := mantissa.takeWhile (· != '.')
  let part := (mantissa.dropWhile (· != '.')).filter (· != '.')
  ⟨whole.map digitOf, part.map digitOf, signedValue power⟩

def normal (n : Numeral) : List Nat × Int :=
  let raw := n.whole ++ n.fraction
  let digits := raw.dropWhile (· == 0)
  ((digits.reverse.dropWhile (· == 0)).reverse,
    n.whole.length + n.exponent - (raw.length - digits.length : Nat))

/-- Plain while the point lies in `(-6, 21]`, else one digit, a fraction and a signed exponent. -/
def layout (digits : List Nat) (point : Int) : List Char :=
  let k : Int := digits.length
  if k ≤ point && point ≤ 21 then digitText digits ++ List.replicate (point - k).toNat '0'
  else if 0 < point && point ≤ 21 then
    digitText (digits.take point.toNat) ++ '.' :: digitText (digits.drop point.toNat)
  else if -6 < point && point ≤ 0 then
    '0' :: '.' :: List.replicate (-point).toNat '0' ++ digitText digits
  else
    let e := point - 1
    let mantissa :=
      if k = 1 then digitText digits
      else digitText (digits.take 1) ++ '.' :: digitText (digits.drop 1)
    mantissa ++ 'e' :: (if 0 ≤ e then '+' else '-') :: Nat.toDigits 10 e.natAbs

def plain (n : Numeral) : String :=
  let (digits, point) := n.normal
  String.ofList (layout digits point)

def relayout (text : String) : String := (read text.toList).plain

end Numeral
end Unravel
