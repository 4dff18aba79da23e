import Unravel.Fault

/-! Numbers: exact integers and doubles, kept apart. Mixed arithmetic goes through doubles, mixed
comparison is exact. -/

namespace Unravel

inductive Number where
  | int (n : Int)
  | float (x : Float)
deriving DecidableEq, Repr

namespace Number

/-- `2 ^ 53`; beyond it not every integer is a double. -/
def integerLimit : Nat := 9007199254740992

/-- Integral doubles below the limit are integers. -/
def ofDouble (x : Float) : Number :=
  match Double.toInt? x with
  | some n => if n.natAbs < integerLimit then .int n else .float x
  | none => .float x

def toFloat : Number → Except Fault Float
  | .int n => match Double.ofInt? n with
    | some x => .ok x
    | none => .error .tooLarge
  | .float x => .ok x

def neg : Number → Number
  | .int n => .int (-n)
  | .float x => .float (-x)

def add (a b : Number) : Except Fault Number :=
  match a, b with
  | .int m, .int n => .ok (.int (m + n))
  | a, b => do return .float ((← a.toFloat) + (← b.toFloat))

def compare? : Number → Number → Option Ordering
  | .int m, .int n => some (compare m n)
  | .int m, .float y => if y.isNaN then none else some (Double.compareInt y m).swap
  | .float x, .int n => if x.isNaN then none else some (Double.compareInt x n)
  | .float x, .float y =>
    if x < y then some .lt else if y < x then some .gt else if x == y then some .eq else none

def isZero (a : Number) : Bool := a.compare? (.int 0) == some .eq

/-- The text of a number: decimal for integers up to the limit, else the shortest digits of the
double. -/
def text : Number → Except Fault String
  | .int n =>
    if n.natAbs ≤ integerLimit then .ok (intText n)
    else do return floatText (← (Number.int n).toFloat)
  | .float x => .ok (floatText x)
where
  floatText (x : Float) : String :=
    if x.isNaN then "NaN"
    else if x.isInf then (if x < 0 then "-Infinity" else "Infinity")
    else if x == 0 then "0"
    else if x < 0 then "-" ++ Numeral.relayout (Numeral.ofDouble (-x)).text
    else Numeral.relayout (Numeral.ofDouble x).text

end Number
end Unravel
