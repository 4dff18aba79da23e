import Unravel.Number.Reading

/-! Primitive values and the conversions that folding needs: to a truth value, to a number, to a
text, and their sum. -/

namespace Unravel

inductive Value where
  | undefined
  | null
  | bool (b : Bool)
  | number (n : Number)
  | str (s : String)
  | foreign (type : String)
deriving DecidableEq, Repr

namespace Value

@[match_pattern] abbrev int (n : Int) : Value := .number (.int n)

@[match_pattern] abbrev float (x : Float) : Value := .number (.float x)

def isPrimitive : Value → Bool
  | .foreign _ => false
  | _ => true

def isNumber : Value → Bool
  | .number _ => true
  | _ => false

/-- An integer that is not zero is compared as a double, so it must not be too large. -/
def truthy : Value → Except Fault Bool
  | .undefined | .null => .ok false
  | .bool b => .ok b
  | .int n => if n = 0 then .ok false else do
    let _ ← (Number.int n).toFloat
    return true
  | .float x => .ok !(x == 0 || x.isNaN)
  | .str s => .ok !s.isEmpty
  | .foreign _ => .ok true

def toNumber : Value → Number
  | .undefined | .foreign _ => .float Double.nan
  | .null => .int 0
  | .bool b => .int (if b then 1 else 0)
  | .number n => n
  | .str s => Number.ofText s

def toText : Value → Except Fault String
  | .undefined => .ok "undefined"
  | .null => .ok "null"
  | .bool b => .ok (if b then "true" else "false")
  | .number n => n.text
  | .str s => .ok s
  | .foreign _ => .error .notApplicable

def isText : Value → Bool
  | .str _ => true
  | _ => false

/-- Joins texts as soon as one operand is a text; else adds numbers, exactly while the sum of two
integers stays within the limit. -/
def add (a b : Value) : Except Fault Value :=
  if a.isText || b.isText then do return .str ((← a.toText) ++ (← b.toText))
  else
    let x := a.toNumber
    let y := b.toNumber
    let rounded : Except Fault Value := do return .float ((← x.toFloat) + (← y.toFloat))
    match x, y with
    | .int m, .int n => if (m + n).natAbs ≤ Number.integerLimit then .ok (.int (m + n)) else rounded
    | _, _ => rounded

/-- The index that an integral number or a canonical decimal text denotes. -/
def arrayIndex? : Value → Except Fault (Option Int)
  | .str s =>
    let cs := s.toList
    if !cs.isEmpty && cs.all Char.isDigit then
      if Number.digitLimit < cs.length then .error (.refused (.digitCount cs.length))
      else
        let n := digitsValue 10 (cs.map fun c => c.toNat - 48)
        .ok (if Nat.repr n = s then some n else none)
    else .ok none
  | .int n => .ok (some n)
  | .float x => .ok (Double.toInt? x)
  | _ => .ok none

end Value
end Unravel
