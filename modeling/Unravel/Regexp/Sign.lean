/-! The signs of a pattern: a code by itself, or a code behind a backslash. -/

namespace Unravel.Regexp

inductive Sign where
  | plain (code : Nat)
  | escaped (code : Nat)
deriving DecidableEq, Repr

namespace Sign

def mark (c : Char) : Sign := .plain c.toNat

def mark? : Sign → Option Char
  | .plain n => if n < 128 then some (Char.ofNat n) else none
  | .escaped _ => none

def codes : Sign → List Nat
  | .plain n => [n]
  | .escaped n => ['\\'.toNat, n]

/-- The signs that codes spell, and whether all codes are spent: a backslash at the end spells
none. -/
def ofCodes : List Nat → List Sign × Bool
  | [] => ([], true)
  | [m] => if m = '\\'.toNat then ([], false) else ([.plain m], true)
  | m :: n :: ns =>
    if m = '\\'.toNat then
      let (signs, spent) := ofCodes ns
      (.escaped n :: signs, spent)
    else
      let (signs, spent) := ofCodes (n :: ns)
      (.plain m :: signs, spent)

end Sign
end Unravel.Regexp
