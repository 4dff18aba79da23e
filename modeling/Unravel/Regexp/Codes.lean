import Unravel.Number.Reading

/-! The codes of a pattern. A Unicode escape gives way to the code it stands for, wherever a backslash
and `u` meet. A code above U+FFFF and a pair of surrogates count as the one code U+FFFF; a code above
U+10FFFF is refused. -/

namespace Unravel.Regexp

/-- Stands for every code that takes two units of sixteen bits. -/
def wideCode : Nat := 0xFFFF

def isHexDigit (c : Char) : Bool := (Number.digitIn? 16 c).isSome

def escapedCode? : List Char → Option (Nat × Nat)
  | '{' :: cs =>
    let digits := cs.takeWhile isHexDigit
    if cs[digits.length]? == some '}' then
      (Number.natural? 16 digits).map fun n => (n, digits.length + 2)
    else none
  | cs =>
    let digits := cs.take 4
    if digits.length < 4 then none else (Number.natural? 16 digits).map fun n => (n, 4)

def unitCodes? : List Char → Option (List Nat)
  | [] => some []
  | '\\' :: 'u' :: cs =>
    match escapedCode? cs with
    | some (code, n) =>
      if 0x10FFFF < code then none
      else (unitCodes? (cs.drop n)).map ((if code ≤ 0xFFFF then code else wideCode) :: ·)
    | none => (unitCodes? cs).map fun codes => '\\'.toNat :: 'u'.toNat :: codes
  | c :: cs => (unitCodes? cs).map (c.toNat :: ·)
termination_by cs => cs.length
decreasing_by all_goals simp only [List.length_cons, List.length_drop]; omega

def isHighSurrogate (n : Nat) : Bool := 0xD800 ≤ n && n < 0xDC00

def isLowSurrogate (n : Nat) : Bool := 0xDC00 ≤ n && n < 0xE000

def joinPairs : List Nat → List Nat
  | m :: n :: ns =>
    if isHighSurrogate m && isLowSurrogate n then wideCode :: joinPairs ns
    else m :: joinPairs (n :: ns)
  | ns => ns

def codes? (cs : List Char) : Option (List Nat) := (unitCodes? cs).map joinPairs

end Unravel.Regexp
