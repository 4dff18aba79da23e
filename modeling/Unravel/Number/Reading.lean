import Unravel.Number.Basic
import Unravel.Text.Blank
import Unravel.Text.Digit

/-! Reading a number from text: a decimal integer, a decimal fraction with an optional power of ten,
a signed `Infinity`, or an unsigned integer after `0x`, `0o` or `0b`. -/

namespace Unravel.Number

def digitIn? (base : Nat) (c : Char) : Option Nat :=
  let value? :=
    if c.isDigit then some (c.toNat - 48)
    else if 'a' ≤ c && c ≤ 'z' then some (c.toNat - 87)
    else if 'A' ≤ c && c ≤ 'Z' then some (c.toNat - 55)
    else none
  value?.filter (· < base)

def natural? (base : Nat) (cs : List Char) : Option Nat :=
  if cs.isEmpty then none else (cs.mapM (digitIn? base)).map (digitsValue base)

def radix? : List Char → Option Nat
  | '0' :: c :: _ =>
    if c == 'x' || c == 'X' then some 16
    else if c == 'o' || c == 'O' then some 8
    else if c == 'b' || c == 'B' then some 2
    else none
  | _ => none

def sign : List Char → Bool × List Char
  | '-' :: cs => (true, cs)
  | '+' :: cs => (false, cs)
  | cs => (false, cs)

/-- Integers are read exactly up to this many digits; longer ones are read as doubles. -/
def digitLimit : Nat := 4300

def integer? (cs : List Char) : Option Int :=
  let (negative, ds) := sign cs
  if digitLimit < ds.length then none
  else (natural? 10 ds).map fun n => if negative then -(n : Int) else n

def power? : List Char → Option Int
  | [] => some 0
  | c :: cs =>
    if c == 'e' || c == 'E' then
      let (negative, ds) := sign cs
      (natural? 10 ds).map fun n => if negative then -(n : Int) else n
    else none

def fraction? (cs : List Char) : Option Float :=
  let (negative, cs) := sign cs
  let (whole, rest) := cs.span Char.isDigit
  let (part, rest) := match rest with
    | '.' :: more => more.span Char.isDigit
    | _ => ([], rest)
  match natural? 10 (whole ++ part), power? rest with
  | some m, some e => some (Double.signed negative (Double.ofDecimal m (e - part.length)))
  | _, _ => none

/-- The number that a text denotes; blank text is zero, anything unread is not a number. -/
def ofText (s : String) : Number :=
  let cs := Text.trim s.toList
  if cs.isEmpty then .int 0
  else
    let ds := cs.map Text.plainDigit
    match radix? cs with
    | some base => ((natural? base (ds.drop 2)).map fun (n : Nat) => .int n).getD (.float Double.nan)
    | none =>
      if cs = "Infinity".toList || cs = "+Infinity".toList then .float Double.infinity
      else if cs = "-Infinity".toList then .float (-Double.infinity)
      else match integer? ds with
        | some n => .int n
        | none => .float ((fraction? ds).getD Double.nan)

end Unravel.Number
