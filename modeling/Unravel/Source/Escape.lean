import Unravel.Number.Reading
import Unravel.Source.Cursor

/-! Escapes in names, texts and templates. An escape stands for a code; two codes that form a
surrogate pair stand for one character. -/

namespace Unravel.Source

/-- The text of a list of codes. A surrogate without its partner is replaced. -/
def ofCodes : List Nat → List Char
  | [] => []
  | [n] => [single n]
  | m :: n :: ns =>
    if 0xD800 ≤ m && m < 0xDC00 && 0xDC00 ≤ n && n < 0xE000 then
      Char.ofNat (0x10000 + (m - 0xD800) * 0x400 + (n - 0xDC00)) :: ofCodes ns
    else single m :: ofCodes (n :: ns)
where
  single (n : Nat) : Char := if 0xD800 ≤ n && n < 0xE000 then Char.ofNat 0xFFFD else Char.ofNat n

namespace Scan

open Text

def invalidHex : String := "Invalid hexadecimal escape sequence"

def hexDigits : Nat → Nat → Scan (Option Nat)
  | 0, code => return some code
  | n + 1, code => do
    match (← peek).bind (Number.digitIn? 16) with
    | some d =>
      skip 1
      hexDigits n (16 * code + d)
    | none => return none

def bracedCode : Scan Nat := do
  if (← peek) == some '}' then fail illegal
  let digits ← takeWhile fun c => (Number.digitIn? 16 c).isSome
  let code := digits.foldl (fun n c => 16 * n + (Number.digitIn? 16 c).getD 0) 0
  if ← atEnd then fail illegal
  let close ← next
  if code > 0x10FFFF || close != some '}' then fail illegal
  return code

def unicodeCode : Scan (Option Nat) := do
  if (← peek) == some '{' then
    skip 1
    return some (← bracedCode)
  else hexDigits 4 0

def octalDigit? (c : Option Char) : Option Nat := c.bind (Number.digitIn? 8)

/-- The code of an octal escape whose first digit is read: three digits only if the first is below
four. `\0` alone is no octal escape. -/
def octalCode (first : Nat) : Scan (Nat × Bool) := do
  match octalDigit? (← peek) with
  | none => return (first, first != 0)
  | some second =>
    skip 1
    let code := 8 * first + second
    match octalDigit? (← peek) with
    | some third =>
      if first < 4 then
        skip 1
        return (8 * code + third, true)
      else return (code, true)
    | none => return (code, true)

def letterCode? : Char → Option Nat
  | 'n' => some 10
  | 'r' => some 13
  | 't' => some 9
  | 'b' => some 8
  | 'f' => some 12
  | 'v' => some 11
  | _ => none

end Scan
end Unravel.Source
