import Unravel.Text.Printable

/-! Quoted text in messages: single quotes, unless only single quotes occur inside. -/

namespace Unravel.Text

def hexDigit (upper : Bool) (n : Nat) : Char :=
  if n < 10 then Char.ofNat (48 + n) else Char.ofNat ((if upper then 55 else 87) + n)

def hex (upper : Bool) : Nat → Nat → List Char
  | 0, _ => []
  | width + 1, n => hex upper width (n / 16) ++ [hexDigit upper (n % 16)]

/-- One character inside quotes: named escapes, then hexadecimal ones for what is not printable. -/
def quotedChar (quote c : Char) : List Char :=
  if c == quote || c == '\\' then ['\\', c]
  else if c == '\n' then ['\\', 'n']
  else if c == '\r' then ['\\', 'r']
  else if c == '\t' then ['\\', 't']
  else if isPrintable c then [c]
  else if c.toNat < 0x100 then '\\' :: 'x' :: hex false 2 c.toNat
  else if c.toNat < 0x10000 then '\\' :: 'u' :: hex false 4 c.toNat
  else '\\' :: 'U' :: hex false 8 c.toNat

def quoted (s : String) : String :=
  let quote := if s.contains '\'' && !s.contains '"' then '"' else '\''
  String.ofList (quote :: s.toList.flatMap (quotedChar quote) ++ [quote])

def commaSeparated (items : List String) : String := ", ".intercalate items

end Unravel.Text
