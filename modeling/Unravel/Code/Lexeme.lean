import Unravel.Text.LineBreak
import Unravel.Text.Quoted
import Unravel.Value

/-! The printed forms of names, texts, regular expressions and numbers. -/

namespace Unravel.Code

open Text

def nameText (name : String) : Except Fault String :=
  if isName name.toList then .ok name else .error (.refused .identifierName)

def unitEscape (n : Nat) : List Char := '\\' :: 'u' :: hex true 4 n

def charEscape (c : Char) (next : Option Char) : List Char :=
  let n := c.toNat
  if n == 8 then ['\\', 'b']
  else if n == 12 then ['\\', 'f']
  else if n == 9 then ['\\', 't']
  else if 0xFFFF < n then
    unitEscape (0xD800 + (n - 0x10000) / 0x400) ++ unitEscape (0xDC00 + (n - 0x10000) % 0x400)
  else if 0xFF < n then unitEscape n
  else if n == 0 && !next.any Char.isDigit then ['\\', '0']
  else if n == 11 then ['\\', 'x', '0', 'b']
  else '\\' :: 'x' :: hex true 2 n

def stringChar (quote c : Char) (next : Option Char) : List Char :=
  if c == quote || c == '\\' then ['\\', c]
  else if c == '\n' then ['\\', 'n']
  else if c == '\r' then ['\\', 'r']
  else if isLineBreak c then unitEscape c.toNat
  else if (c.toNat < 0x20 || 0x7E < c.toNat) && !isNamePart c then charEscape c next
  else [c]

def stringChars (quote : Char) : List Char → List Char
  | [] => []
  | c :: cs => stringChar quote c cs.head? ++ stringChars quote cs

def stringText (quote : Char) (s : String) : String :=
  String.ofList (quote :: stringChars quote s.toList ++ [quote])

/-- The flags of a regular expression are distinct and not both `u` and `v`. -/
def validFlags (flags : List Char) : Bool :=
  flags.all "dgimsuvy".toList.contains && flags.eraseDups.length == flags.length
    && !(flags.contains 'u' && flags.contains 'v')

def patternChar (afterBackslash : Bool) (c : Char) : List Char :=
  let escape := if afterBackslash then [] else ['\\']
  if c.toNat == 0x2028 then escape ++ "u2028".toList
  else if c.toNat == 0x2029 then escape ++ "u2029".toList
  else if c == '\n' then escape ++ ['n']
  else if c == '\r' then escape ++ ['r']
  else [c]

/-- The characters of a pattern; outside a class in brackets a bare slash is escaped. -/
def patternChars (inClass afterBackslash : Bool) : List Char → List Char
  | [] => []
  | c :: cs =>
    if afterBackslash then patternChar true c ++ patternChars inClass false cs
    else
      let slash := if !inClass && c == '/' then ['\\'] else []
      let inside := if inClass then c != ']' else c == '['
      slash ++ patternChar false c ++ patternChars inside (c == '\\') cs

def regexpText (pattern flags : String) : Except Fault String :=
  if validFlags flags.toList then
    let body := if pattern.isEmpty then "(?:)"
      else String.ofList (patternChars false false pattern.toList)
    .ok ("/" ++ body ++ "/" ++ flags)
  else .error (.refused .regexpFlags)

/-- A non-negative number. An integer that is no double is printed as the nearest one. -/
def numberText : Number → Except Fault String
  | .int n => do
    let x ← (Number.int n).toFloat
    return if Double.toInt? x = some n then intText n else (Numeral.ofDouble x).text
  | .float x => .ok (Numeral.ofDouble x).text

def literalText (quote : Char) : Value → Except Fault String
  | .null => .ok "null"
  | .bool b => .ok (if b then "true" else "false")
  | .number n => numberText n
  | .str s => .ok (stringText quote s)
  | .undefined => .ok "undefined"
  | .foreign _ => .error .notApplicable

end Unravel.Code
