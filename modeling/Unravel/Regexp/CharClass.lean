import Unravel.Regexp.Codes
import Unravel.Regexp.Reader
import Unravel.Text.CharName

/-! Escapes and character classes. An escaped letter or digit has to mean something; any other escaped
character is itself. -/

namespace Unravel.Regexp.Reader

def isOctalDigit (c : Char) : Bool := (Number.digitIn? 8 c).isSome

def hexCode (n : Nat) : Reader Nat := do
  let digits ← takeMarksUpTo n isHexDigit
  if digits.length < n then failure
  return (Number.natural? 16 digits).getD 0

def namedCode : Reader Nat := do
  expect '\x7b'
  let name ← takeUntil '\x7d'
  match Text.charNamed? (String.ofList (name.map Char.ofNat)) with
  | some code => return code
  | none => failure

def spelledCode? (letter : Char) : Option (Reader Nat) :=
  match letter with
  | 'x' => some (hexCode 2)
  | 'u' => some (hexCode 4)
  | 'U' => some do
    let code ← hexCode 8
    if 0x10FFFF < code then failure
    return code
  | 'N' => some namedCode
  | _ => none

def controlCode? : Char → Option Nat
  | 'a' => some 7
  | 'b' => some 8
  | 't' => some 9
  | 'n' => some 10
  | 'v' => some 11
  | 'f' => some 12
  | 'r' => some 13
  | _ => none

def isClassLetter (c : Char) : Bool := "dDsSwW".toList.contains c

def letterOrDigit? (code : Nat) : Option Char :=
  let c := Char.ofNat code
  if code < 128 && c.isAlphanum then some c else none

/-- An octal code of at most three digits, of which the first is read. It fits one byte. -/
def octalCode (first : Char) : Reader Nat := do
  let more ← takeMarksUpTo 2 isOctalDigit
  match Number.natural? 8 (first :: more) with
  | some code => if code ≤ 0xFF then return code else failure
  | none => failure

inductive Member where
  | code (n : Nat)
  | many

def escapedMember (code : Nat) : Reader Member := do
  match letterOrDigit? code with
  | none => return .code code
  | some c =>
    match controlCode? c, spelledCode? c with
    | some n, _ => return .code n
    | none, some spelled => return .code (← spelled)
    | none, none =>
      if isClassLetter c then return .many
      else if isOctalDigit c then return .code (← octalCode c)
      else failure

def member : Sign → Reader Member
  | .plain n => return .code n
  | .escaped n => escapedMember n

/-- A character that is written twice may come to be an operator. -/
def hintOperator (sign : Sign) (position : Nat) : Reader Unit := do
  match sign.mark?.bind SetOperator.ofMark? with
  | some op => hint (.setOperator op position)
  | none => return ()

/-- Reads a member or a range that starts with a sign. Gives whether the class ends with it: a hyphen
before the closing bracket stands for itself. -/
def memberOrRange (sign : Sign) : Reader Bool := do
  let low ← member sign
  if ← accept '-' then
    let sign ← next
    if sign == .mark ']' then return true
    if sign == .mark '-' then hint (.setOperator .difference ((← get).offset - 2))
    match low, ← member sign with
    | .code m, .code n => if m ≤ n then return false else failure
    | _, _ => failure
  else return false

def charClass : Reader Unit := do
  if (← peek) == some (.mark '[') then hint (.nestedSet (← get).offset)
  let _ ← accept '^'
  iterate (fun first => do
    let sign ← next
    if !first && sign == .mark ']' then return .inr ()
    if !first && (← peek) == some sign then hintOperator sign ((← get).offset - 1)
    if ← memberOrRange sign then return .inr ()
    return .inl false) true

end Unravel.Regexp.Reader
