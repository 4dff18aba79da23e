import Unravel.Regexp.Reader
import Unravel.Number.Reading
import Unravel.Text.IdentifierChar

/-! What stands behind an opening parenthesis: names, numbers and options of groups. -/

namespace Unravel.Regexp

/-- Codes that continue a name elsewhere and never occur in the name of a group: their compatibility
forms do not. -/
def isCompatibilityForm (n : Nat) : Bool :=
  n == 0x37A || n == 0x309B || n == 0x309C || (0xFC5E ≤ n && n ≤ 0xFC63) || n == 0xFDFA || n == 0xFDFB
    || (0xFE70 ≤ n && n ≤ 0xFE7E && n % 2 == 0)

/-- Codes that start a name elsewhere and only continue the name of a group. -/
def isContinuingForm (n : Nat) : Bool := n == 0xE33 || n == 0xEB3 || n == 0xFF9E || n == 0xFF9F

def continuesGroupName (n : Nat) : Bool :=
  n != '$'.toNat && n != 0x200C && n != 0x200D && !isCompatibilityForm n
    && Text.isClassicNamePart (Char.ofNat n)

def startsGroupName (n : Nat) : Bool :=
  continuesGroupName n && !isContinuingForm n && Text.isClassicNameStart (Char.ofNat n)

def isGroupName : List Nat → Bool
  | [] => false
  | n :: ns => startsGroupName n && ns.all continuesGroupName

def isNumberBlank (c : Char) : Bool := Text.isBlank c && !(28 ≤ c.toNat && c.toNat ≤ 31)

def joinedDigits? : List Char → Option (List Char)
  | [] => none
  | [c] => if c.isDigit then some [c] else none
  | c :: '_' :: cs => if c.isDigit then (joinedDigits? cs).map (c :: ·) else none
  | c :: cs => if c.isDigit then (joinedDigits? cs).map (c :: ·) else none

/-- A group number: digits of any script with an optional plus sign. There is no group zero. -/
def groupNumber? (codes : List Nat) : Option Nat :=
  let cs := codes.map Char.ofNat
  let cs := ((cs.dropWhile isNumberBlank).reverse.dropWhile isNumberBlank).reverse.map Text.plainDigit
  let ds := if cs.head? = some '+' then cs.tail else cs
  (((joinedDigits? ds).filter (·.length ≤ Number.digitLimit)).bind (Number.natural? 10)).filter (0 < ·)

def isOption (c : Char) : Bool := "iLmsxatu".toList.contains c

def isAlphabetOption (c : Char) : Bool := c == 'a' || c == 'L' || c == 'u'

def verboseOption : Char := 'x'

def templateOption : Char := 't'

inductive Opening where
  | capture (name : Option (List Nat))
  | plain (on off : List Char)
  | lookAhead
  | lookBehind
  | condition
  | reference (number : Nat)
  | comment
  | options (on : List Char)

namespace Reader

def groupName (close : Char) : Reader (List Nat) := do
  let name ← takeUntil close
  if isGroupName name then return name else failure

def optionLetters (ends : List Char) : Reader (List Char × Char) := do
  let letters ← takeMarks isOption
  if letters.isEmpty then failure
  match (← next).mark? with
  | some c => if ends.contains c then return (letters, c) else failure
  | none => failure

def checkOn (letters : List Char) : Reader Unit := do
  if letters.contains 'L' || (letters.contains 'a' && letters.contains 'u') then failure

def optionsOff (on : List Char) : Reader Opening := do
  let (off, _) ← optionLetters [':']
  if off.any fun c => isAlphabetOption c || c == templateOption || on.contains c then failure
  return .plain on off

/-- Options behind a question mark. Without a group of their own they hold for the whole pattern. -/
def optionsOn : Reader Opening := do
  let (on, close) ← optionLetters [')', '-', ':']
  checkOn on
  if close == ')' then return .options on
  if on.contains templateOption then failure
  if close == '-' then optionsOff on else return .plain on []

def skipComment : Reader Unit := do
  skip ((← get).rest.takeWhile (· != .mark ')')).length
  expect ')'

def named : Reader Opening := do
  if ← accept '<' then return .capture (some (← groupName '>'))
  expect '='
  return .reference (← groupNamed (← groupName ')'))

def lookBehind : Reader Opening := do
  if (← accept '=') || (← accept '!') then return .lookBehind else failure

def opening : Reader Opening := do
  unless ← accept '?' do return .capture none
  match (← peek).bind Sign.mark? with
  | some c =>
    if isOption c then optionsOn
    else
      skip 1
      match c with
      | 'P' => named
      | ':' | '>' => return .plain [] []
      | '#' =>
        skipComment
        return .comment
      | '=' | '!' => return .lookAhead
      | '<' => lookBehind
      | '(' => return .condition
      | '-' => optionsOff []
      | _ => failure
  | none => failure

/-- The group that a condition asks for. A number may be that of a later group, except inside a
look-behind. -/
def askedGroup : Reader Unit := do
  let start := (← get).offset
  let codes ← takeUntil ')'
  let number ←
    if isGroupName codes then groupNamed codes
    else
      match groupNumber? codes with
      | none => failure
      | some number =>
        modify fun s => { s with asked := number :: s.asked }
        unless codes.all fun n => (Char.ofNat n).isDigit do
          hint (.groupNumber (String.ofList (codes.map Char.ofNat)) start)
        pure number
  if (← get).before.isSome then
    let _ ← refer number

end Reader
end Unravel.Regexp
