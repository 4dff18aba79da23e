import Unravel.Regexp.CharClass
import Unravel.Regexp.Group

/-! Well-formed patterns. A pattern is read to its end for its shape: parentheses match, what is
repeated can be repeated, references name closed groups, and a look-behind matches texts of one length
only. -/

namespace Unravel.Regexp

inductive Item where
  | place
  | repeated (w : Width)
  | single (w : Width)

def Item.width : Item → Width
  | .place => .none
  | .repeated w | .single w => w

def Item.total (items : List Item) : Width := items.foldr (fun i w => i.width.append w) .none

structure Scope where
  verbose : Bool
  first : Bool

/-- Repetitions and look-behinds are counted below this number. -/
def countLimit : Nat := 0xFFFFFFFF

namespace Reader

/-! Items -/

def numberedItem (first : Char) : Reader Item := do
  let second ← takeMarksUpTo 1 Char.isDigit
  let digits := first :: second
  let third ← if second.isEmpty || !digits.all isOctalDigit then pure [] else takeMarksUpTo 1 isOctalDigit
  if third.isEmpty then return .single (← refer ((Number.natural? 10 digits).getD 0))
  match Number.natural? 8 (digits ++ third) with
  | some code => if code ≤ 0xFF then return .single .one else failure
  | none => failure

def isPlaceLetter (c : Char) : Bool := "AbBZ".toList.contains c

def escapedItem (code : Nat) : Reader Item := do
  match letterOrDigit? code with
  | none => return .single .one
  | some c =>
    if isPlaceLetter c then return .place
    else if c == '0' then
      let _ ← takeMarksUpTo 2 isOctalDigit
      return .single .one
    else if c.isDigit then numberedItem c
    else if isClassLetter c || (controlCode? c).isSome then return .single .one
    else
      match spelledCode? c with
      | some spelled =>
        let _ ← spelled
        return .single .one
      | none => failure

/-! Repetitions -/

def count (digits : List Char) : Reader Nat := do
  match Number.natural? 10 digits with
  | some n => if digits.length ≤ Number.digitLimit && n < countLimit then return n else failure
  | none => failure

/-- The bounds of a repetition in braces, behind the opening one. Without a closing brace at its place
there is no repetition, and nothing is taken. -/
def bracedBounds? : Reader (Option (Nat × Option Nat)) := do
  let start ← get
  if (← peek) == some (.mark '}') then return none
  let low ← takeMarks Char.isDigit
  let high ← if ← accept ',' then takeMarks Char.isDigit else pure low
  if ← accept '}' then
    let least ← if low.isEmpty then pure 0 else count low
    if high.isEmpty then return some (least, none)
    let most ← count high
    if most < least then failure
    return some (least, some most)
  else
    set start
    return none

def repeatLast (least : Nat) (most : Option Nat) : List Item → Reader (List Item)
  | .single w :: items => do
    let eager ← accept '?'
    unless eager do
      let _ ← accept '+'
    modify fun s => { s with repeats := true }
    return .repeated (w.times least most) :: items
  | _ => failure

/-! Groups -/

/-- Branches that bars divide. The reader of a branch is told whether it is the first. -/
def branches (branch : Bool → Reader Width) : Reader Width := do
  let w ← branch true
  iterate (fun w => do
    if ← accept '|' then return .inl (w.either (← branch false)) else return .inr w) w

def content (branch : Reader Width) : Reader Width := do
  let w ← branches fun _ => branch
  expect ')'
  return w

def choice (branch : Reader Width) : Reader Width := do
  askedGroup
  let w ← branch
  let other ← if ← accept '|' then branch else pure .none
  expect ')'
  return w.either other

def fixedWidth (w : Width) : Reader Unit := do
  unless w.fixed?.any (· ≤ countLimit) do modify fun s => { s with uneven := true }

/-- A group behind its parenthesis. Options for the whole pattern and comments are no items. -/
def group (branch : Bool → Reader Width) (scope : Scope) (items : List Item) :
    Reader (Scope × List Item) := do
  let one (w : Width) : Reader (Scope × List Item) := return (scope, .single w :: items)
  match ← opening with
  | .comment => return (scope, items)
  | .options on =>
    unless scope.first && items.isEmpty do failure
    modify fun s => { s with options := on ++ s.options }
    return ({ scope with verbose := (← get).options.contains verboseOption }, items)
  | .reference number => one (← refer number)
  | .capture name =>
    let number ← openGroup name
    let w ← content (branch scope.verbose)
    closeGroup number w
    one w
  | .plain on off =>
    let verbose := (scope.verbose || on.contains verboseOption) && !off.contains verboseOption
    one (← content (branch verbose))
  | .lookAhead =>
    let _ ← content (branch scope.verbose)
    one .none
  | .lookBehind =>
    fixedWidth (← lookingBehind (content (branch scope.verbose)))
    one .none
  | .condition => one (← choice (branch scope.verbose))

/-! Branches -/

def isVerboseBlank (c : Char) : Bool :=
  c == ' ' || c == '\t' || c == '\n' || c == '\r' || c.toNat == 11 || c.toNat == 12

def skipLine : Reader Unit := do
  skip (((← get).rest.takeWhile (· != .mark '\n')).length + 1)

def item (branch : Bool → Reader Width) (scope : Scope) (items : List Item) (sign : Sign) :
    Reader (Scope × List Item) := do
  let one (i : Item) : Reader (Scope × List Item) := return (scope, i :: items)
  let again (least : Nat) (most : Option Nat) : Reader (Scope × List Item) :=
    return (scope, ← repeatLast least most items)
  match sign with
  | .escaped code => one (← escapedItem code)
  | .plain _ =>
    match sign.mark? with
    | some '[' =>
      charClass
      one (.single .one)
    | some '(' => group branch scope items
    | some '^' | some '$' => one .place
    | some '?' => again 0 (some 1)
    | some '*' => again 0 none
    | some '+' => again 1 none
    | some '\x7b' =>
      match ← bracedBounds? with
      | some (least, most) => again least most
      | none => one (.single .one)
    | some '#' =>
      if scope.verbose then
        skipLine
        return (scope, items)
      else one (.single .one)
    | some c => if scope.verbose && isVerboseBlank c then return (scope, items) else one (.single .one)
    | none => one (.single .one)

/-- A branch, up to a bar or a closing parenthesis. Each item and each nested branch takes a sign, so
the number of signs bounds the depth. -/
def branch : Nat → Scope → List Item → Reader Width
  | 0, _, _ => failure
  | n + 1, scope, items => do
    match ← peek with
    | none => return Item.total items
    | some sign =>
      if sign == .mark '|' || sign == .mark ')' then return Item.total items
      skip 1
      let (scope, items) ← item (fun verbose => branch n ⟨verbose, false⟩ []) scope items sign
      branch n scope items

/-- A whole pattern. A condition may ask for a group that stands behind it, but it has to stand
somewhere. -/
def pattern : Reader Unit := do
  let depth := (← get).rest.length + 1
  let _ ← branches fun first => do
    branch depth ⟨(← get).options.contains verboseOption, first⟩ []
  let s ← get
  unless s.rest.isEmpty && s.asked.all (· < s.groups.size) do failure
  if s.options.contains 'a' && s.options.contains 'u' then failure
  if s.uneven || (s.options.contains templateOption && s.repeats) then failure

end Reader

def check (s : String) : Bool × List Hint :=
  match codes? s.toList with
  | none => (false, [])
  | some codes =>
    let (signs, spent) := Sign.ofCodes codes
    let (result, final) := Reader.pattern.run.run (State.ofSigns signs)
    (spent && result.isSome, final.hints.reverse)

end Unravel.Regexp
