import Unravel.Regexp.Hint
import Unravel.Regexp.Sign
import Unravel.Regexp.Width

/-! Reading a pattern sign by sign. No tree is kept: of the groups read so far only their widths and
names matter. A refusal keeps the remarks made before it. -/

namespace Unravel.Regexp

structure State where
  rest : List Sign
  offset : Nat
  /-- The widths of the groups by number, missing while a group is open. Number zero is the pattern
  itself, which never closes. -/
  groups : Array (Option Width)
  names : List (List Nat × Nat)
  /-- Inside a look-behind, the number of groups that were opened before it. -/
  before : Option Nat
  asked : List Nat
  options : List Char
  repeats : Bool
  uneven : Bool
  hints : List Hint

def State.ofSigns (signs : List Sign) : State :=
  { rest := signs, offset := 0, groups := #[none], names := [], before := none, asked := [],
    options := [], repeats := false, uneven := false, hints := [] }

abbrev Reader := OptionT (StateM State)

namespace Reader

def peek : Reader (Option Sign) := return (← get).rest.head?

def skip (n : Nat) : Reader Unit :=
  modify fun s => { s with
    rest := s.rest.drop n
    offset := (s.rest.take n).foldl (fun offset sign => offset + sign.codes.length) s.offset }

def next : Reader Sign := do
  match ← peek with
  | some sign =>
    skip 1
    return sign
  | none => failure

def accept (c : Char) : Reader Bool := do
  if (← peek) == some (.mark c) then
    skip 1
    return true
  else return false

def expect (c : Char) : Reader Unit := do
  unless ← accept c do failure

def takeMarks (p : Char → Bool) : Reader (List Char) := do
  let signs := (← get).rest.takeWhile fun sign => sign.mark?.any p
  skip signs.length
  return signs.filterMap Sign.mark?

def takeMarksUpTo (n : Nat) (p : Char → Bool) : Reader (List Char) := do
  let signs := ((← get).rest.take n).takeWhile fun sign => sign.mark?.any p
  skip signs.length
  return signs.filterMap Sign.mark?

def takeUntil (c : Char) : Reader (List Nat) := do
  let signs := (← get).rest.takeWhile (· != .mark c)
  skip signs.length
  expect c
  if signs.isEmpty then failure
  return signs.flatMap Sign.codes

def hint (h : Hint) : Reader Unit := modify fun s => { s with hints := h :: s.hints }

/-- Runs a step until it gives a result. A step that goes on has taken a sign, so the signs that are
left bound their number. -/
def iterate {α β : Type} (step : β → Reader (β ⊕ α)) (start : β) : Reader α := do
  go ((← get).rest.length + 1) start
where
  go : Nat → β → Reader α
    | 0, _ => failure
    | n + 1, b => do
      match ← step b with
      | .inl b => go n b
      | .inr a => return a

/-! Groups -/

def openGroup (name : Option (List Nat)) : Reader Nat := do
  let s ← get
  let number := s.groups.size
  match name with
  | some name =>
    if (s.names.lookup name).isSome then failure
    set { s with groups := s.groups.push none, names := (name, number) :: s.names }
  | none => set { s with groups := s.groups.push none }
  return number

def closeGroup (number : Nat) (w : Width) : Reader Unit :=
  modify fun s => { s with groups := s.groups.setIfInBounds number (some w) }

def groupNamed (name : List Nat) : Reader Nat := do
  match (← get).names.lookup name with
  | some number => return number
  | none => failure

/-- The width of a group that is referred to. It has to be closed, and inside a look-behind it has to
stand before it. -/
def refer (number : Nat) : Reader Width := do
  let s ← get
  if (s.before.any (· ≤ number)) then failure
  match s.groups[number]?.join with
  | some w => return w
  | none => failure

def lookingBehind {α : Type} (r : Reader α) : Reader α := do
  let before := (← get).before
  modify fun s => { s with before := s.before.or (some s.groups.size) }
  let a ← r
  modify fun s => { s with before }
  return a

end Reader
end Unravel.Regexp
