import Unravel.Fault
import Unravel.Regexp.Hint
import Unravel.Text.LineBreak

/-! A place in source text. The cursor knows what is left to read and where it stands: its offset,
its line and the offset at which that line starts. -/

namespace Unravel.Source

open Text

structure Cursor where
  rest : List Char
  size : Nat
  offset : Nat
  line : Nat
  lineStart : Nat
  /-- The open braces, innermost first; `true` marks one that a template substitution opened. -/
  braces : List Bool

/-- The start of a text. Empty text has no line, so its line number is zero. -/
def Cursor.ofText (s : String) : Cursor :=
  ⟨s.toList, s.length, 0, if s.isEmpty then 0 else 1, 0, []⟩

abbrev Reading := ExceptT Fault (StateM (List Regexp.Hint))

abbrev Scan := StateT Cursor Reading

namespace Cursor

def column (c : Cursor) (offset : Nat) : Int := (offset : Int) - c.lineStart

/-- The cursor `n` characters on, in the same line. At the end the offset still grows. -/
def advance (c : Cursor) (n : Nat) : Cursor :=
  { c with rest := c.rest.drop n, offset := c.offset + n }

/-- The cursor behind a line break that starts with `ch`, which has been read: a carriage return
takes a line feed with it. -/
def breakLine (c : Cursor) (ch : Char) : Cursor :=
  let c := if ch == '\r' && c.rest.head? == some '\n' then c.advance 1 else c
  { c with line := c.line + 1, lineStart := c.offset }

end Cursor

namespace Scan

def failAt {α : Type} (offset : Nat) (text : String) : Scan α := do
  let c ← get
  throw (.notAProgram text c.line (c.column offset + 1))

def illegal : String := "Unexpected token ILLEGAL"

def fail {α : Type} (text : String) : Scan α := do failAt (← get).offset text

def atEnd : Scan Bool := do return (← get).rest.isEmpty

def peekAt (n : Nat) : Scan (Option Char) := do return (← get).rest[n]?

def peek : Scan (Option Char) := peekAt 0

def startsWith (s : String) : Scan Bool := do return s.toList.isPrefixOf (← get).rest

def skip (n : Nat) : Scan Unit := modify (·.advance n)

def next : Scan (Option Char) := do
  let c ← peek
  skip 1
  return c

def takeWhile (p : Char → Bool) : Scan (List Char) := do
  let cs := (← get).rest.takeWhile p
  skip cs.length
  return cs

def breakLine (ch : Char) : Scan Unit := modify (·.breakLine ch)

def remark (hints : List Regexp.Hint) : Scan Unit :=
  (modify (hints.reverse ++ ·) : StateM (List Regexp.Hint) Unit)

/-- Runs a step until it gives a result. A step that goes on has read a character, so the length of
the text bounds their number. -/
def iterate {α β : Type} (step : β → Scan (β ⊕ α)) (start : β) : Scan α := do
  go ((← get).size + 1) start
where
  go : Nat → β → Scan α
    | 0, _ => throw .outOfFuel
    | n + 1, b => do
      match ← step b with
      | .inl b => go n b
      | .inr a => return a

end Scan
end Unravel.Source
