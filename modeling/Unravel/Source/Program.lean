import Unravel.Source.Statement

/-! Programs. The goals of the grammar are tied together by a bound on their nesting that the length
of the text gives; text outside the model is refused at its first such construct in pre-order. -/

namespace Unravel.Source

open Unravel.Source.Parser

def grammar : Nat → Grammar
  | 0, _ => throw .outOfFuel
  | n + 1, goal =>
    match goal with
    | .assignment => assignment (grammar n)
    | .unary => unary (grammar n)
    | .exponent => exponent (grammar n)
    | .callee => callee (grammar n)
    | .call => call (grammar n)
    | .pattern kind => pattern (grammar n) kind
    | .statement => statement (grammar n)
    | .item => item (grammar n)

/-- Each nested goal reads a token after a few steps, so the length bounds the nesting. -/
def depthBound (s : String) : Nat := 8 * (s.length + 8)

def program (g : Grammar) : Parser Node := do
  let l ← here
  let first ← directives g
  let more ← many (return !(← atEnd)) (g .item)
  return Node.program (Tag.fresh (some l)) ((first ++ more).map some)

/-- The state before the first token: the last token is taken to end where the first one does. -/
def startState (s : String) : Reading State := do
  let c := Cursor.ofText s
  let before : State :=
    { cursor := c, lookahead := ⟨.endOfInput, 0, c.line, 0⟩, newline := false, start := c,
      last := c.marker, context := .script, bound := [] }
  let (_, st) ← next.run before
  return { st with last := st.cursor.marker }

def read (s : String) : Reading Node := do
  let (n, _) ← (program (grammar (depthBound s))).run (← startState s)
  return n

def checked (n : Node) : Except Fault Node := do
  for m in n.walk do m.supported
  return n

def parseWithHints (s : String) : Except Fault Node × List Regexp.Hint :=
  let (result, hints) := (read s).run.run []
  (result.bind checked, hints.reverse)

def parse (s : String) : Except Fault Node := (parseWithHints s).1

end Unravel.Source
