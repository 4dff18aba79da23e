import Unravel.Source.Cursor

/-! What stands between tokens: white space, line breaks and comments. Besides the two usual forms a
comment runs from `<!--` to the end of its line, and from `-->` if nothing but space stands before
it. -/

namespace Unravel.Source.Scan

open Text

def skipLine : Scan Unit := do
  let _ ← takeWhile (!isLineBreak ·)
  match ← peek with
  | some ch =>
    skip 1
    breakLine ch
  | none => return ()

def skipBlock : Scan Unit :=
  iterate (fun () => do
    match ← peek with
    | none => fail illegal
    | some ch =>
      if ch == '*' && (← peekAt 1) == some '/' then
        skip 2
        return .inr ()
      else
        skip 1
        if isLineBreak ch then breakLine ch
        return .inl ()) ()

/-- Skips to the next token. `fresh` says that only space was read in this line. -/
def skipBlank : Scan Unit := do
  iterate (fun fresh => do
    match ← peek with
    | none => return .inr ()
    | some ch =>
      if isSpace ch then
        skip 1
        return .inl fresh
      else if isLineBreak ch then
        skip 1
        breakLine ch
        return .inl true
      else if ← startsWith "//" then
        skip 2
        skipLine
        return .inl true
      else if ← startsWith "/*" then
        skip 2
        skipBlock
        return .inl fresh
      else if fresh && (← startsWith "-->") then
        skip 3
        skipLine
        return .inl fresh
      else if ← startsWith "<!--" then
        skip 4
        skipLine
        return .inl fresh
      else return .inr ()) ((← get).offset == 0)

end Unravel.Source.Scan
