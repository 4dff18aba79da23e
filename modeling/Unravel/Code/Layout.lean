import Unravel.Settings
import Unravel.Text.LineBreak
import Unravel.Tree.Node

/-! The blanks of printed code, and the precedence of expressions. -/

namespace Unravel.Code

open Text

structure Layout where
  newline : String
  space : String
  indent : String
  quote : Char

def Layout.ofStyle (s : Style) : Layout :=
  if s.compact then ⟨"", "", "", s.quotes.mark⟩ else ⟨"\n", " ", s.indent, s.quotes.mark⟩

def firstChar? (s : String) : Option Char := s.toList.head?

def lastChar? (s : String) : Option Char := if s.isEmpty then none else some s.back

def isBlankChar (c : Char) : Bool := isSpace c || isLineBreak c

def hasLineBreak (s : String) : Bool := s.any isLineBreak

def endsLine (s : String) : Bool := (lastChar? s).any isLineBreak

/-- Puts two pieces together: with a blank if they would run into one token, without one next to a
blank, and else as the layout has it. -/
def Layout.join (lay : Layout) (left right : String) : String :=
  match lastChar? left, firstChar? right with
  | none, _ => right
  | _, none => left
  | some l, some r =>
    if (l == '+' || l == '-') && l == r || isNamePart l && isNamePart r || l == '/' && r == 'i' then
      left ++ " " ++ right
    else if isBlankChar l || isBlankChar r then left ++ right
    else left ++ lay.space ++ right

namespace Precedence

def sequence : Nat := 0
def assignment : Nat := 1
def conditional : Nat := 2
def coalesce : Nat := 3
def unary : Nat := 15
def postfixed : Nat := 16
def call : Nat := 18
def construct : Nat := 19
def member : Nat := 21

def ofOperator? (operator : String) : Option Nat :=
  match operator with
  | "??" => some 3
  | "||" => some 4
  | "&&" => some 5
  | "|" => some 6
  | "^" => some 7
  | "&" => some 8
  | "==" | "!=" | "===" | "!==" | "is" | "isnt" => some 9
  | "<" | ">" | "<=" | ">=" | "in" | "instanceof" => some 10
  | "<<" | ">>" | ">>>" => some 11
  | "+" | "-" => some 12
  | "*" | "%" | "/" => some 13
  | "**" => some 14
  | _ => none

end Precedence

structure Context where
  precedence : Nat := 0
  allowIn : Bool := true
  allowCall : Bool := true
  coalescing : Bool := false
  /-- The target of a `for … in`, where a declaration has one declarator and no semicolon. -/
  target : Bool := false
  base : String

abbrev Printer := Context → Except Fault String

abbrev Child := Node × Printer

def parenthesize (c : Context) (precedence : Nat) (text : String) : String :=
  if precedence < c.precedence then "(" ++ text ++ ")" else text

end Unravel.Code
