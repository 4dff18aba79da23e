import Unravel.Source.Lexer
import Unravel.Tree.Node

/-! The machinery of the grammar: one token of lookahead, the places that errors report, and what the
surroundings allow. Productions that call each other are tied together by a table of goals. -/

namespace Unravel.Source

structure Marker where
  offset : Nat
  line : Nat
  column : Int
deriving DecidableEq, Repr

def Cursor.marker (c : Cursor) : Marker := ⟨c.offset, c.line, c.column c.offset⟩

def Marker.loc (m : Marker) : Loc := ⟨m.line, m.column⟩

/-- What the surroundings of a production allow, and what is known of the expression just read. -/
structure Context where
  strict : Bool
  allowIn : Bool
  allowYield : Bool
  allowAwait : Bool
  allowStrictDirective : Bool
  inFunction : Bool
  inLoop : Bool
  inSwitch : Bool
  labels : List String
  assignable : Bool
  bindable : Bool
  /-- The first `=` that only a pattern may hold. -/
  patternMark : Option Token

def Context.script : Context :=
  { strict := false, allowIn := true, allowYield := true, allowAwait := false,
    allowStrictDirective := true, inFunction := false, inLoop := false, inSwitch := false,
    labels := [], assignable := false, bindable := false, patternMark := none }

structure State where
  cursor : Cursor
  lookahead : Token
  newline : Bool
  start : Cursor
  last : Marker
  context : Context
  bound : List Token

abbrev Parser := StateT State Reading

inductive Goal where
  | assignment
  | unary
  | exponent
  | callee
  | call
  | pattern (kind : String)
  | statement
  | item
deriving DecidableEq, Repr

abbrev Grammar := Goal → Parser Node

/-- In strict code a reserved name is a keyword. -/
def Token.inContext (strict : Bool) (t : Token) : Token :=
  match t.lexeme with
  | .identifier name =>
    if strict && isStrictReserved name then { t with lexeme := .keyword name } else t
  | _ => t

namespace Parser

/-! Tokens -/

def scan {α : Type} (s : Scan α) : Parser α := do
  let (a, c) ← s.run (← get).cursor
  modify fun st => { st with cursor := c }
  return a

def lookahead : Parser Token := return (← get).lookahead

def context : Parser Context := return (← get).context

def setContext (f : Context → Context) : Parser Unit :=
  modify fun s => { s with context := f s.context }

def next : Parser Token := do
  let s ← get
  scan Scan.skipBlank
  let start := (← get).cursor
  let t ← scan Scan.lex
  modify fun st =>
    { st with
      lookahead := t.inContext s.context.strict
      newline := s.lookahead.line != t.line
      start := start
      last := s.cursor.marker }
  return s.lookahead

def nextRegexp : Parser Token := do
  modify fun s => { s with cursor := s.start }
  let t ← scan Scan.regexp
  modify fun s => { s with lookahead := t }
  next

def peekNext : Parser Token :=
  scan (Scan.ahead do
    Scan.skipBlank
    Scan.lex)

def hasMark (mark : String) : Parser Bool := return (← lookahead).lexeme == .punctuator mark

def hasKeyword (name : String) : Parser Bool := return (← lookahead).lexeme == .keyword name

def hasWord (name : String) : Parser Bool := return (← lookahead).lexeme == .identifier name

def atEnd : Parser Bool := return (← lookahead).lexeme.isEnd

/-! Places -/

def here : Parser Loc := return (← get).start.marker.loc

/-- Where a node that starts with a token starts. A token of several lines is counted from the start
of its last line, unless the start of its first line is known. -/
def locFrom (lineStart : Nat) (t : Token) : Loc :=
  let column := (t.start : Int) - t.lineStart
  if column < 0 then ⟨t.line - 1, column + lineStart⟩ else ⟨t.line, column⟩

def locOf (t : Token) : Loc := locFrom 0 t

def node (l : Loc) (h : Head) (slots : List (Slot Node)) : Node := .mk (Tag.fresh (some l)) h slots

def foreign (l : Loc) (name : String) (children : List Node) : Node :=
  node l (.foreign name) [.many (children.map some)]

/-! Errors -/

/-- Refuses what was read: the place is the end of the last token. -/
def fail {α : Type} (text : String) : Parser α := do
  let s ← get
  throw (.notAProgram text s.last.line (s.last.column + 1))

/-- The same column, in the line that reading has reached. -/
def failAhead {α : Type} (text : String) : Parser α := do
  let s ← get
  throw (.notAProgram text s.cursor.line (s.last.column + 1))

/-- Refuses a token. Its column is counted in the line of the last token. -/
def refuse {α : Type} (t : Token) (text : String) : Parser α := do
  let s ← get
  throw (.notAProgram text t.line (t.start - (s.last.offset - s.last.column) + 1))

def unexpectedText (strict : Bool) : Lexeme → String
  | .endOfInput => "Unexpected end of input"
  | .identifier _ => "Unexpected identifier"
  | .number _ _ => "Unexpected number"
  | .string _ _ _ => "Unexpected string"
  | .template raw _ _ => "Unexpected quasi " ++ raw
  | .keyword name =>
    if isFutureReserved name then "Unexpected reserved word"
    else if strict && isStrictReserved name then "Use of future reserved word in strict mode"
    else "Unexpected token " ++ name
  | l => "Unexpected token " ++ l.text

def unexpected {α : Type} (t : Token) : Parser α := do
  refuse t (unexpectedText (← context).strict t.lexeme)

def unexpectedNext {α : Type} : Parser α := do unexpected (← next)

def unexpectedAhead {α : Type} : Parser α := do unexpected (← lookahead)

def expect (mark : String) : Parser Unit := do
  let t ← next
  unless t.lexeme == .punctuator mark do unexpected t

def expectKeyword (name : String) : Parser Unit := do
  let t ← next
  unless t.lexeme == .keyword name do unexpected t

/-- The end of a statement: a semicolon, or a place where one may be left out. -/
def endStatement : Parser Unit := do
  if ← hasMark ";" then
    let _ ← next
  else unless (← get).newline do
    unless (← atEnd) || (← hasMark "\x7d") do unexpectedAhead
    modify fun s => { s with last := s.start.marker }

/-! Repetition -/

/-- Runs a step until it gives a result. A step that goes on has read a token, so the length of the
text bounds their number. -/
def iterate {α β : Type} (step : β → Parser (β ⊕ α)) (start : β) : Parser α := do
  go ((← get).cursor.size + 2) start
where
  go : Nat → β → Parser α
    | 0, _ => throw .outOfFuel
    | n + 1, b => do
      match ← step b with
      | .inl b => go n b
      | .inr a => return a

def many {α : Type} (more : Parser Bool) (item : Parser α) : Parser (List α) :=
  iterate (fun items => do
    if ← more then return .inl ((← item) :: items)
    else return .inr items.reverse) []

def manyUntil {α : Type} (close : String) (item : Parser α) : Parser (List α) :=
  many (return !(← hasMark close)) item

def commaList {α : Type} (item : Parser α) : Parser (List α) := do
  let first ← item
  let more ← many (hasMark ",") do
    let _ ← next
    item
  return first :: more

/-! Surroundings -/

def within {α : Type} (enter : Context → Context) (restore : Context → Context → Context)
    (p : Parser α) : Parser α := do
  let before ← context
  setContext enter
  let a ← p
  setContext (restore before)
  return a

def withIn {α : Type} (allow : Bool) (p : Parser α) : Parser α :=
  within ({ · with allowIn := allow }) (fun before c => { c with allowIn := before.allowIn }) p

def withYield {α : Type} (allow : Bool) (p : Parser α) : Parser α :=
  within ({ · with allowYield := allow }) (fun before c => { c with allowYield := before.allowYield }) p

def withAwait {α : Type} (allow : Bool) (p : Parser α) : Parser α :=
  within ({ · with allowAwait := allow }) (fun before c => { c with allowAwait := before.allowAwait }) p

def inLoop {α : Type} (p : Parser α) : Parser α :=
  within ({ · with inLoop := true }) (fun before c => { c with inLoop := before.inLoop }) p

def inSwitch {α : Type} (p : Parser α) : Parser α :=
  within ({ · with inSwitch := true }) (fun before c => { c with inSwitch := before.inSwitch }) p

def notTarget : Parser Unit := setContext ({ · with assignable := false, bindable := false })

def memberTarget : Parser Unit := setContext ({ · with assignable := true, bindable := false })

def isolated {α : Type} (p : Parser α) : Parser α := do
  let before ← context
  setContext ({ · with assignable := true, bindable := true, patternMark := none })
  let a ← p
  match (← context).patternMark with
  | some t => unexpected t
  | none =>
    setContext ({ · with
      assignable := before.assignable, bindable := before.bindable,
      patternMark := before.patternMark })
    return a

/-- A part of an expression: the whole can become a pattern only if the part can. -/
def inherited {α : Type} (p : Parser α) : Parser α := do
  let before ← context
  setContext ({ · with assignable := true, bindable := true, patternMark := none })
  let a ← p
  setContext fun c => { c with
    assignable := c.assignable && before.assignable
    bindable := c.bindable && before.bindable
    patternMark := before.patternMark.or c.patternMark }
  return a

def binding {α : Type} (p : Parser α) : Parser (α × List Token) := do
  let before := (← get).bound
  modify fun s => { s with bound := [] }
  let a ← p
  let names := (← get).bound.reverse
  modify fun s => { s with bound := before }
  return (a, names)

def bindName (t : Token) : Parser Unit := modify fun s => { s with bound := t :: s.bound }

/-! Parts that every production may use -/

def expression (g : Grammar) : Parser Node := do
  let start ← lookahead
  match ← commaList (isolated (g .assignment)) with
  | [e] => return e
  | es => return node (locOf start) .sequenceExpression [.many (es.map some)]

def wordName : Parser Node := do
  let l ← here
  let t ← next
  unless t.lexeme.isName do unexpected t
  return node l (.identifier t.lexeme.text) []

def strictReserved : String := "Use of future reserved word in strict mode"

def variableName (kind : String) : Parser Node := do
  let l ← here
  let t ← next
  let c ← context
  match t.lexeme with
  | .keyword "yield" =>
    if c.strict then refuse t strictReserved
    else unless c.allowYield do unexpected t
  | .identifier name => if c.allowAwait && name == "await" then unexpected t
  | other =>
    if c.strict && other.isKeyword && isStrictReserved other.text then refuse t strictReserved
    else if c.strict || other.text != "let" || kind != "var" then unexpected t
  return node l (.identifier t.lexeme.text) []

def hasAsyncFunction : Parser Bool := do
  if ← hasWord "async" then
    let line := (← get).cursor.line
    let t ← peekNext
    return line == t.line && t.lexeme == .keyword "function"
  else return false

end Parser

def isForeign (name : String) (n : Node) : Bool := n.head == .foreign name

def asPattern : Node → Node
  | .mk t .arrayExpression ss => .mk t (.foreign "ArrayPattern") ss
  | .mk t .objectExpression ss => .mk t (.foreign "ObjectPattern") ss
  | .mk t (.assignmentExpression _) ss => .mk t (.foreign "AssignmentPattern") ss
  | .mk t (.foreign "SpreadElement") ss => .mk t (.foreign "RestElement") ss
  | n => n

end Unravel.Source
