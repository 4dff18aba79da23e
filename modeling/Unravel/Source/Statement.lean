import Unravel.Source.Expression

/-! Statements and declarations. -/

namespace Unravel.Source.Parser

def block (g : Grammar) : Parser Node := do
  let l ← here
  expect "\x7b"
  let items ← manyUntil "\x7d" (g .item)
  expect "\x7d"
  return Node.blockStatement (Tag.fresh (some l)) (items.map some)

def expressionStatement (g : Grammar) : Parser Node := do
  let l ← here
  let e ← expression g
  endStatement
  return Node.expressionStatement (Tag.fresh (some l)) e

def condition (g : Grammar) : Parser Node := do
  expect "("
  let e ← expression g
  expect ")"
  return e

/-! Declarations -/

def declarator (l : Loc) (id : Node) (init : Option Node) : Node :=
  Node.variableDeclarator (Tag.fresh (some l)) (some id) init

def declared (g : Grammar) (kind : String) : Parser Node := do
  let (id, _) ← binding (pattern g kind)
  if (← context).strict && id.name?.any isRestricted then
    failAhead "Variable name may not be eval or arguments in strict mode"
  return id

def variableBinding (g : Grammar) (inFor : Bool) : Parser Node := do
  let l ← here
  let id ← declared g "var"
  if ← hasMark "=" then
    let _ ← next
    return declarator l id (some (← isolated (g .assignment)))
  if id.name?.isNone && !inFor then expect "="
  return declarator l id none

/-- One binding of `let` or `const`. A constant needs a value unless a loop gives it one. -/
def lexicalBinding (g : Grammar) (kind : String) (inFor : Bool) : Parser Node := do
  let l ← here
  let id ← declared g kind
  if kind == "const" then
    if (← hasKeyword "in") || (← hasWord "of") then return declarator l id none
    unless ← hasMark "=" do fail "Missing initializer in const declaration"
    let _ ← next
    return declarator l id (some (← isolated (g .assignment)))
  else if (!inFor && id.name?.isNone) || (← hasMark "=") then
    expect "="
    return declarator l id (some (← isolated (g .assignment)))
  else return declarator l id none

def declaration (l : Loc) (kind : String) (items : List Node) : Node :=
  Node.variableDeclaration (Tag.fresh (some l)) kind (items.map some)

def variableStatement (g : Grammar) : Parser Node := do
  let l ← here
  expectKeyword "var"
  let items ← commaList (variableBinding g false)
  endStatement
  return declaration l "var" items

def lexicalDeclaration (g : Grammar) : Parser Node := do
  let l ← here
  let kind := (← next).lexeme.text
  let items ← commaList (lexicalBinding g kind false)
  endStatement
  return declaration l kind items

def startsBinding : Lexeme → Bool
  | .identifier _ | .keyword "let" | .keyword "yield" => true
  | .punctuator mark => mark == "[" || mark == "\x7b"
  | _ => false

/-! Branches and loops -/

def strictFunction : String :=
  "In strict mode code, functions can only be declared at top level or inside a block"

def branch (g : Grammar) : Parser Node := do
  if (← context).strict && (← hasKeyword "function") then failAhead strictFunction
  g .statement

def ifStatement (g : Grammar) : Parser Node := do
  let l ← here
  expectKeyword "if"
  let test ← condition g
  let consequent ← branch g
  let alternate ← if ← hasKeyword "else" then do
      let _ ← next
      pure (some (← branch g))
    else pure none
  return node l .ifStatement [.one (some test), .one (some consequent), .one alternate]

def doWhileStatement (g : Grammar) : Parser Node := do
  let l ← here
  expectKeyword "do"
  let body ← inLoop (g .statement)
  expectKeyword "while"
  let test ← condition g
  if ← hasMark ";" then
    let _ ← next
  return node l .doWhileStatement [.one (some body), .one (some test)]

def whileStatement (g : Grammar) : Parser Node := do
  let l ← here
  expectKeyword "while"
  let test ← condition g
  let body ← inLoop (g .statement)
  return node l .whileStatement [.one (some test), .one (some body)]

inductive ForHead where
  | counted (init test update : Option Node)
  | each (isIn : Bool) (left right : Node)

def countedHead (g : Grammar) (init : Option Node) : Parser ForHead := do
  let test ← if ← hasMark ";" then pure none else do pure (some (← expression g))
  expect ";"
  let update ← if ← hasMark ")" then pure none else do pure (some (← expression g))
  return .counted init test update

def inHead (g : Grammar) (left : Node) : Parser ForHead := do
  let _ ← next
  return .each true left (← expression g)

def ofHead (g : Grammar) (left : Node) : Parser ForHead := do
  let _ ← next
  return .each false left (← g .assignment)

def init? : Node → Option Node
  | .mk _ .variableDeclarator [_, .one init] => init
  | _ => none

def isPattern (n : Node) : Bool := isForeign "ArrayPattern" n || isForeign "ObjectPattern" n

def target? : Node → Option Node
  | .mk _ .variableDeclarator [.one id, _] => id
  | _ => none

def forVariable (g : Grammar) : Parser ForHead := do
  let l ← here
  let _ ← next
  let items ← withIn false (commaList (variableBinding g true))
  let left := declaration l "var" items
  match items with
  | [item] =>
    if ← hasKeyword "in" then
      if (init? item).isSome && ((← context).strict || (target? item).any isPattern) then
        failAhead "for-in loop variable declaration may not have an initializer"
      inHead g left
    else if (init? item).isNone && (← hasWord "of") then ofHead g left
    else
      expect ";"
      countedHead g (some left)
  | _ =>
    expect ";"
    countedHead g (some left)

def forLexical (g : Grammar) : Parser ForHead := do
  let l ← here
  let kind := (← next).lexeme.text
  if !(← context).strict && (← lookahead).lexeme.text == "in" then
    inHead g (node l (.identifier kind) [])
  else
    let items ← withIn false (commaList (lexicalBinding g kind true))
    let left := declaration l kind items
    let bare := items.length = 1 && items.all fun item => (init? item).isNone
    if bare && (← hasKeyword "in") then inHead g left
    else if bare && (← hasWord "of") then ofHead g left
    else
      endStatement
      countedHead g (some left)

def isAssignment (n : Node) : Bool := n.kind == .assignmentExpression

def forExpression (g : Grammar) : Parser ForHead := do
  let start ← lookahead
  let first ← withIn false (inherited (g .assignment))
  let refused := !(← context).assignable || isAssignment first
  if ← hasKeyword "in" then
    if refused then failAhead "Invalid left-hand side in for-in"
    inHead g (asPattern first)
  else if ← hasWord "of" then
    if refused then failAhead "Invalid left-hand side in for-loop"
    ofHead g (asPattern first)
  else
    let more ← many (hasMark ",") do
      let _ ← next
      isolated (g .assignment)
    let init := if more.isEmpty then first
      else node (locOf start) .sequenceExpression [.many ((first :: more).map some)]
    expect ";"
    countedHead g (some init)

def forHead (g : Grammar) : Parser ForHead := do
  if ← hasMark ";" then
    let _ ← next
    countedHead g none
  else if ← hasKeyword "var" then forVariable g
  else if (← hasKeyword "const") || (← hasKeyword "let") then forLexical g
  else forExpression g

def forStatement (g : Grammar) : Parser Node := do
  let l ← here
  expectKeyword "for"
  expect "("
  let head ← forHead g
  expect ")"
  let body ← inLoop (isolated (g .statement))
  match head with
  | .counted init test update =>
    return node l .forStatement [.one init, .one test, .one update, .one (some body)]
  | .each true left right =>
    return node l .forInStatement [.one (some left), .one (some right), .one (some body)]
  | .each false left right => return foreign l "ForOfStatement" [left, right, body]

/-! Jumps and labels -/

def jumpLabel : Parser (Option Node) := do
  if (← lookahead).lexeme.isIdentifier && !(← get).newline then
    let id ← variableName ""
    let name := id.name?.getD ""
    unless (← context).labels.contains name do fail ("Undefined label '" ++ name ++ "'")
    return some id
  else return none

def continueStatement : Parser Node := do
  let l ← here
  expectKeyword "continue"
  let label ← jumpLabel
  endStatement
  if label.isNone && !(← context).inLoop then fail "Illegal continue statement"
  return node l .continueStatement [.one label]

def breakStatement : Parser Node := do
  let l ← here
  expectKeyword "break"
  let label ← jumpLabel
  endStatement
  let c ← context
  if label.isNone && !c.inLoop && !c.inSwitch then fail "Illegal break statement"
  return node l .breakStatement [.one label]

/-- A text or a template is returned even if it stands in the next line. -/
def returnStatement (g : Grammar) : Parser Node := do
  unless (← context).inFunction do failAhead "Illegal return statement"
  let l ← here
  expectKeyword "return"
  let ahead := (← lookahead).lexeme
  let stops := (← hasMark ";") || (← hasMark "\x7d") || (← get).newline || ahead.isEnd
  let argument ← if !stops || ahead.isString || ahead.isTemplate then do
      pure (some (← expression g))
    else pure none
  endStatement
  return Node.returnStatement (Tag.fresh (some l)) argument

def throwStatement (g : Grammar) : Parser Node := do
  let l ← here
  expectKeyword "throw"
  if (← get).newline then fail "Illegal newline after throw"
  let e ← expression g
  endStatement
  return node l .throwStatement [.one (some e)]

def labeledBody (g : Grammar) : Parser Node := do
  let t ← lookahead
  if t.lexeme == .keyword "class" then unexpectedAhead
  else if t.lexeme == .keyword "function" then
    let f ← functionDeclaration g
    if (← context).strict then refuse t strictFunction
    else if isForeign "GeneratorFunction" f then
      refuse t "Generator declarations are not allowed in legacy contexts"
    else return f
  else g .statement

def labeledStatement (g : Grammar) : Parser Node := do
  let l ← here
  let e ← expression g
  match e.name?, ← hasMark ":" with
  | some name, true =>
    let _ ← next
    if (← context).labels.contains name then
      fail ("Label '" ++ name ++ "' has already been declared")
    setContext fun c => { c with labels := name :: c.labels }
    let body ← labeledBody g
    setContext fun c => { c with labels := c.labels.erase name }
    return node l .labeledStatement [.one (some e), .one (some body)]
  | _, _ =>
    endStatement
    return Node.expressionStatement (Tag.fresh (some l)) e

/-! Switches and handlers -/

def switchCase (g : Grammar) : Parser Node := do
  let l ← here
  let test ← if ← hasKeyword "default" then do
      let _ ← next
      pure none
    else do
      expectKeyword "case"
      pure (some (← expression g))
  expect ":"
  let stops : Parser Bool :=
    return (← hasMark "\x7d") || (← hasKeyword "default") || (← hasKeyword "case")
  let body ← many (return !(← stops)) (g .item)
  return node l .switchCase [.one test, .many (body.map some)]

def isDefault : Node → Bool
  | .mk _ .switchCase (.one none :: _) => true
  | _ => false

def switchStatement (g : Grammar) : Parser Node := do
  let l ← here
  expectKeyword "switch"
  let discriminant ← condition g
  inSwitch do
    expect "\x7b"
    let cases ← iterate (fun cases => do
      if ← hasMark "\x7d" then return .inr cases.reverse
      let clause ← switchCase g
      if isDefault clause && cases.any isDefault then
        fail "More than one default clause in switch statement"
      return .inl (clause :: cases)) []
    expect "\x7d"
    return node l .switchStatement [.one (some discriminant), .many (cases.map some)]

def repeated? : List String → List String → Option String
  | _, [] => none
  | seen, name :: names => if seen.contains name then some name else repeated? (name :: seen) names

def catchClause (g : Grammar) : Parser Node := do
  let l ← here
  expectKeyword "catch"
  expect "("
  if ← hasMark ")" then unexpectedAhead
  let (param, names) ← binding (pattern g "")
  match repeated? [] (names.map (·.lexeme.text)) with
  | some name => failAhead ("Duplicate binding " ++ name)
  | none => pure ()
  if (← context).strict && param.name?.any isRestricted then
    failAhead "Catch variable may not be eval or arguments in strict mode"
  expect ")"
  let body ← block g
  return node l .catchClause [.one (some param), .one (some body)]

def tryStatement (g : Grammar) : Parser Node := do
  let l ← here
  expectKeyword "try"
  let body ← block g
  let handler ← if ← hasKeyword "catch" then do pure (some (← catchClause g)) else pure none
  let finalizer ← if ← hasKeyword "finally" then do
      let _ ← next
      pure (some (← block g))
    else pure none
  if handler.isNone && finalizer.isNone then fail "Missing catch or finally after try"
  return node l .tryStatement [.one (some body), .one handler, .one finalizer]

def withStatement (g : Grammar) : Parser Node := do
  if (← context).strict then failAhead "Strict mode code may not include a with statement"
  let l ← here
  expectKeyword "with"
  let object ← condition g
  return foreign l "WithStatement" [object, ← g .statement]

def debuggerStatement : Parser Node := do
  let l ← here
  expectKeyword "debugger"
  endStatement
  return foreign l "DebuggerStatement" []

def emptyStatement : Parser Node := do
  let l ← here
  expect ";"
  return Node.emptyStatement (Tag.fresh (some l))

def keywordStatement (g : Grammar) : String → Parser Node
  | "break" => breakStatement
  | "continue" => continueStatement
  | "debugger" => debuggerStatement
  | "do" => doWhileStatement g
  | "for" => forStatement g
  | "function" => functionDeclaration g
  | "if" => ifStatement g
  | "return" => returnStatement g
  | "switch" => switchStatement g
  | "throw" => throwStatement g
  | "try" => tryStatement g
  | "var" => variableStatement g
  | "while" => whileStatement g
  | "with" => withStatement g
  | _ => expressionStatement g

def statement (g : Grammar) : Parser Node := do
  match (← lookahead).lexeme with
  | .endOfInput => unexpectedAhead
  | .punctuator "\x7b" => block g
  | .punctuator ";" => emptyStatement
  | .identifier _ => if ← hasAsyncFunction then functionDeclaration g else labeledStatement g
  | .keyword name => keywordStatement g name
  | _ => expressionStatement g

def item (g : Grammar) : Parser Node := do
  setContext ({ · with assignable := true, bindable := true })
  let t ← lookahead
  match t.lexeme with
  | .keyword "export" => refuse t "Unexpected token"
  | .keyword "import" =>
    if (← peekNext).lexeme == .punctuator "(" then expressionStatement g
    else refuse t "Unexpected token"
  | .keyword "const" => lexicalDeclaration g
  | .keyword "class" => classNode g "ClassDeclaration" true
  | .keyword "let" =>
    if startsBinding (← peekNext).lexeme then lexicalDeclaration g else statement g
  | _ => statement g

end Unravel.Source.Parser
