import Unravel.Source.Object
import Unravel.Tree.Fold
import Unravel.Tree.Walk

/-! Expressions. Parentheses leave no node, but an expression that begins with them starts at the
opening one. Arrow functions are recognised behind their parameters, which are then read again as
patterns. -/

namespace Unravel.Source

def arrowHead (isAsync : Bool) (params : List Node) : Node :=
  .mk (Tag.fresh none)
    (.foreign (if isAsync then "AsyncArrowParameterPlaceHolder" else "ArrowParameterPlaceHolder"))
    [.many (params.map some)]

def arrowParams? : Node → Option (Bool × List Node)
  | .mk t (.identifier name) ss => some (false, [.mk t (.identifier name) ss])
  | n =>
    if isForeign "ArrowParameterPlaceHolder" n then some (false, n.children)
    else if isForeign "AsyncArrowParameterPlaceHolder" n then some (true, n.children)
    else none

def isArrowHead (n : Node) : Bool :=
  isForeign "ArrowParameterPlaceHolder" n || isForeign "AsyncArrowParameterPlaceHolder" n

def boundNames : Node → List String :=
  Node.fold fun _ h slots =>
    let parts := slots.flatMap Slot.children
    match h with
    | .identifier name => [name]
    | .assignmentExpression _ | .foreign "AssignmentPattern" => (parts.take 1).flatMap (·.2)
    | .property _ | .foreign "Property[shorthand]" | .foreign "Property[get]"
    | .foreign "Property[set]" => (parts.drop 1).flatMap (·.2)
    | .arrayExpression | .objectExpression | .foreign "ArrayPattern" | .foreign "ObjectPattern"
    | .foreign "RestElement" | .foreign "SpreadElement" => parts.flatMap (·.2)
    | _ => []

namespace Parser

/-! Operands -/

def expectArrow : Parser Unit := do
  unless ← hasMark "=>" do expect "=>"

/-- What stands in parentheses after a first comma: more expressions, or the parameters of an arrow
function, which may end in a comma or a rest. -/
def groupItems (g : Grammar) (start : Token) (first : Node) : Parser Node :=
  iterate (fun items => do
    if ← hasMark "," then
      let _ ← next
      if ← hasMark ")" then
        let _ ← next
        return .inr (arrowHead false (items.map asPattern))
      else if ← hasMark "..." then
        unless (← context).bindable do unexpectedAhead
        let (rest, _) ← binding (restParam g)
        expect ")"
        expectArrow
        setContext ({ · with bindable := false })
        return .inr (arrowHead false ((items ++ [rest]).map asPattern))
      else return .inl (items ++ [← inherited (g .assignment)])
    else return .inr (node (locOf start) .sequenceExpression [.many (items.map some)])) [first]

/-- The closing parenthesis, behind which an arrow makes parameters of what was read. -/
def groupEnd (e : Node) : Parser Node := do
  expect ")"
  let e ← if ← hasMark "=>" then do
      if e.name? == some "yield" then pure (arrowHead false [e])
      else
        unless (← context).bindable do unexpectedAhead
        let params := if e.head == .sequenceExpression then e.children else [e]
        pure (arrowHead false (params.map asPattern))
    else pure e
  setContext ({ · with bindable := false })
  return e

def group (g : Grammar) : Parser Node := do
  expect "("
  if ← hasMark ")" then
    let _ ← next
    expectArrow
    return arrowHead false []
  let start ← lookahead
  if ← hasMark "..." then
    let (rest, _) ← binding (restParam g)
    expect ")"
    expectArrow
    return arrowHead false [rest]
  setContext ({ · with bindable := true })
  let first ← inherited (g .assignment)
  let e ← if ← hasMark "," then do
      setContext ({ · with assignable := false })
      groupItems g start first
    else pure first
  if isArrowHead e then return e else groupEnd e

def template (g : Grammar) : Parser Node := do
  let l ← here
  iterate (fun (first : Bool) => do
    match (← lookahead).lexeme with
    | .template _ head tail =>
      if first && !head then throw .emptySubstitution
      let _ ← next
      if tail then return .inr (foreign l "TemplateLiteral" [])
      let _ ← expression g
      return .inl false
    | _ => fail Scan.illegal) true

def word (g : Grammar) (l : Loc) (name : String) : Parser Node := do
  if (← context).allowAwait && name == "await" then unexpectedAhead
  if ← hasAsyncFunction then functionExpression g
  else
    let _ ← next
    return node l (.identifier name) []

def literal (l : Loc) (value : Value) : Parser Node := do
  notTarget
  let _ ← next
  return node l (.literal value) []

def keywordOperand (g : Grammar) (l : Loc) (name : String) : Parser Node := do
  let c ← context
  if !c.strict && (name == "let" || (name == "yield" && c.allowYield)) then
    let _ ← next
    return node l (.identifier name) []
  notTarget
  match name with
  | "function" => functionExpression g
  | "this" =>
    let _ ← next
    return node l .thisExpression []
  | "class" => classNode g "ClassExpression" false
  | "import" =>
    if (← peekNext).lexeme == .punctuator "(" then
      let _ ← next
      return foreign l "Import" []
    else unexpectedNext
  | _ => unexpectedNext

def primary (g : Grammar) : Parser Node := do
  let l ← here
  let t ← lookahead
  match t.lexeme with
  | .identifier name => word g l name
  | .number value octal =>
    if octal && (← context).strict then refuse t strictOctal
    literal l (.number value)
  | .string value _ octal =>
    if octal && (← context).strict then refuse t strictOctal
    literal l (.str value)
  | .boolean b => literal l (.bool b)
  | .null => literal l .null
  | .template _ _ _ => template g
  | .punctuator "(" =>
    setContext ({ · with bindable := false })
    inherited (group g)
  | .punctuator "[" => inherited (arrayInitializer g)
  | .punctuator "\x7b" => inherited (objectInitializer g)
  | .punctuator "/" | .punctuator "/=" =>
    notTarget
    match (← nextRegexp).lexeme with
    | .regexp pattern flags => return node l (.regexpLiteral pattern flags) []
    | _ => unexpectedAhead
  | .keyword name => keywordOperand g l name
  | _ => unexpectedNext

/-! Members and calls -/

def arguments (g : Grammar) (item : Parser Node) : Parser (List Node) := do
  expect "("
  let items ← manyUntil ")" do
    let a ← if ← hasMark "..." then spread g else isolated item
    unless ← hasMark ")" do expect ","
    return a
  expect ")"
  return items

def staticMember (l : Loc) (object : Node) : Parser Node := do
  memberTarget
  expect "."
  return Node.memberExpression (Tag.fresh (some l)) false object (← wordName)

def computedMember (g : Grammar) (l : Loc) (object : Node) : Parser Node := do
  memberTarget
  expect "["
  let key ← isolated (expression g)
  expect "]"
  return Node.memberExpression (Tag.fresh (some l)) true object key

def opensTemplate : Lexeme → Bool
  | .template _ head _ => head
  | _ => false

def member? (g : Grammar) (l : Loc) (object : Node) : Parser (Option Node) := do
  if ← hasMark "." then return some (← staticMember l object)
  else if ← hasMark "[" then return some (← computedMember g l object)
  else if opensTemplate (← lookahead).lexeme then
    let _ ← template g
    return some (foreign l "TaggedTemplateExpression" [object])
  else return none

def newExpression (g : Grammar) : Parser Node := do
  let l ← here
  let _ ← next
  if ← hasMark "." then
    let _ ← next
    if (← context).inFunction && (← hasWord "target") then
      let _ ← next
      return foreign l "MetaProperty" []
    else unexpectedAhead
  else if ← hasKeyword "import" then unexpectedAhead
  else
    let callee ← isolated (g .callee)
    let args ← if ← hasMark "(" then arguments g (g .assignment) else pure []
    notTarget
    return node l .newExpression [.one (some callee), .many (args.map some)]

def operand (g : Grammar) : Parser Node := do
  if ← hasKeyword "new" then inherited (newExpression g) else inherited (primary g)

def superNode (marks : List String) : Parser Node := do
  let l ← here
  let _ ← next
  let t ← lookahead
  unless marks.any (fun mark => t.lexeme == .punctuator mark) do unexpectedAhead
  return foreign l "Super" []

def callee (g : Grammar) : Parser Node := do
  let l := locOf (← lookahead)
  let e ← if (← hasKeyword "super") && (← context).inFunction then superNode ["[", "."]
    else operand g
  iterate (fun e => do
    match ← member? g l e with
    | some m => return .inl m
    | none => return .inr e) e

/-- A call. Behind `async` in the same line the arguments may turn out to be parameters. -/
def callOf (g : Grammar) (start : Token) (maybeAsync : Bool) (e : Node) : Parser Node := do
  let isAsync := maybeAsync && start.line == (← lookahead).line
  notTarget
  let item := if isAsync then do
      let a ← g .assignment
      setContext ({ · with patternMark := none })
      return a
    else g .assignment
  let args ← arguments g item
  if isForeign "Import" e && args.length != 1 then failAhead "Unexpected token"
  if isAsync && (← hasMark "=>") then return arrowHead true (args.map asPattern)
  else return Node.callExpression (Tag.fresh (some (locOf start))) e (args.map some)

def call (g : Grammar) : Parser Node := do
  let start ← lookahead
  let maybeAsync ← hasWord "async"
  withIn true do
    let e ← if (← hasKeyword "super") && (← context).inFunction then superNode ["(", ".", "["]
      else operand g
    iterate (fun e => do
      if ← hasMark "(" then return .inl (← callOf g start maybeAsync e)
      match ← member? g (locOf start) e with
      | some m => return .inl m
      | none => return .inr e) e

/-! Operators -/

def invalidTarget : String := "Invalid left-hand side in assignment"

def checkTarget (e : Node) (text : String) : Parser Unit := do
  if (← context).strict && e.name?.any isRestricted then failAhead text
  unless (← context).assignable do failAhead invalidTarget

def update (g : Grammar) : Parser Node := do
  let start ← lookahead
  if (← hasMark "++") || (← hasMark "--") then
    let t ← next
    let e ← inherited (g .unary)
    checkTarget e
      "Prefix increment/decrement may not have eval or arguments operand in strict mode"
    notTarget
    return node (locOf start) (.updateExpression t.lexeme.text true) [.one (some e)]
  let e ← inherited (call g)
  if !(← get).newline && ((← hasMark "++") || (← hasMark "--")) then
    checkTarget e
      "Postfix increment/decrement may not have eval or arguments operand in strict mode"
    notTarget
    let t ← next
    return node (locOf start) (.updateExpression t.lexeme.text false) [.one (some e)]
  else return e

def isUnaryMark : Lexeme → Bool
  | .punctuator mark => ["+", "-", "~", "!"].contains mark
  | .keyword name => ["delete", "void", "typeof"].contains name
  | _ => false

def unary (g : Grammar) : Parser Node := do
  let start ← lookahead
  if isUnaryMark start.lexeme then
    let _ ← next
    let e ← inherited (g .unary)
    if (← context).strict && start.lexeme == .keyword "delete" && e.name?.isSome then
      failAhead "Delete of an unqualified identifier in strict mode."
    notTarget
    return node (locOf start) (.unaryExpression start.lexeme.text) [.one (some e)]
  else if (← context).allowAwait && (← hasWord "await") then
    let l ← here
    let _ ← next
    return foreign l "AwaitExpression" [← g .unary]
  else update g

def isUnaryExpression (n : Node) : Bool := n.kind == .unaryExpression

def exponent (g : Grammar) : Parser Node := do
  let start ← lookahead
  let e ← inherited (unary g)
  if !isUnaryExpression e && (← hasMark "**") then
    let _ ← next
    notTarget
    let right ← isolated (g .exponent)
    return Node.binaryExpression (Tag.fresh (some (locOf start))) "**" e right
  else return e

structure Waiting where
  left : Node
  start : Token
  operator : String
  rank : Nat

def Waiting.close (w : Waiting) (l : Loc) (right : Node) : Node :=
  node l
    (if w.operator == "||" || w.operator == "&&" then .logicalExpression w.operator
      else .binaryExpression w.operator)
    [.one (some w.left), .one (some right)]

def reduce (rank : Nat) : List Waiting → Node → Token → List Waiting × Node × Token
  | [], right, start => ([], right, start)
  | w :: ws, right, start =>
    if rank ≤ w.rank then reduce rank ws (w.close (locOf w.start) right) w.start
    else (w :: ws, right, start)

def closeAll : List Waiting → Node → Token → Node
  | [], right, _ => right
  | w :: ws, right, start => closeAll ws (w.close (locFrom start.lineStart w.start) right) w.start

def rank : Parser Nat := do
  match (← lookahead).lexeme with
  | .punctuator mark => return precedence mark
  | .keyword "instanceof" => return 7
  | .keyword "in" => return if (← context).allowIn then 7 else 0
  | _ => return 0

def binary (g : Grammar) : Parser Node := do
  let start ← lookahead
  let first ← inherited (exponent g)
  iterate (fun ((ws, right, start) : List Waiting × Node × Token) => do
    let rank ← rank
    if rank = 0 then return .inr (closeAll ws right start)
    let (ws, left, start) := reduce rank ws right start
    let t ← next
    notTarget
    let opStart ← lookahead
    let operand ← isolated (exponent g)
    return .inl (⟨left, start, t.lexeme.text, rank⟩ :: ws, operand, opStart)) ([], first, start)

def conditional (g : Grammar) : Parser Node := do
  let start ← lookahead
  let test ← inherited (binary g)
  if ← hasMark "?" then
    let _ ← next
    let consequent ← withIn true (isolated (g .assignment))
    expect ":"
    let alternate ← isolated (g .assignment)
    notTarget
    return Node.conditionalExpression (Tag.fresh (some (locOf start))) test consequent alternate
  else return test

/-! Arrow functions and assignments -/

/-- Whether an expression cannot be a parameter: a default that yields a value, or `await` as the
name of a parameter of an asynchronous function. -/
def isRefusedParam (isAsync : Bool) (n : Node) : Bool :=
  if isForeign "AssignmentPattern" n then
    (n.children.drop 1).any fun right => isForeign "YieldExpression" right && !right.children.isEmpty
  else isAsync && n.name? == some "await"

def coverParams (isAsync : Bool) (nodes : List Node) : Parser Params := do
  let c ← context
  if nodes.any (isRefusedParam isAsync) then unexpectedAhead
  if (c.strict || !c.allowYield) && nodes.any (isForeign "YieldExpression") then unexpectedAhead
  let p := (nodes.flatMap boundNames).foldl (fun p name => p.note c.strict none name)
    (Params.empty none)
  if p.message == some duplicateParam then fail duplicateParam
  return { p with simple := nodes.all (·.name?.isSome), nodes := nodes }

def arrow (g : Grammar) (start : Token) (e : Node) : Parser Node := do
  notTarget
  match arrowParams? e with
  | none => return e
  | some (isAsync, nodes) =>
    let p ← coverParams isAsync nodes
    if (← get).newline then unexpectedAhead
    setContext ({ · with patternMark := none })
    withYield true <| withAwait isAsync do
      let _ ← strictChecked p none do
        expect "=>"
        if ← hasMark "\x7b" then withIn true (functionBody g) else isolated (g .assignment)
      return foreign (locOf start) "ArrowFunctionExpression" []

def hasAsyncParam (start : Token) : Parser Bool := do
  let t ← lookahead
  return start.lexeme == .identifier "async" && start.line == t.line
    && (t.lexeme.isIdentifier || t.lexeme == .keyword "yield")

def startsExpression : Lexeme → Bool
  | .punctuator mark =>
    ["[", "(", "\x7b", "+", "-", "!", "~", "++", "--", "/", "/="].contains mark
  | .keyword name =>
    ["class", "delete", "function", "let", "new", "super", "this", "typeof", "void",
      "yield"].contains name
  | _ => true

def yieldExpression (g : Grammar) : Parser Node := do
  let l ← here
  expectKeyword "yield"
  if (← get).newline then return foreign l "YieldExpression" []
  withYield false do
    if ← hasMark "*" then
      let _ ← next
      return foreign l "YieldExpression" [← g .assignment]
    else if startsExpression (← lookahead).lexeme then
      return foreign l "YieldExpression" [← g .assignment]
    else return foreign l "YieldExpression" []

def assignTo (g : Grammar) (start : Token) (e : Node) : Parser Node := do
  unless (← context).assignable do failAhead invalidTarget
  if (← context).strict then
    if e.name?.any isRestricted then
      refuse start "Assignment to eval or arguments is not allowed in strict mode"
    if e.name?.any isStrictReserved then refuse start strictReserved
  unless ← hasMark "=" do notTarget
  let t ← next
  let operator := t.lexeme.text
  let right ← isolated (g .assignment)
  setContext ({ · with patternMark := none })
  return Node.assignmentExpression (Tag.fresh (some (locOf start))) operator
    (if operator == "=" then asPattern e else e) right

def isAssignmentLexeme : Lexeme → Bool
  | .punctuator mark => isAssignmentMark mark
  | _ => false

def assignment (g : Grammar) : Parser Node := do
  if !(← context).allowYield && (← hasKeyword "yield") then yieldExpression g
  else
    let start ← lookahead
    let e ← conditional g
    let e ← if ← hasAsyncParam start then do
        pure (arrowHead true [asPattern (← primary g)])
      else pure e
    if isArrowHead e || (← hasMark "=>") then arrow g start e
    else if isAssignmentLexeme (← lookahead).lexeme then assignTo g start e
    else return e

end Parser
end Unravel.Source
