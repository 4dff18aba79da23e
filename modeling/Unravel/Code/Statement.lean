import Unravel.Code.Expression

/-! Printing statements. -/

namespace Unravel.Code

def suffixed (lay : Layout) (c : Context) (body : Node) (text : String) : String :=
  if body.kind == .blockStatement && !endsLine text then text ++ lay.space
  else if endsLine text then text ++ c.base
  else text ++ lay.newline ++ c.base

def leftmost : Node → Node
  | .mk _ (.binaryExpression _) (.one (some left) :: _) => leftmost left
  | .mk _ (.logicalExpression _) (.one (some left) :: _) => leftmost left
  | .mk _ (.assignmentExpression _) (.one (some left) :: _) => leftmost left
  | .mk _ .conditionalExpression (.one (some test) :: _) => leftmost test
  | .mk _ .sequenceExpression [.many (some first :: _)] => leftmost first
  | .mk _ (.memberExpression _) (.one (some object) :: _) => leftmost object
  | .mk _ .callExpression (.one (some callee) :: _) => leftmost callee
  | n => n

/-- Whether the text of an expression would be taken for another statement. -/
def looksLikeStatement (text : String) : Bool :=
  let cs := text.toList
  cs.head? == some '\x7b'
    || (cs.take 8 == "function".toList && cs[8]?.any fun ch => ch == '(' || isBlankChar ch)
    || cs.take 4 == "let[".toList

def expressionStatementText (lay : Layout) (c : Context) (e : Child) : Except Fault String := do
  match e.1.value? with
  | some (.str "use strict") =>
    let q := lay.quote.toString
    return q ++ "use\\x20strict" ++ q ++ ";"
  | _ =>
    let text ← e.2 (c.inner Precedence.sequence)
    let first := (leftmost e.1).kind
    if first == .objectExpression || first == .functionExpression || looksLikeStatement text then
      return "(" ++ text ++ ");"
    else return text ++ ";"

def blockText (lay : Layout) (c : Context) (body : List Child) : Except Fault String := do
  let deep := c.base ++ lay.indent
  let lines ← body.mapM fun s => do
    let text ← s.2 { base := deep }
    return deep ++ text ++ (if endsLine text then "" else lay.newline)
  return "\x7b" ++ lay.newline ++ String.join lines ++ c.base ++ "\x7d"

def programText (lay : Layout) (c : Context) (body : List Child) : Except Fault String := do
  let lines ← body.mapM fun s => do return c.base ++ (← s.2 { base := c.base })
  return lay.newline.intercalate lines

def declarationText (lay : Layout) (c : Context) (kind : String) (declarations : List Child) :
    Except Fault String := do
  if kind == "using" || kind == "await using" then throw (.refused .resourceDeclaration)
  match declarations with
  | [] => throw (.refused .emptyDeclaration)
  | d :: ds =>
    let deep := c.base ++ lay.indent
    if c.target then return kind ++ " " ++ (← d.2 { base := deep, allowIn := false })
    else
      let inside := { allowIn := c.allowIn, base := if ds.isEmpty then c.base else deep : Context }
      return kind ++ " " ++ (← separated ("," ++ lay.space) (·.2 inside) (d :: ds)) ++ ";"

def declaratorText (lay : Layout) (c : Context) (id : Child) (init : Option Child) :
    Except Fault String := do
  let name ← id.2 (c.inner Precedence.assignment)
  match init with
  | none => return name
  | some init =>
    let value ← init.2 { c.inner Precedence.assignment with allowIn := c.allowIn }
    return name ++ lay.space ++ "=" ++ lay.space ++ value

def headText (lay : Layout) (c : Context) (word : String) (e : Child) : Except Fault String := do
  return word ++ lay.space ++ "(" ++ (← e.2 ((c.deeper lay).inner Precedence.sequence)) ++ ")"

def ifText (lay : Layout) (c : Context) (test consequent : Child) (alternate : Option Child) :
    Except Fault String := do
  let head ← headText lay c "if" test
  let text := head ++ (← bodyText lay c consequent)
  match alternate with
  | none => return text
  | some alternate =>
    let text := suffixed lay c consequent.1 text
    if alternate.1.kind == .ifStatement then
      return lay.join text ("else " ++ (← alternate.2 { base := c.base }))
    else return lay.join text (lay.join "else" (← bodyText lay c alternate))

def forText (lay : Layout) (c : Context) (init test update : Option Child) (body : Child) :
    Except Fault String := do
  let deep := c.deeper lay
  let i ← match init with
    | none => pure ";"
    | some init =>
      if init.1.kind == .variableDeclaration then
        init.2 { base := deep.base, allowIn := false }
      else do
        let text ← init.2 { deep.inner Precedence.sequence with allowIn := false }
        pure (text ++ ";")
  let part (e : Option Child) : Except Fault String :=
    match e with
    | none => .ok ""
    | some e => do return lay.space ++ (← e.2 (deep.inner Precedence.sequence))
  return "for" ++ lay.space ++ "(" ++ i ++ (← part test) ++ ";" ++ (← part update) ++ ")"
    ++ (← bodyText lay c body)

def forInText (lay : Layout) (c : Context) (left right body : Child) : Except Fault String := do
  let deep := c.deeper lay
  let target ← left.2 { deep.inner Precedence.call with target := true }
  let r ← right.2 (deep.inner Precedence.assignment)
  let head := lay.join (lay.join ("for" ++ lay.space ++ "(" ++ target) "in") r ++ ")"
  return head ++ (← bodyText lay c body)

def tryText (lay : Layout) (c : Context) (block : Child) (handler finalizer : Option Child)
    (handlerBody : Node) : Except Fault String := do
  let text := suffixed lay c block.1 ("try" ++ (← bodyText lay c block))
  let text ← match handler with
    | none => pure text
    | some handler => do
      let text := lay.join text (← handler.2 { base := c.base })
      pure (if finalizer.isSome then suffixed lay c handlerBody text else text)
  match finalizer with
  | none => return text
  | some finalizer => return lay.join text ("finally" ++ (← bodyText lay c finalizer))

def switchText (lay : Layout) (c : Context) (discriminant : Child) (cases : List Child) :
    Except Fault String := do
  let head ← headText lay c "switch" discriminant
  let lines ← cases.mapM fun s => do
    let text := c.base ++ (← s.2 { base := c.base })
    return text ++ (if endsLine text then "" else lay.newline)
  return head ++ lay.space ++ "\x7b" ++ lay.newline ++ String.join lines ++ c.base ++ "\x7d"

def caseText (lay : Layout) (c : Context) (test : Option Child) (consequent : List Child) :
    Except Fault String := do
  let deep := c.deeper lay
  let head ← match test with
    | some test => do pure (lay.join "case" (← test.2 (deep.inner Precedence.sequence)) ++ ":")
    | none => pure "default:"
  let (head, rest) ← match consequent with
    | first :: rest =>
      if first.1.kind == .blockStatement then do pure (head ++ (← bodyText lay deep first), rest)
      else pure (head, consequent)
    | [] => pure (head, [])
  let lines ← rest.mapM fun s => do return deep.base ++ (← s.2 { base := deep.base })
  if lines.isEmpty then return head
  else return head ++ lay.newline ++ lay.newline.intercalate lines

/-- A keyword with an optional argument; an argument with a line break gets parentheses. -/
def wordText (lay : Layout) (c : Context) (word : String) (argument : Option Child) :
    Except Fault String := do
  match argument with
  | none => return word ++ ";"
  | some e =>
    let text ← e.2 (c.inner Precedence.sequence)
    return lay.join word (if hasLineBreak text then "(" ++ text ++ ")" else text) ++ ";"

def labelName (label : Child) : String := label.1.name?.getD ""

def jumpText (word : String) : Option Child → String
  | none => word ++ ";"
  | some label => word ++ " " ++ labelName label ++ ";"

def handlerBody : Option Child → Node
  | some (.mk _ .catchClause [_, .one (some body)], _) => body
  | _ => default

def statementText? (lay : Layout) (c : Context) (h : Head) (slots : List (Slot Child)) :
    Option (Except Fault String) :=
  match h, slots with
  | .program, [.many body] => some <| programText lay c (body.filterMap id)
  | .blockStatement, [.many body] => some <| blockText lay c (body.filterMap id)
  | .emptyStatement, _ => some (.ok ";")
  | .expressionStatement, [.one (some e)] => some <| expressionStatementText lay c e
  | .ifStatement, [.one (some test), .one (some consequent), .one alternate] => some <|
    ifText lay c test consequent alternate
  | .labeledStatement, [.one (some label), .one (some body)] => some do
    return labelName label ++ ":" ++ (← bodyText lay c body)
  | .breakStatement, [.one label] => some (.ok (jumpText "break" label))
  | .continueStatement, [.one label] => some (.ok (jumpText "continue" label))
  | .returnStatement, [.one argument] => some <| wordText lay c "return" argument
  | .throwStatement, [.one argument] => some <| wordText lay c "throw" argument
  | .tryStatement, [.one (some block), .one handler, .one finalizer] => some <|
    tryText lay c block handler finalizer (handlerBody handler)
  | .catchClause, [.one (some param), .one (some body)] => some do
    return (← headText lay c "catch" param) ++ (← bodyText lay c body)
  | .switchStatement, [.one (some discriminant), .many cases] => some <|
    switchText lay c discriminant (cases.filterMap id)
  | .switchCase, [.one test, .many consequent] => some <|
    caseText lay c test (consequent.filterMap id)
  | .whileStatement, [.one (some test), .one (some body)] => some do
    return (← headText lay c "while" test) ++ (← bodyText lay c body)
  | .doWhileStatement, [.one (some body), .one (some test)] => some do
    let text := suffixed lay c body.1 (lay.join "do" (← bodyText lay c body))
    let t ← test.2 (c.inner Precedence.sequence)
    return lay.join text ("while" ++ lay.space ++ "(" ++ t ++ ");")
  | .forStatement, [.one init, .one test, .one update, .one (some body)] => some <|
    forText lay c init test update body
  | .forInStatement, [.one (some left), .one (some right), .one (some body)] => some <|
    forInText lay c left right body
  | .functionDeclaration, [.one (some id), .many params, .one (some body)] => some <|
    functionText lay c (some id) (params.filterMap fun p => p) body
  | .variableDeclaration kind, [.many declarations] => some <|
    declarationText lay c kind (declarations.filterMap id)
  | .variableDeclarator, [.one (some id), .one init] => some <| declaratorText lay c id init
  | _, _ => none

end Unravel.Code
