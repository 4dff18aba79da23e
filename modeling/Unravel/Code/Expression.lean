import Unravel.Code.Layout
import Unravel.Code.Lexeme

/-! Printing expressions. -/

namespace Unravel.Code

namespace Context

def inner (c : Context) (precedence : Nat) : Context := { precedence, base := c.base }

def operand (c : Context) (precedence : Nat) : Context := { c with precedence }

def opened (c : Context) (precedence : Nat) : Context :=
  { c with allowIn := c.allowIn || precedence < c.precedence }

def deeper (c : Context) (lay : Layout) : Context := { c with base := c.base ++ lay.indent }

end Context

def separated (separator : String) (print : Child → Except Fault String) (items : List Child) :
    Except Fault String := do
  return separator.intercalate (← items.mapM print)

def bareName (n : Node) : Except Fault String :=
  match n.name? with
  | some name => nameText name
  | none => .error .malformed

def parameters (lay : Layout) (c : Context) (params : List Child) : Except Fault String := do
  return "(" ++ (← separated ("," ++ lay.space) (·.2 (c.inner Precedence.assignment)) params) ++ ")"

/-- A body: a block on the same line, a semicolon for an empty statement, else an indented line. -/
def bodyText (lay : Layout) (c : Context) (body : Child) : Except Fault String := do
  match body.1.kind with
  | .blockStatement => return lay.space ++ (← body.2 { base := c.base })
  | .emptyStatement => return ";"
  | _ =>
    let deep := c.base ++ lay.indent
    return lay.newline ++ deep ++ (← body.2 { base := deep })

def isWordOperator (operator : String) : Bool := (firstChar? operator).any Text.isNamePart

def binaryText (lay : Layout) (c : Context) (operator : String) (left right : Child) :
    Except Fault String :=
  match Precedence.ofOperator? operator with
  | none => .error (.refused (.binaryOperator operator))
  | some own => do
    let power := operator == "**"
    let inside := c.opened own
    let l ← left.2 (inside.operand (if power then Precedence.postfixed else own))
    let head := if lastChar? l == some '/' && isWordOperator operator then l ++ " " ++ operator
      else lay.join l operator
    let r ← right.2 (inside.operand (if power then own else own + 1))
    let text :=
      if (operator == "/" && firstChar? r == some '/')
          || (lastChar? operator == some '<' && r.startsWith "!--") then head ++ " " ++ r
      else lay.join head r
    if operator == "in" && !inside.allowIn then return "(" ++ text ++ ")"
    else if (operator == "||" || operator == "&&") && c.coalescing then return "(" ++ text ++ ")"
    else return parenthesize c own text

def argumentsText (lay : Layout) (c : Context) (arguments : List Child) : Except Fault String := do
  let text ← separated ("," ++ lay.space) (·.2 (c.inner Precedence.assignment)) arguments
  return "(" ++ text ++ ")"

def needsBlankBeforeDot (text : String) : Bool :=
  !text.any ".eExX".toList.contains
    && (lastChar? text).any Char.isDigit
    && !(2 ≤ text.length && firstChar? text == some '0')

def isNumberOrFlag (n : Node) : Bool :=
  match n.value? with
  | some (.number _) | some (.bool _) => true
  | _ => false

def memberText (c : Context) (computed : Bool) (object property : Child) :
    Except Fault String := do
  let plain := { c.inner Precedence.call with allowCall := c.allowCall }
  let o ← object.2 plain
  if computed then
    let p ← property.2 { plain with precedence := Precedence.sequence }
    return parenthesize c Precedence.member (o ++ "[" ++ p ++ "]")
  else
    let blank := if isNumberOrFlag object.1 && needsBlankBeforeDot o then " " else ""
    return parenthesize c Precedence.member (o ++ blank ++ "." ++ (← bareName property.1))

def unaryText (lay : Layout) (c : Context) (operator : String) (argument : Child) :
    Except Fault String := do
  let a ← argument.2 (c.inner Precedence.unary)
  let text :=
    if lay.space.isEmpty || 2 < operator.length then lay.join operator a
    else if (operator == "+" || operator == "-") && firstChar? a == firstChar? operator then
      operator ++ " " ++ a
    else operator ++ a
  return parenthesize c Precedence.unary text

def updateText (c : Context) (operator : String) (before : Bool) (argument : Child) :
    Except Fault String := do
  if before then
    let a ← argument.2 (c.inner Precedence.unary)
    return parenthesize c Precedence.unary (operator ++ a)
  else
    let a ← argument.2 (c.inner Precedence.postfixed)
    let a := if hasLineBreak a then "(" ++ a ++ ")" else a
    return parenthesize c Precedence.postfixed (a ++ operator)

/-- One line per element from two elements on. A hole at the end keeps its comma. -/
def arrayText (lay : Layout) (c : Context) (elements : List (Option Child)) :
    Except Fault String := do
  let deep := c.deeper lay
  let print (e : Option Child) : Except Fault String :=
    match e with
    | none => .ok ""
    | some child => child.2 (deep.inner Precedence.assignment)
  let tail := if elements.getLast?.any Option.isNone then "," else ""
  match elements with
  | [] => return "[]"
  | [e] => return "[" ++ (← print e) ++ tail ++ "]"
  | es =>
    let lines ← es.mapM fun e => do return deep.base ++ (← print e)
    return "[" ++ lay.newline ++ ("," ++ lay.newline).intercalate lines ++ tail ++ lay.newline
      ++ c.base ++ "]"

/-- One property without a line break stays on its line, more take a line each. -/
def objectText (lay : Layout) (c : Context) (properties : List Child) : Except Fault String := do
  let deep := c.deeper lay
  let texts ← properties.mapM (·.2 (deep.inner Precedence.sequence))
  match texts with
  | [] => return "\x7b\x7d"
  | texts =>
    if texts.length == 1 && !texts.any hasLineBreak then
      return "\x7b" ++ lay.space ++ String.join texts ++ lay.space ++ "\x7d"
    else
      return "\x7b" ++ lay.newline
        ++ ("," ++ lay.newline).intercalate (texts.map (deep.base ++ ·))
        ++ lay.newline ++ c.base ++ "\x7d"

def propertyText (lay : Layout) (c : Context) (computed : Bool) (key value : Child) :
    Except Fault String := do
  let k ← key.2 (c.inner Precedence.assignment)
  let v ← value.2 (c.inner Precedence.assignment)
  return (if computed then "[" ++ k ++ "]" else k) ++ ":" ++ lay.space ++ v

def functionText (lay : Layout) (c : Context) (id : Option Child) (params : List Child)
    (body : Child) : Except Fault String := do
  let name ← match id with
    | some id => do pure (" " ++ (← bareName id.1))
    | none => pure lay.space
  return "function" ++ name ++ (← parameters lay c params) ++ (← bodyText lay c body)

def expressionText? (lay : Layout) (c : Context) (h : Head) (slots : List (Slot Child)) :
    Option (Except Fault String) :=
  match h, slots with
  | .sequenceExpression, [.many items] => some <|
    match items.filterMap id with
    | [] => .error (.refused .emptySequence)
    | items => do
      let inside := c.opened Precedence.sequence
      let text ← separated ("," ++ lay.space) (·.2 (inside.operand Precedence.assignment)) items
      return parenthesize c Precedence.sequence text
  | .assignmentExpression operator, [.one (some left), .one (some right)] => some do
    let inside := c.opened Precedence.assignment
    let l ← left.2 (inside.operand Precedence.call)
    let r ← right.2 (inside.operand Precedence.assignment)
    return parenthesize c Precedence.assignment (l ++ lay.space ++ operator ++ lay.space ++ r)
  | .conditionalExpression, [.one (some test), .one (some consequent), .one (some alternate)] =>
    some do
      let inside := c.opened Precedence.conditional
      let t ← test.2 (inside.operand Precedence.coalesce)
      let a ← consequent.2 (inside.operand Precedence.assignment)
      let b ← alternate.2 (inside.operand Precedence.assignment)
      return parenthesize c Precedence.conditional
        (t ++ lay.space ++ "?" ++ lay.space ++ a ++ lay.space ++ ":" ++ lay.space ++ b)
  | .logicalExpression operator, [.one (some left), .one (some right)] => some <|
    binaryText lay { c with coalescing := c.coalescing || operator == "??" } operator left right
  | .binaryExpression operator, [.one (some left), .one (some right)] => some <|
    binaryText lay c operator left right
  | .callExpression, [.one (some callee), .many arguments] => some do
    let f ← callee.2 (c.inner Precedence.call)
    let text := f ++ (← argumentsText lay c (arguments.filterMap id))
    if c.allowCall then return parenthesize c Precedence.call text else return "(" ++ text ++ ")"
  | .newExpression, [.one (some callee), .many arguments] => some do
    let f ← callee.2 { c.inner Precedence.construct with allowCall := false }
    let text := lay.join "new" f ++ (← argumentsText lay c (arguments.filterMap id))
    return parenthesize c Precedence.construct text
  | .memberExpression computed, [.one (some object), .one (some property)] => some <|
    memberText c computed object property
  | .unaryExpression operator, [.one (some argument)] => some <| unaryText lay c operator argument
  | .updateExpression operator before, [.one (some argument)] => some <|
    updateText c operator before argument
  | .functionExpression, [.one id, .many params, .one (some body)] => some <|
    functionText lay c id (params.filterMap fun p => p) body
  | .arrayExpression, [.many elements] => some <| arrayText lay c elements
  | .objectExpression, [.many properties] => some <| objectText lay c (properties.filterMap id)
  | .property computed, [.one (some key), .one (some value)] => some <|
    propertyText lay c computed key value
  | .thisExpression, _ => some (.ok "this")
  | .identifier name, _ => some (nameText name)
  | .literal value, _ => some (literalText lay.quote value)
  | .regexpLiteral pattern flags, _ => some (regexpText pattern flags)
  | _, _ => none

end Unravel.Code
