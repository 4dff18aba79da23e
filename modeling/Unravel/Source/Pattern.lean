import Unravel.Source.Parser

/-! Keys of properties and binding patterns. A pattern that is more than a name is outside the model;
its parts are read for the errors they may hold and for the names they bind. -/

namespace Unravel.Source.Parser

def strictOctal : String := "Octal literals are not allowed in strict mode."

def propertyKey (g : Grammar) : Parser Node := do
  let l ← here
  let t ← next
  match t.lexeme with
  | .string value _ octal =>
    if (← context).strict && octal then refuse t strictOctal
    return node l (.literal (.str value)) []
  | .number value octal =>
    if (← context).strict && octal then refuse t strictOctal
    return node l (.literal (.number value)) []
  | .punctuator "[" =>
    let key ← isolated (g .assignment)
    expect "]"
    return key
  | other => if other.isName then return node l (.identifier other.text) [] else unexpected t

def isKey (name : String) (key : Node) : Bool :=
  key.name? == some name || key.value? == some (.str name)

def pair (l : Loc) (h : Head) (key value : Node) : Node :=
  node l h [.one (some key), .one (some value)]

def patternWithDefault (g : Grammar) (kind : String) : Parser Node := do
  let start ← lookahead
  let target ← g (.pattern kind)
  if ← hasMark "=" then
    let _ ← next
    let value ← withYield true (isolated (g .assignment))
    return foreign (locOf start) "AssignmentPattern" [target, value]
  else return target

def restPattern (g : Grammar) (kind : String) : Parser Node := do
  let l ← here
  expect "..."
  return foreign l "RestElement" [← g (.pattern kind)]

def arrayPattern (g : Grammar) (kind : String) : Parser Node := do
  let l ← here
  expect "["
  let items ← iterate (fun items => do
    if ← hasMark "]" then return .inr items
    else if ← hasMark "," then
      let _ ← next
      return .inl items
    else if ← hasMark "..." then return .inr (items ++ [← restPattern g kind])
    else
      let item ← patternWithDefault g kind
      unless ← hasMark "]" do expect ","
      return .inl (items ++ [item])) []
  expect "]"
  return foreign l "ArrayPattern" items

def propertyPattern (g : Grammar) (kind : String) : Parser Node := do
  let l ← here
  let t ← lookahead
  if t.lexeme.isIdentifier then
    let key ← variableName ""
    if ← hasMark "=" then
      bindName t
      let _ ← next
      let value ← g .assignment
      return pair l (.foreign "Property[shorthand]") key
        (foreign (locOf t) "AssignmentPattern" [key, value])
    else if ← hasMark ":" then
      expect ":"
      return pair l (.property false) key (← patternWithDefault g kind)
    else
      bindName t
      return pair l (.foreign "Property[shorthand]") key key
  else
    let computed ← hasMark "["
    let key ← propertyKey g
    expect ":"
    return pair l (.property computed) key (← patternWithDefault g kind)

def restProperty (g : Grammar) : Parser Node := do
  let l ← here
  expect "..."
  let target ← g (.pattern "")
  if ← hasMark "=" then fail "Unexpected token ="
  unless ← hasMark "\x7d" do fail "Unexpected token"
  return foreign l "RestElement" [target]

def objectPattern (g : Grammar) (kind : String) : Parser Node := do
  let l ← here
  expect "\x7b"
  let items ← manyUntil "\x7d" do
    let item ← if ← hasMark "..." then restProperty g else propertyPattern g kind
    unless ← hasMark "\x7d" do expect ","
    return item
  expect "\x7d"
  return foreign l "ObjectPattern" items

def pattern (g : Grammar) (kind : String) : Parser Node := do
  if ← hasMark "[" then arrayPattern g kind
  else if ← hasMark "\x7b" then objectPattern g kind
  else
    let t ← lookahead
    if (← hasKeyword "let") && (kind == "const" || kind == "let") then
      refuse t "let is disallowed as a lexically bound name"
    bindName t
    variableName kind

end Unravel.Source.Parser
