import Unravel.Source.Function

/-! Array and object initializers, and classes. Accessors, methods and shorthands are outside the
model, and so are classes. -/

namespace Unravel.Source.Parser

def spread (g : Grammar) : Parser Node := do
  let l ← here
  expect "..."
  return foreign l "SpreadElement" [← inherited (g .assignment)]

def arrayInitializer (g : Grammar) : Parser Node := do
  let l ← here
  expect "["
  let items ← manyUntil "]" do
    if ← hasMark "," then
      let _ ← next
      return none
    else if ← hasMark "..." then
      let item ← spread g
      unless ← hasMark "]" do
        notTarget
        expect ","
      return some item
    else
      let item ← inherited (g .assignment)
      unless ← hasMark "]" do expect ","
      return some item
  expect "]"
  return node l .arrayExpression [.many items]

structure PropertyStart where
  token : Token
  key : Option Node
  computed : Bool
  isAsync : Bool

def propertyStart (g : Grammar) : Parser PropertyStart := do
  let l ← here
  let t ← lookahead
  match t.lexeme with
  | .identifier name =>
    let _ ← next
    let computed ← hasMark "["
    let ahead := (← lookahead).lexeme
    let isAsync := name == "async" && !(← get).newline
      && [":", "(", "*", ","].all fun mark => ahead != .punctuator mark
    let key ← if isAsync then propertyKey g else pure (node l (.identifier name) [])
    return ⟨t, some key, computed, isAsync⟩
  | .punctuator "*" =>
    let _ ← next
    return ⟨t, none, false, false⟩
  | _ =>
    let computed ← hasMark "["
    return ⟨t, some (← propertyKey g), computed, false⟩

def plainProperty (g : Grammar) (l : Loc) (s : PropertyStart) (hasProto : Bool) :
    Parser (Node × Bool) := do
  match s.key with
  | none => unexpectedAhead
  | some key =>
    if (← hasMark ":") && !s.isAsync then
      let isProto := !s.computed && isKey "__proto__" key
      if isProto && hasProto then
        failAhead "Duplicate __proto__ fields are not allowed in object literals"
      let _ ← next
      return (pair l (.property s.computed) key (← inherited (g .assignment)), hasProto || isProto)
    else if ← hasMark "(" then
      let value ← if s.isAsync then asyncMethod g else plainMethod g
      return (pair l (.foreign "Property[shorthand]") key value, hasProto)
    else
      match s.token.lexeme with
      | .identifier name =>
        let id := node l (.identifier name) []
        if ← hasMark "=" then
          let mark ← lookahead
          setContext ({ · with patternMark := some mark })
          let _ ← next
          let value ← isolated (g .assignment)
          return (pair l (.foreign "Property[shorthand]") key
            (foreign l "AssignmentPattern" [id, value]), hasProto)
        else return (pair l (.foreign "Property[shorthand]") key id, hasProto)
      | _ => unexpectedNext

def property (g : Grammar) (hasProto : Bool) : Parser (Node × Bool) := do
  let l ← here
  let s ← propertyStart g
  let keyFollows := (← lookahead).lexeme.isKeyStart
  match s.token.lexeme, keyFollows, s.isAsync with
  | .identifier "get", true, false =>
    let key ← propertyKey g
    return (pair l (.foreign "Property[get]") key (← getter g), hasProto)
  | .identifier "set", true, false =>
    let key ← propertyKey g
    return (pair l (.foreign "Property[set]") key (← setter g), hasProto)
  | .punctuator "*", true, _ =>
    let key ← propertyKey g
    return (pair l (.foreign "Property[shorthand]") key (← generatorMethod g), hasProto)
  | _, _, _ => plainProperty g l s hasProto

def objectInitializer (g : Grammar) : Parser Node := do
  let l ← here
  expect "\x7b"
  let items ← iterate (fun ((items, hasProto) : List Node × Bool) => do
    if ← hasMark "\x7d" then return .inr items.reverse
    let (item, hasProto) ← if ← hasMark "..." then do
        pure (← spread g, hasProto)
      else property g hasProto
    unless ← hasMark "\x7d" do expect ","
    return .inl (item :: items, hasProto)) ([], false)
  expect "\x7d"
  return node l .objectExpression [.many (items.map some)]

/-! Classes -/

inductive MethodKind where
  | get
  | set
  | generator
  | method
deriving DecidableEq, Repr

structure ElementStart where
  token : Token
  key : Option Node
  computed : Bool
  isStatic : Bool
  isAsync : Bool

def elementStart (g : Grammar) : Parser ElementStart := do
  let t ← lookahead
  if ← hasMark "*" then
    let _ ← next
    return ⟨t, none, false, false, false⟩
  let computed ← hasMark "["
  let key ← propertyKey g
  let s ← if key.name? == some "static"
        && ((← lookahead).lexeme.isKeyStart || (← hasMark "*")) then do
      let t ← lookahead
      let computed ← hasMark "["
      if ← hasMark "*" then
        let _ ← next
        pure ⟨t, some key, computed, true, false⟩
      else pure ⟨t, some (← propertyKey g), computed, true, false⟩
    else pure (⟨t, some key, computed, false, false⟩ : ElementStart)
  let ahead := (← lookahead).lexeme.text
  if s.token.lexeme == .identifier "async" && !(← get).newline
      && ahead != ":" && ahead != "(" && ahead != "*" then
    let t ← lookahead
    let key ← propertyKey g
    if t.lexeme == .identifier "constructor" then
      refuse t "Class constructor may not be an async method"
    return { s with token := t, key := some key, isAsync := true }
  else return s

def classElement (g : Grammar) (hasConstructor : Bool) : Parser Bool := do
  let s ← elementStart g
  let keyFollows := (← lookahead).lexeme.isKeyStart
  let (kind, key, computed) ←
    match s.token.lexeme, keyFollows with
    | .identifier "get", true => do
      let computed ← hasMark "["
      let key ← propertyKey g
      let _ ← getter g
      pure (MethodKind.get, some key, computed)
    | .identifier "set", true => do
      let computed ← hasMark "["
      let key ← propertyKey g
      let _ ← setter g
      pure (MethodKind.set, some key, computed)
    | .punctuator "*", true => do
      let computed ← hasMark "["
      let key ← propertyKey g
      let _ ← generatorMethod g
      pure (MethodKind.generator, some key, computed)
    | _, _ => do
      if s.key.isSome && (← hasMark "(") then
        let _ ← if s.isAsync then asyncMethod g else plainMethod g
        pure (MethodKind.method, s.key, s.computed)
      else unexpectedAhead
  let named (name : String) := !computed && key.any (isKey name)
  if s.isStatic && named "prototype" then
    refuse s.token "Classes may not have static property named prototype"
  if !s.isStatic && named "constructor" then
    if kind != .method then refuse s.token "Class constructor may not be an accessor"
    if hasConstructor then refuse s.token "A class may only have one constructor"
    return true
  return hasConstructor

def classBody (g : Grammar) : Parser Unit := do
  expect "\x7b"
  iterate (fun hasConstructor => do
    if ← hasMark "\x7d" then return .inr ()
    else if ← hasMark ";" then
      let _ ← next
      return .inl hasConstructor
    else return .inl (← classElement g hasConstructor)) false
  expect "\x7d"

def classNode (g : Grammar) (name : String) (needsName : Bool) : Parser Node := do
  let l ← here
  within ({ · with strict := true }) (fun before c => { c with strict := before.strict }) do
    expectKeyword "class"
    if needsName || (← lookahead).lexeme.isIdentifier then
      let _ ← variableName ""
    if ← hasKeyword "extends" then
      let _ ← next
      let _ ← isolated (g .call)
    classBody g
  return foreign l name []

end Unravel.Source.Parser
