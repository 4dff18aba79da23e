import Unravel.Source.Pattern

/-! Functions: parameters, bodies with their directives, methods. Generators and asynchronous
functions are outside the model. -/

namespace Unravel.Source

/-- Parameters as they are read. A name that strict code refuses is kept until it is known whether
the body is strict; it is blamed on its token if it has one of its own. -/
structure Params where
  simple : Bool
  nodes : List Node
  names : List String
  stricted : Option (Option Token)
  restricted : Option (Option Token)
  message : Option String

def Params.empty (restricted : Option (Option Token)) : Params :=
  ⟨true, [], [], none, restricted, none⟩

def duplicateParam : String := "Strict mode function may not have duplicate parameter names"

def Params.note (strict : Bool) (blame : Option Token) (name : String) (p : Params) : Params :=
  let restrictedText := "Parameter name eval or arguments is not allowed in strict mode"
  let checked :=
    if strict then
      if p.names.contains name then
        { p with stricted := some blame, message := some duplicateParam }
      else if isRestricted name then
        { p with stricted := some blame, message := some restrictedText }
      else p
    else if p.restricted.isSome then p
    else if isRestricted name then
      { p with restricted := some blame, message := some restrictedText }
    else if isStrictReserved name then
      { p with restricted := some blame, message := some Parser.strictReserved }
    else if p.names.contains name then
      { p with stricted := some blame, message := some duplicateParam }
    else p
  { checked with names := name :: p.names }

namespace Parser

def blame {α : Type} (t : Option Token) (text : String) : Parser α :=
  match t with
  | some t => refuse t text
  | none => fail text

def restParam (g : Grammar) : Parser Node := do
  let l ← here
  expect "..."
  let target ← g (.pattern "")
  if ← hasMark "=" then fail "Unexpected token ="
  unless ← hasMark ")" do fail "Rest parameter must be last formal parameter"
  return foreign l "RestElement" [target]

def param (g : Grammar) (p : Params) : Parser Params := do
  let (n, names) ← binding do
    if ← hasMark "..." then restParam g else patternWithDefault g ""
  let strict := (← context).strict
  let p := names.foldl (fun p t => p.note strict (some t) t.lexeme.text) p
  return { p with simple := p.simple && n.name?.isSome, nodes := p.nodes ++ [n] }

def params (g : Grammar) (restricted : Option (Option Token)) : Parser Params := do
  expect "("
  let p ← iterate (fun p => do
    if (← hasMark ")") || (← atEnd) then return .inr p
    let p ← param g p
    unless ← hasMark ")" do expect ","
    return .inl p) (Params.empty restricted)
  expect ")"
  return p

/-- The directives at the start of a body. `use strict` makes the rest of it strict. -/
def directives (g : Grammar) : Parser (List Node) :=
  iterate (fun ((body, octal) : List Node × Option Token) => do
    let t ← lookahead
    match t.lexeme with
    | .string _ raw isOctal =>
      let l ← here
      let e ← expression g
      endStatement
      let body := body ++ [Node.expressionStatement (Tag.fresh (some l)) e]
      if e.value?.isNone || raw.isEmpty then return .inr body
      else if raw == "use strict" then
        setContext ({ · with strict := true })
        match octal with
        | some first => refuse first strictOctal
        | none => pure ()
        unless (← context).allowStrictDirective do
          refuse t "Illegal 'use strict' directive in function with non-simple parameter list"
        return .inl (body, octal)
      else return .inl (body, octal.or (if isOctal then some t else none))
    | _ => return .inr body) ([], none)

def functionBody (g : Grammar) : Parser Node := do
  let l ← here
  expect "\x7b"
  let first ← directives g
  let more ← within
    ({ · with labels := [], inLoop := false, inSwitch := false, inFunction := true })
    (fun before c => { c with
      labels := before.labels, inLoop := before.inLoop, inSwitch := before.inSwitch,
      inFunction := before.inFunction })
    (do
      let items ← many (return !((← atEnd) || (← hasMark "\x7d"))) (g .item)
      expect "\x7d"
      return items)
  return Node.blockStatement (Tag.fresh (some l)) ((first ++ more).map some)

def strictChecked (p : Params) (message : Option String) (body : Parser Node) : Parser Node :=
  within ({ · with allowStrictDirective := p.simple })
    (fun before c => { c with
      strict := before.strict, allowStrictDirective := before.allowStrictDirective })
    (do
      let n ← body
      if (← context).strict then
        let text := (p.message.or message).getD ""
        match p.restricted with
        | some t => blame t text
        | none => pure ()
        match p.stricted with
        | some t => blame t text
        | none => pure ()
      return n)

def functionHead (isAsync isGenerator : Bool) (plain : Head) : Head :=
  if isGenerator then .foreign "GeneratorFunction"
  else if isAsync then .foreign "AsyncFunction"
  else plain

def functionNode (l : Loc) (h : Head) (id : Option Node) (p : Params) (body : Node) : Node :=
  node l h [.one id, .many (p.nodes.map some), .one (some body)]

def functionName (t : Token) : Parser (Option (Option Token) × Option String) := do
  let name := t.lexeme.text
  let text := "Function name may not be eval or arguments in strict mode"
  if (← context).strict then
    if isRestricted name then refuse t text
    return (none, none)
  else if isRestricted name then return (some (some t), some text)
  else if isStrictReserved name then return (some (some t), some strictReserved)
  else return (none, none)

def functionWords : Parser (Bool × Bool) := do
  let isAsync ← hasWord "async"
  if isAsync then
    let _ ← next
  expectKeyword "function"
  let isGenerator ← if isAsync then pure false else hasMark "*"
  if isGenerator then
    let _ ← next
  return (isAsync, isGenerator)

def functionDeclaration (g : Grammar) : Parser Node := do
  let l ← here
  let (isAsync, isGenerator) ← functionWords
  let t ← lookahead
  let id ← variableName ""
  let (restricted, message) ← functionName t
  withAwait isAsync <| withYield (!isGenerator) do
    let p ← params g restricted
    let body ← strictChecked p message (functionBody g)
    return functionNode l (functionHead isAsync isGenerator .functionDeclaration) (some id) p body

def functionExpression (g : Grammar) : Parser Node := do
  let l ← here
  let (isAsync, isGenerator) ← functionWords
  withAwait isAsync <| withYield (!isGenerator) do
    let h := functionHead isAsync isGenerator .functionExpression
    if ← hasMark "(" then
      let p ← params g none
      let body ← strictChecked p none (functionBody g)
      return functionNode l h none p body
    else
      let t ← lookahead
      let plainYield := !(← context).strict && !isGenerator && (← hasKeyword "yield")
      let id ← if plainYield then wordName else variableName ""
      let (restricted, message) ← functionName t
      let p ← params g restricted
      let body ← strictChecked p message (functionBody g)
      return functionNode l h (some id) p body

/-! Methods -/

def methodBody (g : Grammar) (p : Params) : Parser Node := do
  notTarget
  strictChecked p none (isolated (functionBody g))

def plainMethod (g : Grammar) : Parser Node := do
  let l ← here
  withYield true do
    let p ← params g none
    return functionNode l .functionExpression none p (← methodBody g p)

def asyncMethod (g : Grammar) : Parser Node := do
  let l ← here
  withYield false <| withAwait true do
    let p ← params g none
    return functionNode l (.foreign "AsyncFunction") none p (← methodBody g p)

def generatorMethod (g : Grammar) : Parser Node := do
  let l ← here
  withYield true do
    let p ← params g none
    setContext ({ · with allowYield := false })
    return functionNode l (.foreign "GeneratorFunction") none p (← methodBody g p)

/-- A getter has no parameters. Behind it `yield` is no name any more. -/
def getter (g : Grammar) : Parser Node := do
  setContext ({ · with allowYield := false })
  let l ← here
  withYield true do
    let p ← params g none
    unless p.nodes.isEmpty do failAhead "Getter must not have any formal parameters"
    return functionNode l .functionExpression none p (← methodBody g p)

def setter (g : Grammar) : Parser Node := do
  let l ← here
  withYield true do
    let p ← params g none
    match p.nodes with
    | [n] =>
      if isForeign "RestElement" n then
        failAhead "Setter function argument must not be a rest parameter"
    | _ => failAhead "Setter must have exactly one formal parameter"
    return functionNode l .functionExpression none p (← methodBody g p)

end Parser
end Unravel.Source
