import Unravel.Estree.Data
import Unravel.Tree.Node

/-! Reading a tree from data. Data of a kind outside the model is refused with its position, the
first such piece in pre-order. -/

namespace Unravel.Estree

inductive Reading where
  | required
  | optional
  | name
  | list
  | names
  | holes
deriving DecidableEq, Repr

/-- The children of a kind by the names of their fields, in the order of the slots, and how each is
read. -/
def readings : Kind → List (Field × Reading)
  | .program | .blockStatement => [(.body, .list)]
  | .expressionStatement => [(.expression, .required)]
  | .ifStatement => [(.test, .required), (.consequent, .required), (.alternate, .optional)]
  | .labeledStatement => [(.label, .required), (.body, .required)]
  | .breakStatement | .continueStatement => [(.label, .optional)]
  | .returnStatement => [(.argument, .optional)]
  | .throwStatement | .unaryExpression | .updateExpression => [(.argument, .required)]
  | .tryStatement => [(.block, .required), (.handler, .optional), (.finalizer, .optional)]
  | .catchClause => [(.param, .name), (.body, .required)]
  | .switchStatement => [(.discriminant, .required), (.cases, .list)]
  | .switchCase => [(.test, .optional), (.consequent, .list)]
  | .whileStatement => [(.test, .required), (.body, .required)]
  | .doWhileStatement => [(.body, .required), (.test, .required)]
  | .forStatement =>
    [(.init, .optional), (.test, .optional), (.update, .optional), (.body, .required)]
  | .forInStatement => [(.left, .required), (.right, .required), (.body, .required)]
  | .functionDeclaration => [(.id, .name), (.params, .names), (.body, .required)]
  | .variableDeclaration => [(.declarations, .list)]
  | .variableDeclarator => [(.id, .name), (.init, .optional)]
  | .arrayExpression => [(.elements, .holes)]
  | .objectExpression => [(.properties, .list)]
  | .property => [(.key, .required), (.value, .required)]
  | .functionExpression => [(.id, .optional), (.params, .names), (.body, .required)]
  | .binaryExpression | .logicalExpression | .assignmentExpression =>
    [(.left, .required), (.right, .required)]
  | .conditionalExpression => [(.test, .required), (.consequent, .required), (.alternate, .required)]
  | .callExpression | .newExpression => [(.callee, .required), (.arguments, .list)]
  | .memberExpression => [(.object, .required), (.property, .required)]
  | .sequenceExpression => [(.expressions, .list)]
  | .emptyStatement | .identifier | .literal | .regexpLiteral | .thisExpression | .foreign _ => []

/-- What is known of a piece of data: itself, the node it reads as, and its items if it is a list. -/
structure Piece where
  data : Estree
  node : Except Fault Node
  items : List (Estree × Except Fault Node)

def loc? (e : Estree) : Option Loc :=
  let start := (e.get "loc").get "start"
  match start.get "line", start.get "column" with
  | .number (.int line), .number (.int column) => some ⟨line.toNat, column⟩
  | _, _ => none

def unsupported (e : Estree) (kind : String) : Fault := .unsupported kind (loc? e)

def toValue : Estree → Value
  | .null => .null
  | .bool b => .bool b
  | .str s => .str s
  | .number (.int n) => .int n
  | .number (.float x) => .number (Number.ofDouble x)
  | .list _ => .foreign "list"
  | .object _ => .foreign "object"

def toHead (e : Estree) : Kind → Except Fault Head
  | .program => .ok .program
  | .emptyStatement => .ok .emptyStatement
  | .blockStatement => .ok .blockStatement
  | .expressionStatement => .ok .expressionStatement
  | .ifStatement => .ok .ifStatement
  | .labeledStatement => .ok .labeledStatement
  | .breakStatement => .ok .breakStatement
  | .continueStatement => .ok .continueStatement
  | .returnStatement => .ok .returnStatement
  | .throwStatement => .ok .throwStatement
  | .tryStatement => .ok .tryStatement
  | .catchClause => .ok .catchClause
  | .switchStatement => .ok .switchStatement
  | .switchCase => .ok .switchCase
  | .whileStatement => .ok .whileStatement
  | .doWhileStatement => .ok .doWhileStatement
  | .forStatement => .ok .forStatement
  | .forInStatement => .ok .forInStatement
  | .functionDeclaration => plain .functionDeclaration
  | .variableDeclaration => .ok (.variableDeclaration (e.get "kind").text)
  | .variableDeclarator => .ok .variableDeclarator
  | .identifier => .ok (.identifier (e.get "name").text)
  | .literal =>
    match e.get "regex" with
    | .null => .ok (.literal (toValue (e.get "value")))
    | regex => .ok (.regexpLiteral (regex.get "pattern").text (regex.get "flags").text)
  | .thisExpression => .ok .thisExpression
  | .arrayExpression => .ok .arrayExpression
  | .objectExpression => .ok .objectExpression
  | .property =>
    if (e.get "kind").text != "init" then
      .error (unsupported e ("Property[" ++ (e.get "kind").shown ++ "]"))
    else if (e.get "method").isSet || (e.get "shorthand").isSet then
      .error (unsupported e "Property[shorthand]")
    else .ok (.property (e.get "computed").isSet)
  | .functionExpression => plain .functionExpression
  | .unaryExpression => .ok (.unaryExpression (e.get "operator").text)
  | .updateExpression =>
    .ok (.updateExpression (e.get "operator").text (e.get "prefix").isSet)
  | .binaryExpression => .ok (.binaryExpression (e.get "operator").text)
  | .logicalExpression => .ok (.logicalExpression (e.get "operator").text)
  | .assignmentExpression => .ok (.assignmentExpression (e.get "operator").text)
  | .conditionalExpression => .ok .conditionalExpression
  | .callExpression => .ok .callExpression
  | .newExpression => .ok .newExpression
  | .memberExpression => .ok (.memberExpression (e.get "computed").isSet)
  | .sequenceExpression => .ok .sequenceExpression
  | .regexpLiteral | .foreign _ => .error (unsupported e (e.get "type").shown)
where
  /-- Generators and asynchronous functions are outside the model. -/
  plain (h : Head) : Except Fault Head :=
    if (e.get "generator").isSet then .error (unsupported e "GeneratorFunction")
    else if (e.get "async").isSet || (e.get "isAsync").isSet then
      .error (unsupported e "AsyncFunction")
    else .ok h

def readName (e : Estree) (node : Except Fault Node) : Except Fault Node :=
  match e.get "type" with
  | .str "Identifier" => node
  | type => .error (unsupported e type.shown)

def itemsOf (p : Piece) : Except Fault (List (Estree × Except Fault Node)) :=
  match p.data with
  | .list _ => .ok p.items
  | e => if e.isSet then .error .notApplicable else .ok []

def readSlot (p : Piece) : Reading → Except Fault (Slot Node)
  | .required => do return .one (some (← p.node))
  | .optional =>
    match p.data with
    | .null => .ok (.one none)
    | _ => do return .one (some (← p.node))
  | .name => do return .one (some (← readName p.data p.node))
  | .list => do
    return .many (← (← itemsOf p).mapM fun (_, node) => do return some (← node))
  | .names => do
    return .many (← (← itemsOf p).mapM fun (e, node) => do return some (← readName e node))
  | .holes =>
    match p.data with
    | .list _ => do
      return .many (← p.items.mapM fun (e, node) =>
        match e with
        | .null => .ok none
        | _ => do return some (← node))
    | _ => .error .notApplicable

def missing : Piece := ⟨.null, .error (.unsupported "None" none), []⟩

def readNode (e : Estree) (fields : List (String × Piece)) : Except Fault Node := do
  let kind := match e.get "type" with
    | .str s => Kind.ofName s
    | type => .foreign type.shown
  let head ← toHead e kind
  let slots ← (readings kind).mapM fun (field, reading) =>
    readSlot (((fields.find? (·.1 == field.name)).map (·.2)).getD missing) reading
  return .mk ⟨none, loc? e⟩ head slots

def read (e : Estree) : Piece :=
  Estree.fold (fun e layer =>
    match layer with
    | .scalar => { missing with data := e }
    | .list items => { missing with data := e, items := items.map fun (e, p) => (e, p.node) }
    | .object fields => ⟨e, readNode e (fields.map fun (key, _, p) => (key, p)), []⟩) e

def toNode (e : Estree) : Except Fault Node := (read e).node

end Unravel.Estree
