import Unravel.Estree.Data
import Unravel.Spelling
import Unravel.Tree.Fold

/-! A tree as data: an object per node, with its kind, its scalars and children in order, and its
position. -/

namespace Unravel.Estree

def ofValue : Value → Estree
  | .bool b => .bool b
  | .number n => .number n
  | .str s => .str s
  | .undefined | .null | .foreign _ => .null

def integer (n : Int) : Estree := .number (.int n)

inductive Member where
  | scalar (key : String) (data : Estree)
  | child (field : Field)

def Member.entry (write : Field → Estree) : Member → String × Estree
  | .scalar key data => (key, data)
  | .child field => (field.name, write field)

def Member.emit (write : Field → Except Fault Estree) : Member → Except Fault (String × Estree)
  | .scalar key data => .ok (key, data)
  | .child field => do return (field.name, ← write field)

/-- The fields of a node in the order in which they are written. -/
def members : Head → List Member
  | .program | .blockStatement => [.child .body]
  | .expressionStatement => [.child .expression]
  | .ifStatement | .conditionalExpression => [.child .test, .child .consequent, .child .alternate]
  | .labeledStatement => [.child .label, .child .body]
  | .breakStatement | .continueStatement => [.child .label]
  | .returnStatement | .throwStatement => [.child .argument]
  | .tryStatement => [.child .block, .child .handler, .child .finalizer]
  | .catchClause => [.child .param, .child .body]
  | .switchStatement => [.child .discriminant, .child .cases]
  | .switchCase => [.child .test, .child .consequent]
  | .whileStatement => [.child .test, .child .body]
  | .doWhileStatement => [.child .body, .child .test]
  | .forStatement => [.child .init, .child .test, .child .update, .child .body]
  | .forInStatement => [.child .left, .child .right, .child .body]
  | .functionDeclaration | .functionExpression => [.child .id, .child .params, .child .body]
  | .variableDeclaration kind => [.scalar "kind" (.str kind), .child .declarations]
  | .variableDeclarator => [.child .id, .child .init]
  | .identifier name => [.scalar "name" (.str name)]
  | .literal value => [.scalar "value" (ofValue value)]
  | .regexpLiteral pattern flags =>
    [.scalar "value" .null,
      .scalar "regex" (.object [("pattern", .str pattern), ("flags", .str flags)])]
  | .arrayExpression => [.child .elements]
  | .objectExpression => [.child .properties]
  | .property computed => [.child .key, .child .value, .scalar "computed" (.bool computed)]
  | .unaryExpression operator =>
    [.scalar "operator" (.str operator), .child .argument, .scalar "prefix" (.bool true)]
  | .updateExpression operator before =>
    [.scalar "operator" (.str operator), .child .argument, .scalar "prefix" (.bool before)]
  | .binaryExpression operator | .logicalExpression operator | .assignmentExpression operator =>
    [.scalar "operator" (.str operator), .child .left, .child .right]
  | .callExpression | .newExpression => [.child .callee, .child .arguments]
  | .memberExpression computed =>
    [.child .object, .child .property, .scalar "computed" (.bool computed)]
  | .sequenceExpression => [.child .expressions]
  | .emptyStatement | .thisExpression | .foreign _ => []

def slotOf {α : Type} (h : Head) (slots : List α) (field : Field) : Option α := do
  let i ← h.kind.fields.findIdx? (· == field)
  slots[i]?

def typeName (h : Head) : String :=
  match h with
  | .regexpLiteral _ _ => "Literal"
  | h => h.kind.name

def position : Option Loc → List (String × Estree)
  | none => []
  | some l =>
    [("loc", .object [("start", .object [("line", integer l.line), ("column", integer l.column)])])]

def ofSlot : Slot (Node × Estree) → Estree
  | .one child => (child.map (·.2)).getD .null
  | .many items => .list (items.map fun c => (c.map (·.2)).getD .null)

def ofNode : Node → Estree :=
  Node.fold fun t h slots =>
    let write (field : Field) := ((slotOf h slots field).map ofSlot).getD .null
    .object (("type", .str (typeName h)) :: (members h).map (·.entry write) ++ position t.loc)

def exportSlot : Slot (Node × Except Fault Estree) → Except Fault Estree
  | .one child => (child.map (·.2)).getD (.ok .null)
  | .many items => do return .list (← items.mapM fun c => (c.map (·.2)).getD (.ok .null))

/-- The data of any tree, its literals spelled. The first node that has no data is refused, in the
order in which the fields are written. -/
def ofTree : Node → Except Fault Estree :=
  Node.fold fun t h slots =>
    match h with
    | .foreign name => .error (.unsupported name t.loc)
    | .literal value => do return ofNode (← Spelling.literal t value)
    | h => do
      let write (field : Field) := ((slotOf h slots field).map exportSlot).getD (.ok .null)
      let fields ← (members h).mapM (·.emit write)
      return .object (("type", .str (typeName h)) :: fields ++ position t.loc)

end Unravel.Estree
