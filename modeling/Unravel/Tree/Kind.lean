/-! The kinds of syntax nodes and the named child slots of each. -/

namespace Unravel

inductive Kind where
  | program
  | emptyStatement
  | blockStatement
  | expressionStatement
  | ifStatement
  | labeledStatement
  | breakStatement
  | continueStatement
  | returnStatement
  | throwStatement
  | tryStatement
  | catchClause
  | switchStatement
  | switchCase
  | whileStatement
  | doWhileStatement
  | forStatement
  | forInStatement
  | functionDeclaration
  | variableDeclaration
  | variableDeclarator
  | identifier
  | literal
  | regexpLiteral
  | thisExpression
  | arrayExpression
  | objectExpression
  | property
  | functionExpression
  | unaryExpression
  | updateExpression
  | binaryExpression
  | logicalExpression
  | assignmentExpression
  | conditionalExpression
  | callExpression
  | newExpression
  | memberExpression
  | sequenceExpression
  | foreign (name : String)
deriving DecidableEq, Repr

inductive Field where
  | alternate
  | argument
  | arguments
  | block
  | body
  | callee
  | cases
  | consequent
  | declarations
  | discriminant
  | elements
  | expression
  | expressions
  | finalizer
  | handler
  | id
  | init
  | key
  | label
  | left
  | object
  | param
  | params
  | properties
  | property
  | right
  | test
  | update
  | value
deriving DecidableEq, Repr

def Field.name : Field → String
  | .alternate => "alternate"
  | .argument => "argument"
  | .arguments => "arguments"
  | .block => "block"
  | .body => "body"
  | .callee => "callee"
  | .cases => "cases"
  | .consequent => "consequent"
  | .declarations => "declarations"
  | .discriminant => "discriminant"
  | .elements => "elements"
  | .expression => "expression"
  | .expressions => "expressions"
  | .finalizer => "finalizer"
  | .handler => "handler"
  | .id => "id"
  | .init => "init"
  | .key => "key"
  | .label => "label"
  | .left => "left"
  | .object => "object"
  | .param => "param"
  | .params => "params"
  | .properties => "properties"
  | .property => "property"
  | .right => "right"
  | .test => "test"
  | .update => "update"
  | .value => "value"

namespace Kind

def name : Kind → String
  | .program => "Program"
  | .emptyStatement => "EmptyStatement"
  | .blockStatement => "BlockStatement"
  | .expressionStatement => "ExpressionStatement"
  | .ifStatement => "IfStatement"
  | .labeledStatement => "LabeledStatement"
  | .breakStatement => "BreakStatement"
  | .continueStatement => "ContinueStatement"
  | .returnStatement => "ReturnStatement"
  | .throwStatement => "ThrowStatement"
  | .tryStatement => "TryStatement"
  | .catchClause => "CatchClause"
  | .switchStatement => "SwitchStatement"
  | .switchCase => "SwitchCase"
  | .whileStatement => "WhileStatement"
  | .doWhileStatement => "DoWhileStatement"
  | .forStatement => "ForStatement"
  | .forInStatement => "ForInStatement"
  | .functionDeclaration => "FunctionDeclaration"
  | .variableDeclaration => "VariableDeclaration"
  | .variableDeclarator => "VariableDeclarator"
  | .identifier => "Identifier"
  | .literal => "Literal"
  | .regexpLiteral => "RegExpLiteral"
  | .thisExpression => "ThisExpression"
  | .arrayExpression => "ArrayExpression"
  | .objectExpression => "ObjectExpression"
  | .property => "Property"
  | .functionExpression => "FunctionExpression"
  | .unaryExpression => "UnaryExpression"
  | .updateExpression => "UpdateExpression"
  | .binaryExpression => "BinaryExpression"
  | .logicalExpression => "LogicalExpression"
  | .assignmentExpression => "AssignmentExpression"
  | .conditionalExpression => "ConditionalExpression"
  | .callExpression => "CallExpression"
  | .newExpression => "NewExpression"
  | .memberExpression => "MemberExpression"
  | .sequenceExpression => "SequenceExpression"
  | .foreign name => name

def all : List Kind :=
  [.program, .emptyStatement, .blockStatement, .expressionStatement, .ifStatement,
    .labeledStatement, .breakStatement, .continueStatement, .returnStatement, .throwStatement,
    .tryStatement, .catchClause, .switchStatement, .switchCase, .whileStatement,
    .doWhileStatement, .forStatement, .forInStatement, .functionDeclaration,
    .variableDeclaration, .variableDeclarator, .identifier, .literal, .regexpLiteral,
    .thisExpression, .arrayExpression, .objectExpression, .property, .functionExpression,
    .unaryExpression, .updateExpression, .binaryExpression, .logicalExpression,
    .assignmentExpression, .conditionalExpression, .callExpression, .newExpression,
    .memberExpression, .sequenceExpression]

def ofName (s : String) : Kind := (all.find? (·.name == s)).getD (.foreign s)

def isForeign : Kind → Bool
  | .foreign _ => true
  | _ => false

def isFunction : Kind → Bool
  | .functionDeclaration | .functionExpression => true
  | _ => false

def isLoop : Kind → Bool
  | .forStatement | .forInStatement | .whileStatement | .doWhileStatement => true
  | _ => false

def isStatement : Kind → Bool
  | .emptyStatement | .blockStatement | .expressionStatement | .ifStatement | .labeledStatement
  | .breakStatement | .continueStatement | .returnStatement | .throwStatement | .tryStatement
  | .switchStatement | .whileStatement | .doWhileStatement | .forStatement | .forInStatement
  | .functionDeclaration | .variableDeclaration => true
  | _ => false

inductive Arity where
  | one
  | many
deriving DecidableEq, Repr

/-- The child slots of a kind, in the order in which they are walked. -/
def shape : Kind → List (Field × Arity)
  | .program | .blockStatement => [(.body, .many)]
  | .expressionStatement => [(.expression, .one)]
  | .ifStatement | .conditionalExpression =>
    [(.test, .one), (.consequent, .one), (.alternate, .one)]
  | .labeledStatement => [(.label, .one), (.body, .one)]
  | .breakStatement | .continueStatement => [(.label, .one)]
  | .returnStatement | .throwStatement | .unaryExpression | .updateExpression =>
    [(.argument, .one)]
  | .tryStatement => [(.block, .one), (.handler, .one), (.finalizer, .one)]
  | .catchClause => [(.param, .one), (.body, .one)]
  | .switchStatement => [(.discriminant, .one), (.cases, .many)]
  | .switchCase => [(.test, .one), (.consequent, .many)]
  | .whileStatement => [(.test, .one), (.body, .one)]
  | .doWhileStatement => [(.body, .one), (.test, .one)]
  | .forStatement => [(.init, .one), (.test, .one), (.update, .one), (.body, .one)]
  | .forInStatement => [(.left, .one), (.right, .one), (.body, .one)]
  | .functionDeclaration | .functionExpression => [(.id, .one), (.params, .many), (.body, .one)]
  | .variableDeclaration => [(.declarations, .many)]
  | .variableDeclarator => [(.id, .one), (.init, .one)]
  | .arrayExpression => [(.elements, .many)]
  | .objectExpression => [(.properties, .many)]
  | .property => [(.key, .one), (.value, .one)]
  | .binaryExpression | .logicalExpression | .assignmentExpression =>
    [(.left, .one), (.right, .one)]
  | .callExpression | .newExpression => [(.callee, .one), (.arguments, .many)]
  | .memberExpression => [(.object, .one), (.property, .one)]
  | .sequenceExpression => [(.expressions, .many)]
  | .emptyStatement | .identifier | .literal | .regexpLiteral | .thisExpression | .foreign _ => []

def fields (k : Kind) : List Field := k.shape.map (·.1)

end Kind
end Unravel
