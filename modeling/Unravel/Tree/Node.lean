import Unravel.Tree.Kind
import Unravel.Value

/-! Syntax trees. A node has a tag (its mark and its source position), a head (its kind with the
scalars of that kind) and one slot per child field. -/

namespace Unravel

/-- The mark tells a node from every other one of a session; a node made by a rule has none until
it is placed. -/
structure Tag where
  mark : Option Nat
  loc : Option Loc
deriving DecidableEq, Repr

def Tag.fresh (loc : Option Loc) : Tag := ⟨none, loc⟩

inductive Head where
  | program
  | emptyStatement
  | blockStatement
  | expressionStatement
  | ifStatement
  | labeledStatement
  | breakStatement
  | continueStatement
  | returnStatement
  | throwStatement
  | tryStatement
  | catchClause
  | switchStatement
  | switchCase
  | whileStatement
  | doWhileStatement
  | forStatement
  | forInStatement
  | functionDeclaration
  | variableDeclaration (kind : String)
  | variableDeclarator
  | identifier (name : String)
  | literal (value : Value)
  | regexpLiteral (pattern flags : String)
  | thisExpression
  | arrayExpression
  | objectExpression
  | property (computed : Bool)
  | functionExpression
  | unaryExpression (operator : String)
  | updateExpression (operator : String) (before : Bool)
  | binaryExpression (operator : String)
  | logicalExpression (operator : String)
  | assignmentExpression (operator : String)
  | conditionalExpression
  | callExpression
  | newExpression
  | memberExpression (computed : Bool)
  | sequenceExpression
  | foreign (name : String)
deriving DecidableEq, Repr

def Head.kind : Head → Kind
  | .program => .program
  | .emptyStatement => .emptyStatement
  | .blockStatement => .blockStatement
  | .expressionStatement => .expressionStatement
  | .ifStatement => .ifStatement
  | .labeledStatement => .labeledStatement
  | .breakStatement => .breakStatement
  | .continueStatement => .continueStatement
  | .returnStatement => .returnStatement
  | .throwStatement => .throwStatement
  | .tryStatement => .tryStatement
  | .catchClause => .catchClause
  | .switchStatement => .switchStatement
  | .switchCase => .switchCase
  | .whileStatement => .whileStatement
  | .doWhileStatement => .doWhileStatement
  | .forStatement => .forStatement
  | .forInStatement => .forInStatement
  | .functionDeclaration => .functionDeclaration
  | .variableDeclaration _ => .variableDeclaration
  | .variableDeclarator => .variableDeclarator
  | .identifier _ => .identifier
  | .literal _ => .literal
  | .regexpLiteral _ _ => .regexpLiteral
  | .thisExpression => .thisExpression
  | .arrayExpression => .arrayExpression
  | .objectExpression => .objectExpression
  | .property _ => .property
  | .functionExpression => .functionExpression
  | .unaryExpression _ => .unaryExpression
  | .updateExpression _ _ => .updateExpression
  | .binaryExpression _ => .binaryExpression
  | .logicalExpression _ => .logicalExpression
  | .assignmentExpression _ => .assignmentExpression
  | .conditionalExpression => .conditionalExpression
  | .callExpression => .callExpression
  | .newExpression => .newExpression
  | .memberExpression _ => .memberExpression
  | .sequenceExpression => .sequenceExpression
  | .foreign name => .foreign name

/-- A child slot. A list may have holes. -/
inductive Slot (α : Type) where
  | one (child : Option α)
  | many (items : List (Option α))
deriving Repr

inductive Node where
  | mk (tag : Tag) (head : Head) (slots : List (Slot Node))

instance : Inhabited Node := ⟨.mk ⟨none, none⟩ .emptyStatement []⟩

namespace Node

def tag : Node → Tag
  | .mk t _ _ => t

def head : Node → Head
  | .mk _ h _ => h

def slots : Node → List (Slot Node)
  | .mk _ _ ss => ss

def mark (n : Node) : Option Nat := n.tag.mark

def loc (n : Node) : Option Loc := n.tag.loc

def kind (n : Node) : Kind := n.head.kind

def isFunction (n : Node) : Bool := n.kind.isFunction

/-! Shorthands for the kinds that rules take apart or build. -/

@[match_pattern] abbrev identifier (t : Tag) (name : String) : Node := .mk t (.identifier name) []

@[match_pattern] abbrev literal (t : Tag) (value : Value) : Node := .mk t (.literal value) []

@[match_pattern] abbrev emptyStatement (t : Tag) : Node := .mk t .emptyStatement []

@[match_pattern] abbrev program (t : Tag) (body : List (Option Node)) : Node :=
  .mk t .program [.many body]

@[match_pattern] abbrev blockStatement (t : Tag) (body : List (Option Node)) : Node :=
  .mk t .blockStatement [.many body]

@[match_pattern] abbrev expressionStatement (t : Tag) (e : Node) : Node :=
  .mk t .expressionStatement [.one (some e)]

@[match_pattern] abbrev returnStatement (t : Tag) (argument : Option Node) : Node :=
  .mk t .returnStatement [.one argument]

@[match_pattern] abbrev variableDeclaration (t : Tag) (kind : String)
    (declarations : List (Option Node)) : Node :=
  .mk t (.variableDeclaration kind) [.many declarations]

@[match_pattern] abbrev variableDeclarator (t : Tag) (id init : Option Node) : Node :=
  .mk t .variableDeclarator [.one id, .one init]

@[match_pattern] abbrev functionDeclaration (t : Tag) (id : Option Node)
    (params : List (Option Node)) (body : Option Node) : Node :=
  .mk t .functionDeclaration [.one id, .many params, .one body]

@[match_pattern] abbrev functionExpression (t : Tag) (id : Option Node)
    (params : List (Option Node)) (body : Option Node) : Node :=
  .mk t .functionExpression [.one id, .many params, .one body]

@[match_pattern] abbrev assignmentExpression (t : Tag) (operator : String) (left right : Node) :
    Node :=
  .mk t (.assignmentExpression operator) [.one (some left), .one (some right)]

@[match_pattern] abbrev binaryExpression (t : Tag) (operator : String) (left right : Node) : Node :=
  .mk t (.binaryExpression operator) [.one (some left), .one (some right)]

@[match_pattern] abbrev logicalExpression (t : Tag) (operator : String) (left right : Node) :
    Node :=
  .mk t (.logicalExpression operator) [.one (some left), .one (some right)]

@[match_pattern] abbrev conditionalExpression (t : Tag) (test consequent alternate : Node) : Node :=
  .mk t .conditionalExpression [.one (some test), .one (some consequent), .one (some alternate)]

@[match_pattern] abbrev unaryExpression (t : Tag) (operator : String) (argument : Node) : Node :=
  .mk t (.unaryExpression operator) [.one (some argument)]

@[match_pattern] abbrev updateExpression (t : Tag) (operator : String) (before : Bool)
    (argument : Node) : Node :=
  .mk t (.updateExpression operator before) [.one (some argument)]

@[match_pattern] abbrev callExpression (t : Tag) (callee : Node) (arguments : List (Option Node)) :
    Node :=
  .mk t .callExpression [.one (some callee), .many arguments]

@[match_pattern] abbrev memberExpression (t : Tag) (computed : Bool) (object property : Node) :
    Node :=
  .mk t (.memberExpression computed) [.one (some object), .one (some property)]

@[match_pattern] abbrev arrayExpression (t : Tag) (elements : List (Option Node)) : Node :=
  .mk t .arrayExpression [.many elements]

def name? : Node → Option String
  | .mk _ (.identifier name) _ => some name
  | _ => none

def value? : Node → Option Value
  | .mk _ (.literal value) _ => some value
  | _ => none

def supported : Node → Except Fault Unit
  | .mk t (.foreign name) _ => .error (.unsupported name t.loc)
  | _ => .ok ()

end Node
end Unravel
