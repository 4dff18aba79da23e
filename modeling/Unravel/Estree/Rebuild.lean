import Unravel.Estree.Data
import Unravel.Tree.Node

/-! Data in the form of a parsed program: without positions, with the flags that a parser sets, and with
braces around a consequent that would capture a following `else`. -/

namespace Unravel.Estree

def kindOf (e : Estree) : Kind :=
  match e.get "type" with
  | .str s => Kind.ofName s
  | type => .foreign type.shown

def functionFlags : List (String × Estree) :=
  [("generator", .bool false), ("expression", .bool false), ("async", .bool false),
    ("isAsync", .bool false)]

def defaults : Kind → List (String × Estree)
  | .program => [("sourceType", .str "script")]
  | .functionDeclaration | .functionExpression => functionFlags
  | .property => [("kind", .str "init"), ("method", .bool false), ("shorthand", .bool false)]
  | .forInStatement => [("each", .bool false)]
  | _ => []

def endsOpenBy (e : Estree) (follow : String → Except Fault Bool) : Except Fault Bool :=
  match kindOf e with
  | .ifStatement =>
    match e.get "alternate" with
    | .null => .ok true
    | _ => follow "alternate"
  | .whileStatement | .forStatement | .forInStatement | .labeledStatement => follow "body"
  | _ => .ok false

def endsOpen (e : Estree) : Except Fault Bool :=
  Estree.fold (fun e layer =>
    match layer with
    | .object fields =>
      endsOpenBy e fun key => ((fields.find? (·.1 == key)).map (·.2.2)).getD (.error .notApplicable)
    | _ => .error .notApplicable) e

def capturesElse (e : Estree) : Except Fault Bool :=
  match kindOf e, e.get "alternate" with
  | .ifStatement, .null => .ok false
  | .ifStatement, _ => endsOpen (e.get "consequent")
  | _, _ => .ok false

def braced (e : Estree) : Estree :=
  .object [("type", .str Kind.blockStatement.name), ("body", .list [e])]

/-- The data of a tree as a parser would give it. Where a field is there twice, the first one
counts, so no default stands in the way of the data. -/
def rebuild (e : Estree) : Except Fault Estree :=
  Estree.fold (fun e layer =>
    match layer with
    | .scalar => .ok e
    | .list items => do return .list (← items.mapM (·.2))
    | .object fields => do
      let captures ← capturesElse e
      let fields ← (fields.filter (·.1 != "loc")).mapM fun (key, _, rebuilt) => do
        let data ← rebuilt
        return (key, if captures && key == "consequent" then braced data else data)
      return .object (fields ++ defaults (kindOf e))) e

end Unravel.Estree
