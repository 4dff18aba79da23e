import Unravel.Loop

/-! A small script: blocks, `if`, declarations, and expressions over names, literals, operators,
assignments and updates. A run reads and writes variables; a read before the declaration, a read of a
name that nobody declares and a write to a constant throw. -/

namespace Unravel.Script

open Node

/-- A binding of a block. It has no value until its declaration is reached. -/
structure Binding where
  value : Option Value
  constant : Bool

abbrev Scope := String → Option Binding

structure Store where
  blocks : List Scope
  vars : String → Option Value

namespace Store

def read (st : Store) (name : String) : Option Value :=
  match st.blocks.findSome? (· name) with
  | some b => b.value
  | none => st.vars name

/-- Writes to the innermost binding of a name. A binding without a value and a constant are not
written to, and a name without a binding becomes a variable. -/
def assign (name : String) (v : Value) : List Scope → (String → Option Value) → Option Store
  | [], vars => some ⟨[], fun n => if n = name then some v else vars n⟩
  | s :: ss, vars =>
    match s name with
    | some b =>
      if b.value.isNone || b.constant then none
      else some ⟨(fun n => if n = name then some ⟨some v, false⟩ else s n) :: ss, vars⟩
    | none => (assign name v ss vars).map fun st => ⟨s :: st.blocks, st.vars⟩

def settle (name : String) (b : Binding) : Store → Store
  | ⟨s :: ss, vars⟩ => ⟨(fun n => if n = name then some b else s n) :: ss, vars⟩
  | st => st

def enter (s : Scope) (st : Store) : Store := ⟨s :: st.blocks, st.vars⟩

def leave (st : Store) : Store := ⟨st.blocks.tail, st.vars⟩

end Store

/-- A run: nothing for what is no script, else what it ends with, or that it throws. -/
abbrev Run := ExceptT Unit (StateT Store Option)

namespace Run

def noScript {α : Type} : Run α := fun _ => none

def orThrow {α : Type} : Option α → Run α
  | some a => pure a
  | none => throw ()

def read (name : String) : Run Value := do orThrow ((← get).read name)

def write (name : String) (v : Value) : Run Unit := do
  let st ← get
  set (← orThrow (Store.assign name v st.blocks st.vars))

def inBlock {α : Type} (s : Scope) (m : Run α) : Run α := fun st =>
  (m (st.enter s)).map fun (r, st') => (r, st'.leave)

end Run

/-- What operators make of values that are not two numbers, and operators other than sums,
differences and comparisons of any values; nothing where they throw. -/
abbrev Operators := String → Value → Value → Option Value

def operate (other : Operators) (operator : String) (a b : Value) : Option Value :=
  match a, b with
  | .number x, .number y =>
    if operator = "+" || operator = "+=" then (Value.add (.number x) (.number y)).toOption
    else if operator = "-" || operator = "-=" then (Value.add (.number x) (.number y.neg)).toOption
    else match Number.comparison? operator with
      | some compares => some (.bool (compares x y))
      | none => other operator a b
  | _, _ => other operator a b

/-- What a literal stands for: an integer beyond the limit for the nearest double. -/
def literalValue : Value → Value
  | .int n =>
    if n.natAbs ≤ Number.integerLimit then .int n
    else .float (Double.signed (n < 0) (Double.ofRatio n.natAbs 1))
  | v => v

def isTrue (v : Value) : Bool :=
  match v.truthy with
  | .ok b => b
  | .error _ => true

section
variable (other : Operators)

def eval : Node → Run Value
  | .literal _ v => pure (literalValue v)
  | .identifier _ name => .read name
  | .assignmentExpression _ operator (.identifier _ name) right =>
    if operator = "=" then do
      let v ← eval right
      .write name v
      return v
    else do
      let old ← Run.read name
      let v ← eval right
      let v ← .orThrow (operate other operator old v)
      .write name v
      return v
  | .updateExpression _ operator before (.identifier _ name) => do
    let old : Value := .number (← Run.read name).toNumber
    let v ← .orThrow (operate other (if operator = "++" then "+" else "-") old (.int 1))
    .write name v
    return if before then v else old
  | .binaryExpression _ operator left right => do
    let a ← eval left
    let b ← eval right
    .orThrow (operate other operator a b)
  | _ => .noScript

def give (kind name : String) (v : Value) : Run Unit :=
  if kind = "var" then .write name v else modify (.settle name ⟨some v, kind == "const"⟩)

/-- Declares one name. A variable without an initial value is left as it is. -/
def declareName (kind name : String) : Option Node → Run Unit
  | some e => do give kind name (← eval other e)
  | none => if kind = "var" then pure () else give kind name .undefined

def declare (kind : String) : List (Option Node) → Run Unit
  | [] => pure ()
  | some (.variableDeclarator _ (some (.identifier _ name)) init) :: ds => do
    declareName other kind name init
    declare kind ds
  | _ :: _ => .noScript

def blockNames (body : List (Option Node)) : List String :=
  body.flatMap fun
    | some (.variableDeclaration _ kind ds) =>
      if kind = "var" then [] else ds.filterMap fun d => (declaredName d).toOption
    | _ => []

def blockScope (body : List (Option Node)) : Scope := fun name =>
  if name ∈ blockNames body then some ⟨none, false⟩ else none

mutual

def exec : Node → Run Unit
  | .expressionStatement _ e => do
    let _ ← eval other e
  | .blockStatement _ body => .inBlock (blockScope body) (execItems body)
  | .mk _ .ifStatement [.one (some test), .one (some consequent), .one alternate] => do
    if isTrue (← eval other test) then .inBlock (blockScope [some consequent]) (exec consequent)
    else
      match alternate with
      | none => pure ()
      | some alternate => .inBlock (blockScope [some alternate]) (exec alternate)
  | .variableDeclaration _ kind ds => declare other kind ds
  | _ => .noScript

def execItems : List (Option Node) → Run Unit
  | [] => pure ()
  | none :: _ => .noScript
  | some n :: ns => do
    exec n
    execItems ns

end

def execBody (body : Node) : Run Unit := .inBlock (blockScope [some body]) (exec other body)

end

/-! What is a script. -/

def isExpression : Node → Bool
  | .literal _ _ | .identifier _ _ => true
  | .assignmentExpression _ _ (.identifier _ _) right => isExpression right
  | .updateExpression _ _ _ (.identifier _ _) => true
  | .binaryExpression _ "+" left right => isExpression left && isExpression right
  | _ => false

def isDeclarator : Option Node → Bool
  | some (.variableDeclarator _ (some (.identifier _ _)) init) => init.all isExpression
  | _ => false

mutual

def isStatement : Node → Bool
  | .expressionStatement _ e => isExpression e
  | .blockStatement _ body => isBody body
  | .mk _ .ifStatement [.one (some test), .one (some consequent), .one alternate] =>
    isExpression test && isStatement consequent &&
      match alternate with
      | none => true
      | some alternate => isStatement alternate
  | .variableDeclaration _ _ ds => ds.all isDeclarator
  | _ => false

def isBody : List (Option Node) → Bool
  | [] => true
  | none :: _ => false
  | some n :: ns => isStatement n && isBody ns

end

end Unravel.Script
