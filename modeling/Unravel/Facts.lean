import Unravel.Tree.Walk

/-! What a session has learned about names. The namespace is flat, a later fact about a name
replaces the earlier one, and nothing is forgotten. -/

namespace Unravel

/-- Names with their entries, in the order in which the names were first set. -/
abbrev Table (α : Type) := List (String × α)

namespace Table

variable {α : Type}

def get? (t : Table α) (name : String) : Option α := (t.find? (·.1 == name)).map (·.2)

def has (t : Table α) (name : String) : Bool := t.any (·.1 == name)

def set (t : Table α) (name : String) (a : α) : Table α :=
  if t.has name then t.map fun e => if e.1 == name then (name, a) else e else t ++ [(name, a)]

def sorted (t : Table α) : List (String × α) := t.mergeSort fun a b => a.1 ≤ b.1

end Table

inductive Fact where
  | constant (name : String) (value : Value)
  | array (name : String) (values : List Value)
  | function (name : String) (fn : Node)

structure Facts where
  constants : Table Value := []
  arrays : Table (List Value) := []
  functions : Table Node := []

namespace Facts

def learn (facts : Facts) : Fact → Facts × Bool
  | .constant name value =>
    ({ facts with constants := facts.constants.set name value }, !facts.constants.has name)
  | .array name values =>
    ({ facts with arrays := facts.arrays.set name values }, !facts.arrays.has name)
  | .function name fn =>
    ({ facts with functions := facts.functions.set name fn }, !facts.functions.has name)

def refresh (facts : Facts) (current : Nat → Option Node) : Facts :=
  { facts with functions := facts.functions.map fun (name, fn) =>
      (name, (fn.mark.bind current).getD fn) }

def update (facts : Facts) (n : Node) : Facts :=
  facts.refresh fun mark => if n.mark == some mark then some n else none

def summary (facts : Facts) : String :=
  "SymbolTable(constants=" ++ Nat.repr facts.constants.length ++ ", arrays="
    ++ Nat.repr facts.arrays.length ++ ", functions=" ++ Nat.repr facts.functions.length ++ ")"

end Facts
end Unravel
