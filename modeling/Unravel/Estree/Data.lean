import Unravel.Value

/-! Data of the exchange format for syntax trees: objects with ordered fields, lists and scalars. -/

namespace Unravel

inductive Estree where
  | null
  | bool (b : Bool)
  | number (n : Number)
  | str (s : String)
  | list (items : List Estree)
  | object (fields : List (String × Estree))

namespace Estree

instance : Inhabited Estree := ⟨.null⟩

inductive Layer (α : Type) where
  | scalar
  | list (items : List (Estree × α))
  | object (fields : List (String × Estree × α))

mutual

def fold {α : Type} (f : Estree → Layer α → α) : Estree → α
  | .list items => f (.list items) (.list (foldItems f items))
  | .object fields => f (.object fields) (.object (foldFields f fields))
  | .null => f .null .scalar
  | .bool b => f (.bool b) .scalar
  | .number n => f (.number n) .scalar
  | .str s => f (.str s) .scalar

def foldItems {α : Type} (f : Estree → Layer α → α) : List Estree → List (Estree × α)
  | [] => []
  | e :: es => (e, fold f e) :: foldItems f es

def foldFields {α : Type} (f : Estree → Layer α → α) :
    List (String × Estree) → List (String × Estree × α)
  | [] => []
  | (key, e) :: es => (key, e, fold f e) :: foldFields f es

end

/-- The field of an object; a missing one is null. -/
def get (e : Estree) (key : String) : Estree :=
  match e with
  | .object fields => ((fields.find? (·.1 == key)).map (·.2)).getD .null
  | _ => .null

def isSet : Estree → Bool
  | .null => false
  | .bool b => b
  | .number n => !n.isZero
  | .str s => !s.isEmpty
  | .list items => !items.isEmpty
  | .object _ => true

def text : Estree → String
  | .str s => s
  | _ => ""

def shown : Estree → String
  | .null => "None"
  | .bool b => if b then "True" else "False"
  | .number (.int n) => intText n
  | .number (.float x) => if Double.isNegative x then "-" ++ (Numeral.ofDouble (-x)).text
    else (Numeral.ofDouble x).text
  | .str s => s
  | .list _ => "[]"
  | .object _ => "\x7b\x7d"

end Estree
end Unravel
