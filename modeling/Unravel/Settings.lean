import Unravel.Fault

/-! Settings of a session and of the printed text, given by name. -/

namespace Unravel

inductive Entry where
  | none
  | flag (b : Bool)
  | int (n : Int)
  | text (s : String)
  | names (items : List String)
  | pairs (items : List (String × String))
deriving DecidableEq, Repr

namespace Entry

def flag? : Entry → Except Fault Bool
  | .flag b => .ok b
  | _ => .error .notApplicable

def int? : Entry → Except Fault Int
  | .int n => .ok n
  | _ => .error .notApplicable

/-- A text given for a list of names is taken as its characters. -/
def names? : Entry → Except Fault (List String)
  | .names items => .ok items
  | .text s => .ok (s.toList.map String.singleton)
  | .pairs items => .ok (items.map (·.1))
  | _ => .error .notApplicable

def pairs? : Entry → Except Fault (List (String × String))
  | .pairs items => .ok items
  | _ => .error .notApplicable

def shown : Entry → String
  | .none => "None"
  | .flag b => if b then "True" else "False"
  | .int n => intText n
  | .text s => Text.quoted s
  | .names items => "[" ++ Text.commaSeparated (items.map Text.quoted) ++ "]"
  | .pairs items =>
    "\x7b" ++ Text.commaSeparated (items.map fun (k, v) => Text.quoted k ++ ": " ++ Text.quoted v)
      ++ "\x7d"

end Entry

structure Settings where
  passLimit : Nat := 100
  /-- A repeated function declaration nested deeper than this is dropped. -/
  dedupDepth : Nat := 100
  deferredCallees : List String := ["setTimeout"]
  trackMutations : Bool := true
  /-- Record arrays with other elements too, those elements as `undefined`. -/
  partialArrays : Bool := false
  spliceBlocks : Bool := true
  disabledRules : List String := []
  prunedNames : List String := []
  renames : List (String × String) := []
  strict : Bool := false
deriving DecidableEq, Repr

namespace Settings

structure Draft where
  base : Settings := {}
  passLimit : Int := 100
  dedupDepth : Int := 100

def Draft.put (d : Draft) (key : String) (e : Entry) : Except Fault Draft :=
  match key with
  | "max_iterations" => do return { d with passLimit := ← e.int? }
  | "dedup_depth_threshold" => do return { d with dedupDepth := ← e.int? }
  | "deferred_callees" => do
    return { d with base := { d.base with deferredCallees := ← e.names? } }
  | "track_mutations" => do
    return { d with base := { d.base with trackMutations := ← e.flag? } }
  | "capture_partial_arrays" => do
    return { d with base := { d.base with partialArrays := ← e.flag? } }
  | "splice_blocks" => do return { d with base := { d.base with spliceBlocks := ← e.flag? } }
  | "disabled_rules" => do return { d with base := { d.base with disabledRules := ← e.names? } }
  | "prune_names" => do return { d with base := { d.base with prunedNames := ← e.names? } }
  | "renames" => do return { d with base := { d.base with renames := ← e.pairs? } }
  | "strict" => do return { d with base := { d.base with strict := ← e.flag? } }
  | _ => .error .notApplicable

def Draft.check (d : Draft) : Except Refusal Settings :=
  if d.passLimit < 1 then .error (.passLimit d.passLimit)
  else if d.dedupDepth < 0 then .error (.depthLimit d.dedupDepth)
  else .ok { d.base with passLimit := d.passLimit.toNat, dedupDepth := d.dedupDepth.toNat }

def ofEntries (entries : List (String × Entry)) : Except Fault Settings := do
  let draft ← entries.foldlM (fun d (key, e) => d.put key e) ({} : Draft)
  draft.check.mapError .refused

end Settings

inductive QuoteStyle where
  | single
  | double
deriving DecidableEq, Repr

def QuoteStyle.name : QuoteStyle → String
  | .single => "single"
  | .double => "double"

def QuoteStyle.mark : QuoteStyle → Char
  | .single => '\''
  | .double => '"'

structure Style where
  compact : Bool := false
  quotes : QuoteStyle := .single
  indent : String := "    "
deriving DecidableEq, Repr

namespace Style

def put (s : Style) (key : String) (e : Entry) : Except Fault Style :=
  match key with
  | "compact" => do return { s with compact := ← e.flag? }
  | "quote_style" | "quoteStyle" =>
    match e with
    | .text "single" => .ok { s with quotes := .single }
    | .text "double" => .ok { s with quotes := .double }
    | _ => .error (.refused (.quoteStyle e.shown))
  | "indent_style" | "indentStyle" =>
    match e with
    | .text t => .ok { s with indent := t }
    | _ => .error .notApplicable
  | _ => .error .notApplicable

def isKey (key : String) : Bool :=
  ["compact", "quote_style", "quoteStyle", "indent_style", "indentStyle"].contains key

def canonicalKey (key : String) : String :=
  if key == "quoteStyle" then "quote_style"
  else if key == "indentStyle" then "indent_style"
  else key

/-- Of two entries for one setting the later one counts; an unknown key comes before any other
complaint. -/
def ofEntries (entries : List (String × Entry)) : Except Fault Style :=
  if entries.all (isKey ·.1) then
    let given := entries.map fun (key, e) => (canonicalKey key, e)
    let final := given.zipIdx.filter fun ((key, _), i) =>
      !((given.drop (i + 1)).any (·.1 == key))
    final.foldlM (fun s ((key, e), _) => s.put key e) {}
  else .error .notApplicable

def compacted (s : Style) : Style := { s with compact := true, indent := "" }

end Style
end Unravel
