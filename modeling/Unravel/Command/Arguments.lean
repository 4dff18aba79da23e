import Unravel.Command.Word
import Unravel.Number.Reading
import Unravel.Settings

/-! What a command line asks for. Options are acted upon in order; one word that is no option names
the input. -/

namespace Unravel.Command

structure Arguments where
  input : Option String
  outputDir : Option String
  compact : Bool
  quotes : QuoteStyle
  indent : String
  passLimit : Int
  dedupDepth : Int
  renames : List (String × String)
  pruned : List String
  disabled : List String
  strict : Bool
  dumpTree : Option String
  verbose : Bool
  extra : List String
deriving Repr

namespace Arguments

def start : Arguments :=
  { input := none, outputDir := none, compact := false, quotes := .single, indent := "    ",
    passLimit := 100, dedupDepth := 100, renames := [], pruned := [], disabled := [],
    strict := false, dumpTree := none, verbose := false, extra := [] }

/-! Values -/

def ungrouped : List Char → Option (List Char)
  | [] => some []
  | '_' :: _ => none
  | c :: '_' :: d :: cs => if d == '_' then none else (ungrouped (d :: cs)).map (c :: ·)
  | [_, '_'] => none
  | c :: cs => (ungrouped cs).map (c :: ·)

/-- An integer as it is given on a command line: blanks around it and digits of any script count. -/
def integer? (s : String) : Option Int :=
  let cs := (Text.trim s.toList).map Text.plainDigit
  let (negative, ds) := Number.sign cs
  (ungrouped ds).bind fun ds =>
    if Number.digitLimit < ds.length then none
    else (Number.natural? 10 ds).map fun n => if negative then -(n : Int) else n

def quoteStyle? (s : String) : Option QuoteStyle :=
  [QuoteStyle.single, .double].find? (·.name == s)

def renamePair? (s : String) : Option (String × String) :=
  match Word.splitValue s with
  | (old, some new) => if old.isEmpty || new.isEmpty then none else some (old, String.ofList new)
  | _ => none

/-- A second new name for the same old one replaces the first in its place. -/
def putRename (pairs : List (String × String)) (old new : String) : List (String × String) :=
  if pairs.any (·.1 == old) then pairs.map fun p => if p.1 == old then (old, new) else p
  else pairs ++ [(old, new)]

def orComplain {α : Type} (c : Complaint) : Option α → Except Halt α
  | some a => .ok a
  | none => .error (.complaint c)

def act (a : Arguments) (f : Flag) (value : String) : Except Halt Arguments :=
  match f with
  | .help => .error .help
  | .version => .error .version
  | .outputDir => .ok { a with outputDir := some value }
  | .compact => .ok { a with compact := true }
  | .quotes => do
    let style ← orComplain (.notAChoice .quotes value ["single", "double"]) (quoteStyle? value)
    return { a with quotes := style }
  | .indent => .ok { a with indent := value }
  | .passLimit => do
    return { a with passLimit := ← orComplain (.notAnInteger .passLimit value) (integer? value) }
  | .dedupDepth => do
    return { a with dedupDepth := ← orComplain (.notAnInteger .dedupDepth value) (integer? value) }
  | .rename => do
    let (old, new) ← orComplain (.notARename value) (renamePair? value)
    return { a with renames := putRename a.renames old new }
  | .prune => .ok { a with pruned := a.pruned ++ [value] }
  | .disable =>
    if Rule.names.contains value then .ok { a with disabled := a.disabled ++ [value] }
    else .error (.complaint (.notAChoice .disable value Rule.names))
  | .strict => .ok { a with strict := true }
  | .dumpTree => .ok { a with dumpTree := some value }
  | .verbose => .ok { a with verbose := true }

/-! Options -/

/-- What one word of options asks for: options without a value, then possibly one whose value is
given or still to come. -/
structure Cluster where
  flags : List Flag
  last : Option (Flag × Option String)
  rest : List String

def cluster (f : Flag) (isLong marked : Bool) : List Char → Except Complaint Cluster
  | [] => if f.takesValue then .ok ⟨[], some (f, some ""), []⟩ else .error (.valueIgnored f "")
  | c :: cs =>
    if f.takesValue then .ok ⟨[], some (f, some (String.ofList (c :: cs))), []⟩
    else if isLong || marked || c == '-' then .error (.valueIgnored f (String.ofList (c :: cs)))
    else
      match Flag.ofSpelling? (String.ofList ['-', c]), cs with
      | none, _ => .ok ⟨[f], none, [String.ofList ('-' :: c :: cs)]⟩
      | some g, [] => .ok ⟨[f], some (g, none), []⟩
      | some g, '=' :: value => do
        let more ← cluster g false true value
        return { more with flags := f :: more.flags }
      | some g, cs => do
        let more ← cluster g false false cs
        return { more with flags := f :: more.flags }

def actAll (a : Arguments) : List Flag → Except Halt Arguments
  | [] => .ok a
  | f :: fs => do (← a.act f "").actAll fs

def actCluster (a : Arguments) (c : Cluster) (ws : List Word) :
    Except Halt (Arguments × List Word) :=
  match c.last with
  | none => do
    let a ← a.actAll c.flags
    return ({ a with extra := a.extra ++ c.rest }, ws)
  | some (f, some value) => do return (← (← a.actAll c.flags).act f value, ws)
  | some (f, none) =>
    if f.takesValue then
      match ws with
      | .plain value :: ws => do return (← (← a.actAll c.flags).act f value, ws)
      | _ => .error (.complaint (.valueMissing f))
    else do return (← (← a.actAll c.flags).act f "", ws)

def option (a : Arguments) (f : Flag) (isLong : Bool) (attached : Option Attached)
    (ws : List Word) : Except Halt (Arguments × List Word) :=
  match attached with
  | none => a.actCluster ⟨[], some (f, none), []⟩ ws
  | some value =>
    match cluster f isLong value.marked value.text with
    | .ok c => a.actCluster c ws
    | .error c => .error (.complaint c)

/-! Words -/

def takeRest (a : Arguments) (ws : List Word) : Arguments :=
  match a.input, ws with
  | none, w :: ws => { a with input := some (Word.text w), extra := a.extra ++ ws.map Word.text }
  | _, ws => { a with extra := a.extra ++ "--" :: ws.map Word.text }

/-- Acts upon all words in order. Each round takes a word, so their number bounds the rounds. -/
def take : Nat → Arguments → List Word → Except Halt Arguments
  | _, a, [] => .ok a
  | 0, a, _ => .ok a
  | n + 1, a, w :: ws =>
    match w with
    | .plain s =>
      match a.input, ws with
      | none, .dashes :: ws =>
        .ok { a with input := some s, extra := a.extra ++ ws.map Word.text }
      | none, ws => take n { a with input := some s } ws
      | some _, ws => take n { a with extra := a.extra ++ [s] } ws
    | .dashes => .ok (a.takeRest ws)
    | .unknown s => take n { a with extra := a.extra ++ [s] } ws
    | .flag f isLong attached => do
      let (a, ws) ← a.option f isLong attached ws
      take n a ws

def ofWords (given : List String) : Except Halt Arguments := do
  let ws ← match words given with
    | .ok ws => pure ws
    | .error c => .error (.complaint c)
  let a ← take ws.length start ws
  if a.input.isNone then .error (.complaint .inputMissing)
  else if !a.extra.isEmpty then .error (.complaint (.unrecognized a.extra))
  else return a

end Arguments
end Unravel.Command
