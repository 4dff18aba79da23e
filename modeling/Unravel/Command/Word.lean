import Unravel.Command.Flag

/-! Words of a command line. Before any of them is acted upon, each is taken for an option or for
plain text; a long option may be cut short as long as one remains. -/

namespace Unravel.Command

/-- The value attached to an option; `marked` says that an equals sign stands before it. -/
structure Attached where
  marked : Bool
  text : List Char
deriving DecidableEq, Repr

inductive Word where
  | plain (s : String)
  | dashes
  | flag (f : Flag) (isLong : Bool) (attached : Option Attached)
  | unknown (s : String)
deriving DecidableEq, Repr

namespace Word

def text : Word → String
  | .plain s | .unknown s => s
  | .dashes => "--"
  | .flag _ _ _ => ""

def isLong (spelling : String) : Bool := spelling.startsWith "--"

def isDigit (c : Char) : Bool := (Text.digit? c).isSome

def isNegativeNumber : List Char → Bool
  | '-' :: cs =>
    let (whole, rest) := cs.span isDigit
    match rest with
    | [] => !whole.isEmpty
    | '.' :: part => !part.isEmpty && part.all isDigit
    | _ => false
  | _ => false

def splitValue (s : String) : String × Option (List Char) :=
  let (before, rest) := s.toList.span (· != '=')
  (String.ofList before, rest.tail?)

def candidates (s : String) : List (String × Flag × Option Attached) :=
  if isLong s then
    let (start, value) := splitValue s
    (spellings.filter (·.1.startsWith start)).map fun (spelling, f) =>
      (spelling, f, value.map (⟨true, ·⟩))
  else
    let short := String.ofList (s.toList.take 2)
    (spellings.filter fun (spelling, _) => spelling == short || spelling.startsWith s).map
      fun (spelling, f) =>
        (spelling, f, if spelling == short then some ⟨false, s.toList.drop 2⟩ else none)

/-- A word that begins with a dash and is no option by itself. -/
def cutShort (s : String) : Except Complaint Word :=
  match candidates s with
  | [(spelling, f, attached)] => .ok (.flag f (isLong spelling) attached)
  | [] =>
    .ok (if isNegativeNumber s.toList || s.contains ' ' then .plain s else .unknown s)
  | several => .error (.ambiguous s (several.map (·.1)))

def ofText (s : String) : Except Complaint Word :=
  match Flag.ofSpelling? s with
  | some f => .ok (.flag f (isLong s) none)
  | none =>
    if !s.startsWith "-" || s == "-" then .ok (.plain s)
    else
      let (spelling, value) := splitValue s
      match Flag.ofSpelling? spelling, value with
      | some f, some text => .ok (.flag f (isLong spelling) (some ⟨true, text⟩))
      | _, _ => cutShort s

end Word

def words : List String → Except Complaint (List Word)
  | [] => .ok []
  | s :: rest =>
    if s == "--" then .ok (.dashes :: rest.map .plain)
    else do
      let w ← Word.ofText s
      return w :: (← words rest)

end Unravel.Command
