import Unravel.Number.Decimal
import Unravel.Text.Quoted

/-! What can go wrong, as causes. Each cause has one wording, `Fault.message`. -/

namespace Unravel

open Text

/-- A source position: lines count from one, columns from zero. A column is counted from the start of
the line in which its token ends, so it is negative where a token begins on an earlier line. -/
structure Loc where
  line : Nat
  column : Int
deriving DecidableEq, Repr

structure Place where
  kind : String
  parent : Option String
  field : Option String
  index : Option Nat
deriving DecidableEq, Repr

def Place.text (p : Place) : String :=
  let field := p.field.getD "None"
  let slot := match p.index with
    | some i => field ++ "[" ++ Nat.repr i ++ "]"
    | none => field
  "NodePath(" ++ p.kind ++ " at " ++ p.parent.getD "None" ++ "." ++ slot ++ ")"

inductive Refusal where
  | passLimit (got : Int)
  | depthLimit (got : Int)
  | unknownRules (names : List String)
  | quoteStyle (shown : String)
  | binaryOperator (operator : String)
  | emptyDeclaration
  | resourceDeclaration
  | emptySequence
  | identifierName
  | regexpFlags
  | digitCount (got : Nat)
deriving DecidableEq, Repr

def Refusal.message : Refusal → String
  | .passLimit n => "max_iterations must be positive, got " ++ intText n
  | .depthLimit n => "dedup_depth_threshold must be non-negative, got " ++ intText n
  | .unknownRules names => "unknown rule names: [" ++ commaSeparated (names.map quoted) ++ "]"
  | .quoteStyle shown => "quote_style must be one of ('single', 'double'), got " ++ shown
  | .binaryOperator op => "Unsupported binary operator: " ++ op
  | .emptyDeclaration => "VariableDeclaration.declarations cannot be empty"
  | .resourceDeclaration => "Resource declarations require extensions.resourceManagement"
  | .emptySequence => "SequenceExpression.expressions cannot be empty"
  | .identifierName => "Identifier.name must be a valid ECMAScript IdentifierName"
  | .regexpFlags => "Invalid ECMAScript regular-expression flags"
  | .digitCount n =>
    "Exceeds the limit (4300 digits) for integer string conversion: value has " ++ Nat.repr n
      ++ " digits; use sys.set_int_max_str_digits() to increase the limit"

inductive Fault where
  | unsupported (kind : String) (loc : Option Loc)
  | stale (place : Place)
  | rootEdit
  | notInList (place : Place)
  | pastEnd
  | noConvergence (passes : Nat) (lastChanges : Nat)
  | notAProgram (text : String) (line : Nat) (column : Int)
  | emptySubstitution
  | refused (cause : Refusal)
  | tooLarge
  /-- An operation on something that is no value of the language, or an unknown setting. -/
  | notApplicable
  /-- A slot holds a node of a kind that the slot never holds in a program. -/
  | malformed
  | outOfFuel
deriving DecidableEq, Repr

def Loc.text (l : Loc) : String :=
  " at line " ++ Nat.repr l.line ++ ", column " ++ intText l.column

def Fault.message : Fault → String
  | .unsupported kind loc =>
    "unsupported node kind " ++ quoted kind ++ (loc.map Loc.text).getD ""
  | .stale place => place.text ++ " is stale: slot no longer holds the node"
  | .rootEdit => "cannot replace the root node"
  | .notInList p =>
    "cannot remove " ++ p.kind ++ " from single-node slot " ++ p.parent.getD "None" ++ "."
      ++ p.field.getD "None"
  | .pastEnd => "list index out of range"
  | .noConvergence passes last =>
    "rewrite did not converge after " ++ Nat.repr passes ++ " passes (" ++ Nat.repr last
      ++ " changes in the last pass)"
  | .notAProgram text line _ => "Line " ++ Nat.repr line ++ ": " ++ text
  | .emptySubstitution => "a template substitution needs an expression"
  | .refused cause => cause.message
  | .tooLarge => "integer too large to convert to a double"
  | .notApplicable => "operand is not a value"
  | .malformed => "slot holds a node of the wrong kind"
  | .outOfFuel => "too many nested visits"

end Unravel
