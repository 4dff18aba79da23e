import Unravel.Command.Arguments
import Unravel.Estree.Export
import Unravel.Estree.Json
import Unravel.Pipeline
import Unravel.Source.Program

/-! The work that a command line asks for, and what it leaves behind: an exit code, two texts and
files. Reading the input and writing the files is left to the caller. -/

namespace Unravel.Command

structure Job where
  input : String
  settings : Settings
  style : Style
  outputDir : Option String
  dumpTree : Option String
  verbose : Bool

structure Output where
  path : String
  text : String
  makesDirs : Bool
deriving DecidableEq, Repr

structure Outcome where
  exit : Nat
  stdout : String
  stderr : String
  outputs : List Output
  warnings : List Warning
deriving DecidableEq, Repr

inductive InputError where
  | notFound
  | isDirectory
  | notDirectory
deriving DecidableEq, Repr

def InputError.message (path : String) : InputError → String
  | .notFound => "[Errno 2] No such file or directory: " ++ Text.quoted path
  | .isDirectory => "[Errno 21] Is a directory: " ++ Text.quoted path
  | .notDirectory => "[Errno 20] Not a directory: " ++ Text.quoted path

def versionText : String := "jsfold 1.0.0\n"

def textOfLines (lines : List String) : String := String.join (lines.map (· ++ "\n"))

def usageText : String :=
  textOfLines [
    "usage: jsfold [-h] [-o OUTPUT_DIR] [--compact] [--quotes \x7bsingle,double\x7d]",
    "              [--indent INDENT] [--max-iterations MAX_ITERATIONS]",
    "              [--dedup-depth DEDUP_DEPTH] [--rename OLD=NEW] [--prune NAME]",
    "              [--disable RULE] [--strict] [--dump-ast PATH] [-v] [--version]",
    "              input"]

def helpText : String :=
  usageText ++ textOfLines [
    "",
    "Simplify obfuscated JavaScript by rewriting its syntax tree to a fixed point.",
    "",
    "positional arguments:",
    "  input                 input file, or '-' for stdin",
    "",
    "options:",
    "  -h, --help            show this help message and exit",
    "  -o OUTPUT_DIR, --output-dir OUTPUT_DIR",
    "                        write deobfuscated.js and compactdeobfuscated.js here",
    "  --compact             print compact output",
    "  --quotes \x7bsingle,double\x7d",
    "                        string quote style",
    "  --indent INDENT       indentation unit (default: four spaces)",
    "  --max-iterations MAX_ITERATIONS",
    "                        cap on rewrite passes",
    "  --dedup-depth DEDUP_DEPTH",
    "                        discard duplicate function declarations nested deeper",
    "                        than this",
    "  --rename OLD=NEW      rename an identifier before rewriting (repeatable)",
    "  --prune NAME          delete declarations and call statements of NAME",
    "                        (repeatable)",
    "  --disable RULE        leave a rule out of the rule set (repeatable)",
    "  --strict              fail when the rewrite does not converge",
    "  --dump-ast PATH       write the final tree as ESTree JSON",
    "  -v, --verbose         enable debug logging",
    "  --version             show program's version number and exit"]

def Halt.outcome : Halt → Outcome
  | .help => ⟨0, helpText, "", [], []⟩
  | .version => ⟨0, versionText, "", [], []⟩
  | .complaint c => ⟨2, "", usageText ++ "jsfold: error: " ++ c.message ++ "\n", [], []⟩

namespace Job

def ofArguments (a : Arguments) : Except Halt Job := do
  let draft : Settings.Draft :=
    { base :=
        { renames := a.renames, prunedNames := a.pruned, disabledRules := a.disabled,
          strict := a.strict }
      passLimit := a.passLimit
      dedupDepth := a.dedupDepth }
  let settings ← draft.check.mapError fun cause => .complaint (.settings cause)
  return { input := a.input.getD "-", settings, style := ⟨a.compact, a.quotes, a.indent⟩,
           outputDir := a.outputDir.filter (!·.isEmpty), dumpTree := a.dumpTree.filter (!·.isEmpty),
           verbose := a.verbose }

def ofWords (given : List String) : Except Halt Job := do ofArguments (← Arguments.ofWords given)

def notices (r : Pipeline.Result) : List String :=
  let stopped := if r.fixpoint.status = .converged then [] else
    ["Rewrite stopped after " ++ Nat.repr r.fixpoint.passes.length
      ++ " passes without reaching a fixed point ("
      ++ Nat.repr (r.fixpoint.changesHistory.getLast?.getD 0) ++ " changes in the last pass)"]
  stopped ++ (r.hoist.select .unresolved).map fun (name, depth) =>
    "Duplicate declaration of " ++ name ++ " at depth " ++ Nat.repr depth ++ " left in place"

def joinPath (dir name : String) : String := if dir.endsWith "/" then dir ++ name else dir ++ "/" ++ name

def failed (job : Job) (warnings : List Warning) (detail : String) : Outcome :=
  ⟨1, "", "jsfold: " ++ job.input ++ detail ++ "\n", [], warnings⟩

def unreadable (job : Job) (e : InputError) : Outcome :=
  ⟨1, "", "jsfold: cannot read " ++ job.input ++ ": " ++ e.message job.input ++ "\n", [], []⟩

def finished (job : Job) (warnings : List Warning) (r : Pipeline.Result) :
    Except Fault Outcome := do
  let dump ← match job.dumpTree with
    | some path => do pure [⟨path, (← Estree.ofTree r.tree).json, false⟩]
    | none => pure ([] : List Output)
  let warnings := warnings ++ r.fixpoint.warning?.toList
  let stderr := String.join ((notices r).map fun line => "WARNING: " ++ line ++ "\n")
  match job.outputDir with
  | some dir =>
    let file (name code : String) : Output := ⟨joinPath dir name, code ++ "\n", true⟩
    return ⟨0, "", stderr, dump ++ [file "deobfuscated.js" r.code,
      file "compactdeobfuscated.js" r.compactCode], warnings⟩
  | none => return ⟨0, r.code ++ "\n", stderr, dump, warnings⟩

/-- Line breaks of a file as they are read: each is one line feed. -/
def unixLines : List Char → List Char
  | [] => []
  | '\r' :: '\n' :: cs => '\n' :: unixLines cs
  | '\r' :: cs => '\n' :: unixLines cs
  | c :: cs => c :: unixLines cs

def transform (job : Job) (tree : Node) : Except Fault Pipeline.Result := do
  let rules ← Rule.catalog job.settings
  Pipeline.transform job.settings job.style rules tree

/-- The outcome for an input text. What is wrong with the program is reported; a printer that
refuses a name is a fault. -/
def run (job : Job) (text : String) : Except Fault Outcome :=
  let (tree, hints) := Source.parseWithHints text
  let warnings := hints.map Warning.pattern
  match tree.bind job.transform with
  | .ok r => job.finished warnings r
  | .error (.notAProgram what line column) =>
    .ok (job.failed warnings (":" ++ Nat.repr line ++ ":" ++ intText column ++ ": "
      ++ (Fault.notAProgram what line column).message))
  | .error f =>
    match f with
    | .unsupported _ _ | .stale _ | .rootEdit | .notInList _ | .noConvergence _ _ =>
      .ok (job.failed warnings (": " ++ f.message))
    | _ => .error f

end Job
end Unravel.Command
