import Unravel.Rule.Catalog

/-! The options of the command line, their spellings and the complaints about them. -/

namespace Unravel.Command

inductive Flag where
  | help
  | outputDir
  | compact
  | quotes
  | indent
  | passLimit
  | dedupDepth
  | rename
  | prune
  | disable
  | strict
  | dumpTree
  | verbose
  | version
deriving DecidableEq, Repr

def spellings : List (String × Flag) :=
  [("-h", .help), ("--help", .help), ("-o", .outputDir), ("--output-dir", .outputDir),
    ("--compact", .compact), ("--quotes", .quotes), ("--indent", .indent),
    ("--max-iterations", .passLimit), ("--dedup-depth", .dedupDepth), ("--rename", .rename),
    ("--prune", .prune), ("--disable", .disable), ("--strict", .strict), ("--dump-ast", .dumpTree),
    ("-v", .verbose), ("--verbose", .verbose), ("--version", .version)]

namespace Flag

def ofSpelling? (s : String) : Option Flag := (spellings.find? (·.1 == s)).map (·.2)

def name (f : Flag) : String :=
  "/".intercalate ((spellings.filter (·.2 == f)).map (·.1))

def takesValue : Flag → Bool
  | .help | .compact | .strict | .verbose | .version => false
  | _ => true

end Flag

inductive Complaint where
  | ambiguous (given : String) (candidates : List String)
  | valueMissing (f : Flag)
  | valueIgnored (f : Flag) (given : String)
  | notAnInteger (f : Flag) (given : String)
  | notAChoice (f : Flag) (given : String) (choices : List String)
  | notARename (given : String)
  | inputMissing
  | unrecognized (given : List String)
  | settings (cause : Refusal)
deriving DecidableEq, Repr

def Complaint.message : Complaint → String
  | .ambiguous given candidates =>
    "ambiguous option: " ++ given ++ " could match " ++ Text.commaSeparated candidates
  | .valueMissing f => "argument " ++ f.name ++ ": expected one argument"
  | .valueIgnored f given =>
    "argument " ++ f.name ++ ": ignored explicit argument " ++ Text.quoted given
  | .notAnInteger f given => "argument " ++ f.name ++ ": invalid int value: " ++ Text.quoted given
  | .notAChoice f given choices =>
    "argument " ++ f.name ++ ": invalid choice: " ++ Text.quoted given ++ " (choose from "
      ++ Text.commaSeparated (choices.map Text.quoted) ++ ")"
  | .notARename given =>
    "argument " ++ Flag.name .rename ++ ": expected OLD=NEW, got " ++ Text.quoted given
  | .inputMissing => "the following arguments are required: input"
  | .unrecognized given => "unrecognized arguments: " ++ " ".intercalate given
  | .settings cause => cause.message

inductive Halt where
  | help
  | version
  | complaint (c : Complaint)
deriving DecidableEq, Repr

end Unravel.Command
