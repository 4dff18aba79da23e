import Unravel.Number.Basic

/-! Tokens of source text. A token knows where it starts, and the line in which it ends. -/

namespace Unravel.Source

inductive Lexeme where
  | endOfInput
  | identifier (name : String)
  | keyword (name : String)
  | null
  | boolean (b : Bool)
  /-- `octal` marks the spellings that strict code refuses. -/
  | number (value : Number) (octal : Bool)
  | string (value raw : String) (octal : Bool)
  | punctuator (mark : String)
  | template (raw : String) (head tail : Bool)
  | regexp (pattern flags : String)
deriving DecidableEq, Repr

structure Token where
  lexeme : Lexeme
  start : Nat
  line : Nat
  lineStart : Nat
deriving DecidableEq, Repr

namespace Lexeme

def text : Lexeme → String
  | .identifier s | .keyword s | .punctuator s | .string s _ _ | .template s _ _ => s
  | .null => "null"
  | .boolean b => if b then "true" else "false"
  | .endOfInput | .number _ _ | .regexp _ _ => ""

def isIdentifier : Lexeme → Bool
  | .identifier _ => true
  | _ => false

def isKeyword : Lexeme → Bool
  | .keyword _ => true
  | _ => false

def isEnd : Lexeme → Bool
  | .endOfInput => true
  | _ => false

def isString : Lexeme → Bool
  | .string _ _ _ => true
  | _ => false

def isTemplate : Lexeme → Bool
  | .template _ _ _ => true
  | _ => false

def isOctal : Lexeme → Bool
  | .number _ octal | .string _ _ octal => octal
  | _ => false

def isName : Lexeme → Bool
  | .identifier _ | .keyword _ | .null | .boolean _ => true
  | _ => false

def isKeyStart : Lexeme → Bool
  | .identifier _ | .keyword _ | .null | .boolean _ | .number _ _ | .string _ _ _ => true
  | .punctuator mark => mark == "["
  | _ => false

end Lexeme

/-! Classes of words. -/

def isKeywordName (s : String) : Bool :=
  ["if", "in", "do", "var", "for", "new", "try", "let", "this", "else", "case", "void", "with",
    "enum", "while", "break", "catch", "throw", "const", "yield", "class", "super", "return",
    "typeof", "delete", "switch", "export", "import", "default", "finally", "extends", "function",
    "continue", "debugger", "instanceof"].contains s

def isFutureReserved (s : String) : Bool := ["enum", "export", "import", "super"].contains s

def isStrictReserved (s : String) : Bool :=
  ["implements", "interface", "package", "private", "protected", "public", "static", "yield",
    "let"].contains s

def isRestricted (s : String) : Bool := s == "eval" || s == "arguments"

/-- The marks of two and more characters, the longest first. -/
def compoundMarks : List String :=
  [">>>=", "===", "!==", ">>>", "<<=", ">>=", "**=", "...", "&&", "||", "==", "!=", "+=", "-=", "*=",
    "/=", "++", "--", "<<", ">>", "&=", "|=", "^=", "%=", "<=", ">=", "=>", "**"]

def isMark (c : Char) : Bool := "(){};,[]:?~.<>=!+-*%&|^/".toList.contains c

def isAssignmentMark (s : String) : Bool :=
  ["=", "*=", "**=", "/=", "%=", "+=", "-=", "<<=", ">>=", ">>>=", "&=", "^=", "|="].contains s

def precedence : String → Nat
  | "||" => 1
  | "&&" => 2
  | "|" => 3
  | "^" => 4
  | "&" => 5
  | "==" | "!=" | "===" | "!==" => 6
  | "<" | ">" | "<=" | ">=" => 7
  | "<<" | ">>" | ">>>" => 8
  | "+" | "-" => 9
  | "*" | "/" | "%" => 11
  | _ => 0

end Unravel.Source
