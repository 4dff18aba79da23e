import Unravel.Regexp.Pattern
import Unravel.Source.Blank
import Unravel.Source.Escape
import Unravel.Source.Token
import Unravel.Text.IdentifierChar

/-! Reading one token. The longest mark wins; a slash is read as a mark, and read again as a regular
expression where the grammar asks for one. -/

namespace Unravel.Source.Scan

open Text

def token (start : Nat) (l : Lexeme) : Scan Token := do
  let c ← get
  return ⟨l, start, c.line, c.lineStart⟩

/-! Names -/

/-- The vertical tilde: a letter by its category, though no character of identifiers. Names in source
text may hold it. -/
def isTilde (c : Char) : Bool := c.toNat == 0x2E2F

def startsName (c : Char) : Bool := isClassicNameStart c || isTilde c

def continuesName (c : Char) : Bool := isClassicNamePart c || isTilde c

def escapedNameChar (allowed : Char → Bool) : Scan Nat := do
  unless (← peek) == some 'u' do fail illegal
  skip 1
  if (← peek) == some '{' then
    skip 1
    bracedCode
  else
    match ← hexDigits 4 0 with
    | some code => if (ofCodes [code]).all allowed then return code else fail illegal
    | none => fail illegal

def nameCodes : Scan (List Nat) := do
  let first ← next
  let code ← match first with
    | some '\\' => escapedNameChar startsName
    | some c => pure c.toNat
    | none => fail illegal
  iterate (fun codes => do
    let codes := ((← takeWhile continuesName).map Char.toNat).reverse ++ codes
    if (← peek) == some '\\' then
      skip 1
      return .inl ((← escapedNameChar continuesName) :: codes)
    else return .inr codes) [code]

def wordLexeme (s : String) : Lexeme :=
  if isKeywordName s then .keyword s
  else if s == "null" then .null
  else if s == "true" then .boolean true
  else if s == "false" then .boolean false
  else .identifier s

/-- A name or a reserved word; the latter may not be spelled with escapes. -/
def name : Scan Token := do
  let start := (← get).offset
  let codes ← nameCodes
  let l := wordLexeme (String.ofList (ofCodes codes.reverse))
  if !l.isIdentifier && start + codes.length != (← get).offset then
    failAt start "Keyword must not contain escaped characters"
  token start l

/-! Numbers -/

def digitsIn (base : Nat) : Scan (List Char) := takeWhile fun c => (Number.digitIn? base c).isSome

def notBeforeName : Scan Unit := do
  match ← peek with
  | some c => if startsName c || c == '\\' then fail illegal
  | none => return ()

def notBeforeDigit : Scan Unit := do
  match ← peek with
  | some c => if c.isDigit then fail illegal
  | none => return ()

def radixNumber (base : Nat) : Scan Lexeme := do
  let digits ← digitsIn base
  if digits.isEmpty then fail illegal
  notBeforeName
  notBeforeDigit
  return .number (.int ((Number.natural? base digits).getD 0 : Nat)) false

def legacyOctal : Scan Lexeme := do
  let digits ← digitsIn 8
  notBeforeName
  notBeforeDigit
  return .number (.int ((Number.natural? 8 digits).getD 0 : Nat)) true

/-- A decimal number is rounded to a double; an integral one is then an exact integer. -/
def decimalNumber : Scan Lexeme := do
  let whole ← takeWhile Char.isDigit
  let part ← if (← peek) == some '.' then do
      skip 1
      pure ('.' :: (← takeWhile Char.isDigit))
    else pure []
  let power ← if (← peek) == some 'e' || (← peek) == some 'E' then do
      skip 1
      let sign ← if (← peek) == some '+' || (← peek) == some '-' then next else pure none
      let digits ← takeWhile Char.isDigit
      if digits.isEmpty then fail illegal
      pure ('e' :: sign.toList ++ digits)
    else pure []
  notBeforeName
  let x := (Number.fraction? (whole ++ part ++ power)).getD Double.nan
  return .number (((Double.toInt? x).map Number.int).getD (.float x)) false

def isLegacyOctal (cs : List Char) : Bool :=
  match (cs.dropWhile fun c => (Number.digitIn? 8 c).isSome).head? with
  | some c => c != '8' && c != '9'
  | none => true

def number : Scan Token := do
  let start := (← get).offset
  let rest := (← get).rest
  let l ← match rest with
    | '0' :: c :: cs => do
      match Number.radix? rest with
      | some base =>
        skip 2
        radixNumber base
      | none =>
        if (Number.digitIn? 8 c).isSome && isLegacyOctal cs then
          skip 1
          legacyOctal
        else decimalNumber
    | _ => decimalNumber
  token start l

/-! Texts -/

abbrev Piece := List Nat × Bool

def textEscape : Scan Piece := do
  match ← next with
  | none => return ([0], false)
  | some c =>
    if isLineBreak c then
      breakLine c
      return ([], false)
    else if c == 'u' then
      match ← unicodeCode with
      | some code => return ([code], false)
      | none => fail illegal
    else if c == 'x' then
      match ← hexDigits 2 0 with
      | some code => return ([code], false)
      | none => fail invalidHex
    else if c == '8' || c == '9' then fail illegal
    else
      match letterCode? c, octalDigit? (some c) with
      | some code, _ => return ([code], false)
      | none, some d => do
        let (code, octal) ← octalCode d
        return ([code], octal)
      | none, none => return ([c.toNat], false)

def quotedText (quote : Char) : Scan Token := do
  let start := (← get).offset
  let body := (← get).rest.drop 1
  skip 1
  let (codes, octal) ← iterate (fun ((codes, octal) : Piece) => do
    if ← atEnd then failAt start illegal
    match ← next with
    | none => failAt start illegal
    | some c =>
      if c == quote then return .inr (codes, octal)
      else if c == '\\' then
        let (more, isOctal) ← textEscape
        return .inl (more ++ codes, octal || isOctal)
      else if isLineBreak c then failAt start illegal
      else return .inl (c.toNat :: codes, octal)) ([], false)
  let raw := body.take ((← get).offset - start - 2)
  token start (.string (String.ofList (ofCodes codes.reverse)) (String.ofList raw) octal)

/-! Templates -/

def templateOctal : String := "Octal literals are not allowed in template strings."

def templateEscape : Scan Unit := do
  match ← next with
  | none => return ()
  | some c =>
    if isLineBreak c then breakLine c
    else if c == 'u' then
      let here ← get
      if (← unicodeCode).isNone then set here
    else if c == 'x' then
      if (← hexDigits 2 0).isNone then fail invalidHex
    else if c == '0' then
      if ((← peek).any Char.isDigit) then fail templateOctal
    else if (octalDigit? (some c)).isSome then fail templateOctal

def template (head : Bool) : Scan Token := do
  let start := (← get).offset
  let body := (← get).rest.drop 1
  skip 1
  let tail ← iterate (fun () => do
    if ← atEnd then fail illegal
    match ← next with
    | none => fail illegal
    | some c =>
      if c.toNat == 0x60 then return .inr true
      else if c == '$' && (← peek) == some '\x7b' then
        skip 1
        modify fun c => { c with braces := true :: c.braces }
        return .inr false
      else
        if c == '\\' then templateEscape
        else if isLineBreak c then breakLine c
        return .inl ()) ()
  unless head do modify fun c => { c with braces := c.braces.drop 1 }
  let raw := body.take ((← get).offset - start - (if tail then 2 else 3))
  token start (.template (String.ofList raw) head tail)

/-! Regular expressions -/

def openRegexp : String := "Invalid regular expression: missing /"

def regexpBody : Scan Unit :=
  iterate (fun inClass => do
    if ← atEnd then fail openRegexp
    match ← next with
    | none => fail openRegexp
    | some c =>
      if c == '\\' then
        if ((← next).any isLineBreak) then fail openRegexp
        return .inl inClass
      else if isLineBreak c then fail openRegexp
      else if inClass then return .inl (c != ']')
      else if c == '/' then return .inr ()
      else return .inl (c == '[')) false

/-- A flag may not be escaped; a backslash that ends the text stands for itself. -/
def escapedFlag : Scan (List Char) := do
  skip 1
  if ← atEnd then return ['\\']
  if (← peek) == some 'u' then
    skip 1
    let here ← get
    if (← hexDigits 4 0).isNone then set here
  fail illegal

def invalidRegexp : String := "Invalid regular expression"

def regexp : Scan Token := do
  let start := (← get).offset
  let body := (← get).rest.drop 1
  skip 1
  regexpBody
  let pattern := body.take ((← get).offset - start - 2)
  let flags ← takeWhile continuesName
  let slash ← if (← peek) == some '\\' then escapedFlag else pure []
  let pattern := String.ofList pattern
  let (wellFormed, hints) := Regexp.check pattern
  remark hints
  unless wellFormed do fail invalidRegexp
  token start (.regexp pattern (String.ofList (flags ++ slash)))

/-! Marks -/

def mark : Scan Token := do
  let start := (← get).offset
  let rest := (← get).rest
  let s ← match compoundMarks.find? (·.toList.isPrefixOf rest), rest.head? with
    | some s, _ => pure s
    | none, some c => if isMark c then pure (String.singleton c) else fail illegal
    | none, none => fail illegal
  skip s.length
  if s == "\x7b" then modify fun c => { c with braces := false :: c.braces }
  if s == "\x7d" then modify fun c => { c with braces := c.braces.drop 1 }
  token start (.punctuator s)

def lex : Scan Token := do
  let c ← get
  match c.rest with
  | [] => token c.offset .endOfInput
  | ch :: cs =>
    if startsName ch || ch == '\\' then name
    else if ch == '"' || ch == '\'' then quotedText ch
    else if ch.isDigit || (ch == '.' && cs.head?.any Char.isDigit) then number
    else if ch.toNat == 0x60 then template true
    else if ch == '\x7d' && c.braces.head? == some true then template false
    else mark

/-- Runs a reader and takes the cursor back to where it was. The braces that were opened or closed on
the way stay so. -/
def ahead {α : Type} (scan : Scan α) : Scan α := do
  let c ← get
  let a ← scan
  modify fun passed => { c with braces := passed.braces }
  return a

end Unravel.Source.Scan
