import Unravel.Estree.Data
import Unravel.Text.Quoted

/-! Exchange data as JSON text: one item on a line, two spaces a level, and ASCII only. -/

namespace Unravel.Estree

open Text

def unitEscape (n : Nat) : List Char := '\\' :: 'u' :: hex false 4 n

def jsonChar (c : Char) : List Char :=
  let n := c.toNat
  if c == '"' || c == '\\' then ['\\', c]
  else if c == '\n' then ['\\', 'n']
  else if c == '\r' then ['\\', 'r']
  else if c == '\t' then ['\\', 't']
  else if n == 12 then ['\\', 'f']
  else if n == 8 then ['\\', 'b']
  else if 32 ≤ n && n < 127 then [c]
  else if n < 0x10000 then unitEscape n
  else unitEscape (0xD800 + (n - 0x10000) / 0x400) ++ unitEscape (0xDC00 + (n - 0x10000) % 0x400)

def jsonString (s : String) : List Char := '"' :: s.toList.flatMap jsonChar ++ ['"']

def jsonScalar : Estree → List Char
  | .null => "null".toList
  | .bool b => (if b then "true" else "false").toList
  | .str s => jsonString s
  | e => e.shown.toList

def jsonLines (opening closing : Char) (depth : Nat) : List (List Char) → List Char
  | [] => [opening, closing]
  | items =>
    let line (depth : Nat) := '\n' :: List.replicate (2 * depth) ' '
    opening :: List.intercalate [','] (items.map (line (depth + 1) ++ ·)) ++ line depth ++ [closing]

def jsonAt (e : Estree) : Nat → List Char :=
  Estree.fold (fun e layer depth =>
    match layer with
    | .scalar => jsonScalar e
    | .list items => jsonLines '[' ']' depth (items.map fun (_, text) => text (depth + 1))
    | .object fields =>
      jsonLines '\x7b' '\x7d' depth
        (fields.map fun (key, _, text) => jsonString key ++ [':', ' '] ++ text (depth + 1))) e

def json (e : Estree) : String := String.ofList (e.jsonAt 0)

end Unravel.Estree
