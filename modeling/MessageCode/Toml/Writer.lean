import MessageCode.Numeric.Decimal
import MessageCode.Toml.Reader

/-!
TOML values as texts on one line, as far as their strings allow it. Tables list their keys in
ascending order; a date or time that is not inside another value is written as a table.
-/

namespace MessageCode.Toml

open MessageCode.Numeric

/-- Floats are always positional, with a point. -/
def floatLayout : Layout :=
  { positional := none
    keepsPoint := true
    plus := ""
    tie := .away
    nan := "nan"
    infinity := "inf" }

def longestRun (c : Char) (s : List Char) : Nat :=
  let (longest, last) := s.foldl
    (fun (longest, current) d =>
      if d = c then (max longest (current + 1), current + 1) else (longest, 0)) (0, 0)
  max longest last

def needsCode (c : Char) : Bool := (c.toNat < 0x20 && c ≠ '\t' && c ≠ '\n') || c.toNat = 0x7f

def hexCode (n : Nat) : String :=
  let digits := (Nat.toDigits 16 n).map Char.toUpper
  String.ofList (List.replicate (4 - digits.length) '0' ++ digits)

/-- One character of a string with escapes; line feeds stay in strings over several lines. -/
def escapeChar (overLines : Bool) (c : Char) : String :=
  match c with
  | '\x08' => "\\b"
  | '\t' => "\\t"
  | '\x0c' => "\\f"
  | '\r' => "\\r"
  | '\\' => "\\\\"
  | '\n' => if overLines then "\n" else "\\n"
  | _ => if c.toNat < 0x20 || c.toNat = 0x7f then "\\u" ++ hexCode c.toNat else c.toString

def escapeText (overLines : Bool) (longest : Nat) : Nat → List Char → String
  | _, [] => ""
  | run, '"' :: rest =>
      if run < longest then "\"" ++ escapeText overLines longest (run + 1) rest
      else "\\\"" ++ escapeText overLines longest 0 rest
  | _, c :: rest => escapeChar overLines c ++ escapeText overLines longest 0 rest

/-- A string in the plainest of its four forms that holds it: with double quotes when nothing has to
be escaped, with single quotes when these do not occur, and else over several lines. -/
def stringText (s : String) : String :=
  let chars := s.toList
  let coded := chars.any needsCode
  let escaped := chars.contains '\\'
  let broken := chars.contains '\n'
  let double := longestRun '"' chars
  let single := longestRun '\'' chars
  let opening := if broken then "\n" else ""
  if !coded && !escaped && double = 0 && !broken then
    "\"" ++ escapeText false 0 0 chars ++ "\""
  else if !coded && single = 0 && !broken then "'" ++ s ++ "'"
  else if !coded && !escaped && double ≤ 2 then
    "\"\"\"" ++ opening ++ escapeText true 2 0 chars ++ "\"\"\""
  else if !coded && single ≤ 2 then "'''" ++ opening ++ s ++ "'''"
  else if broken then "\"\"\"" ++ opening ++ escapeText true 2 0 chars ++ "\"\"\""
  else "\"" ++ escapeText false 0 0 chars ++ "\""

/-- A key: bare when its characters allow it, else a string on one line. -/
def keyText (key : String) : String :=
  let chars := key.toList
  let coded := chars.any needsCode || chars.contains '\n'
  if chars ≠ [] ∧ chars.all isBareKey then key
  else if !coded && !chars.contains '\\' && !chars.contains '"' then
    "\"" ++ escapeText false 0 0 chars ++ "\""
  else if !coded && !chars.contains '\'' then "'" ++ key ++ "'"
  else "\"" ++ escapeText false 0 0 chars ++ "\""

mutual

def render : Toml → String
  | .text s => stringText s
  | .integer n => toString n.toInt
  | .float x => floatLayout.text x
  | .bool b => toString b
  | .dateTime s => s
  | .array items => "[" ++ ", ".intercalate (renderItems items) ++ "]"
  | .table entries =>
      let texts := (renderEntries entries).mergeSort fun a b => decide (a.1 ≤ b.1)
      if texts.isEmpty then "\x7b\x7d"
      else
        "\x7b " ++ ", ".intercalate (texts.map fun entry => keyText entry.1 ++ " = " ++ entry.2)
          ++ " \x7d"

def renderItems : List Toml → List String
  | [] => []
  | v :: rest => render v :: renderItems rest

def renderEntries : List (String × Toml) → List (String × String)
  | [] => []
  | (key, v) :: rest => (key, render v) :: renderEntries rest

end

def renderAlone : Toml → String
  | .dateTime s => render (.table [(dateTimeKey, .text s)])
  | v => render v

end MessageCode.Toml
