import MessageCode.Json.Basic
import MessageCode.Numeric.Decimal

/-!
JSON texts: one line without spaces, or one item a line with two spaces of indentation. A real
number that is not finite is written as null.
-/

namespace MessageCode.Json

open MessageCode.Numeric

/-- Reals keep a point or an exponent, so that they never read as integers; the exponent form
starts at `1e+16` and below `1e-5`. -/
def realLayout : Layout :=
  { positional := some (-4, 16)
    keepsPoint := true
    plus := "+"
    tie := .even
    nan := "null"
    infinity := "null" }

def realText (x : Double) : String := if x.isFinite then realLayout.text x else "null"

def codeUnit (n : Nat) : String :=
  let digits := Nat.toDigits 16 n
  String.ofList (List.replicate (4 - digits.length) '0' ++ digits)

/-- One character inside quotes; only quotes, backslashes and ASCII controls are escaped. -/
def escapedChar (c : Char) : String :=
  match c with
  | '"' => "\\\""
  | '\\' => "\\\\"
  | '\n' => "\\n"
  | '\r' => "\\r"
  | '\t' => "\\t"
  | '\x08' => "\\b"
  | '\x0c' => "\\f"
  | _ => if c.toNat < 0x20 then "\\u" ++ codeUnit c.toNat else c.toString

def textLiteral (s : String) : String := "\"" ++ String.join (s.toList.map escapedChar) ++ "\""

mutual

def compact : Json → String
  | .null => "null"
  | .bool b => toString b
  | .integer n => toString n
  | .real x => realText x
  | .text s => textLiteral s
  | .array items => "[" ++ ",".intercalate (compactItems items) ++ "]"
  | .object members => "\x7b" ++ ",".intercalate (compactMembers members) ++ "\x7d"

def compactItems : List Json → List String
  | [] => []
  | j :: rest => compact j :: compactItems rest

def compactMembers : List (String × Json) → List String
  | [] => []
  | (key, j) :: rest => (textLiteral key ++ ":" ++ compact j) :: compactMembers rest

end

def lineBreak (depth : Nat) : String := "\n" ++ String.ofList (List.replicate (2 * depth) ' ')

/-- Items between brackets, each on its own line; empty brackets stay together. -/
def bracketed (depth : Nat) (opening closing : String) (items : List String) : String :=
  if items.isEmpty then opening ++ closing
  else
    opening ++ lineBreak (depth + 1) ++ ("," ++ lineBreak (depth + 1)).intercalate items
      ++ lineBreak depth ++ closing

mutual

def indented (depth : Nat) : Json → String
  | .null => "null"
  | .bool b => toString b
  | .integer n => toString n
  | .real x => realText x
  | .text s => textLiteral s
  | .array items => bracketed depth "[" "]" (indentedItems (depth + 1) items)
  | .object members => bracketed depth "\x7b" "\x7d" (indentedMembers (depth + 1) members)

def indentedItems (depth : Nat) : List Json → List String
  | [] => []
  | j :: rest => indented depth j :: indentedItems depth rest

def indentedMembers (depth : Nat) : List (String × Json) → List String
  | [] => []
  | (key, j) :: rest =>
      (textLiteral key ++ ": " ++ indented depth j) :: indentedMembers depth rest

end

def pretty (j : Json) : String := indented 0 j

end MessageCode.Json
