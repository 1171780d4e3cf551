import MessageCode.Toml.DateTime
import MessageCode.Toml.Table

/-!
Reading TOML 1.0 documents. Every reader takes the characters at the front of its argument and gives
the rest; a document is a list of sections, which the tables are then made of.
-/

namespace MessageCode.Toml

open MessageCode.Numeric MessageCode.Text

def skipInline (s : List Char) : List Char := s.dropWhile fun c => c = ' ' ∨ c = '\t'

/-- Characters that may stand in comments and strings beside line breaks. -/
def isPlain (c : Char) : Bool := c = '\t' || (0x20 ≤ c.toNat && c.toNat ≠ 0x7f)

def skipComment : List Char → List Char
  | '#' :: rest => rest.dropWhile isPlain
  | s => s

def lineBreak? : List Char → Option (List Char)
  | '\n' :: rest => some rest
  | '\r' :: '\n' :: rest => some rest
  | _ => none

def skipLines : Nat → List Char → List Char
  | 0, s => s
  | fuel + 1, s =>
      let s := skipComment (skipInline s)
      match lineBreak? s with
      | some rest => skipLines fuel rest
      | none => s

def endLine (s : List Char) : Option (List Char) :=
  let s := skipComment (skipInline s)
  if s.isEmpty then some [] else lineBreak? s

def readCode (digits : Nat) (s : List Char) : Option (Char × List Char) := do
  let code ← (s.take digits).foldlM (fun n c => do return 16 * n + (← Json.hexValue? c)) 0
  if s.length < digits ∨ 0x110000 ≤ code ∨ (0xd800 ≤ code ∧ code < 0xe000) then none
  else some (Char.ofNat code, s.drop digits)

def readEscape : Reader Char
  | 'b' :: rest => some ('\x08', rest)
  | 't' :: rest => some ('\t', rest)
  | 'n' :: rest => some ('\n', rest)
  | 'f' :: rest => some ('\x0c', rest)
  | 'r' :: rest => some ('\r', rest)
  | '"' :: rest => some ('"', rest)
  | '\\' :: rest => some ('\\', rest)
  | 'u' :: rest => readCode 4 rest
  | 'U' :: rest => readCode 8 rest
  | _ => none

def readBasic : Nat → List Char → Reader String
  | 0, _, _ => none
  | fuel + 1, read, s =>
      match s with
      | '"' :: rest => some (String.ofList read.reverse, rest)
      | '\\' :: rest => do
          let (c, rest) ← readEscape rest
          readBasic fuel (c :: read) rest
      | c :: rest => if isPlain c then readBasic fuel (c :: read) rest else none
      | [] => none

def readLiteral (s : List Char) : Option (String × List Char) :=
  let content := s.takeWhile fun c => isPlain c && c ≠ '\''
  match s.drop content.length with
  | '\'' :: rest => some (String.ofList content, rest)
  | _ => none

/-- A run of at least three quotes ends a string: the last three of up to five close it, those
before belong to it. -/
def closeQuotes (quote : Char) (s : List Char) : Option (Nat × List Char) :=
  let run := (s.takeWhile (· = quote)).length
  if run < 3 then none else some (min run 5 - 3, s.drop (min run 5))

def skipBlankLines : Nat → List Char → List Char
  | 0, s => s
  | fuel + 1, s =>
      let s := skipInline s
      match lineBreak? s with
      | some rest => skipBlankLines fuel rest
      | none => s

/-- After a backslash at the end of a line: all blanks and line breaks up to the next character. -/
def skipFolded (s : List Char) : Option (List Char) := do
  let rest ← lineBreak? (skipInline s)
  some (skipBlankLines rest.length rest)

/-- A string over several lines, after its opening quotes; line breaks read as line feeds. -/
def readLines (quote : Char) (escapes : Bool) : Nat → List Char → Reader String
  | 0, _, _ => none
  | fuel + 1, read, s =>
      match closeQuotes quote s with
      | some (inside, rest) =>
          some (String.ofList (List.replicate inside quote ++ read).reverse, rest)
      | none =>
          match lineBreak? s with
          | some rest => readLines quote escapes fuel ('\n' :: read) rest
          | none =>
              match s with
              | [] => none
              | c :: rest =>
                  if escapes && c = '\\' then
                    match skipFolded rest with
                    | some rest => readLines quote escapes fuel read rest
                    | none => do
                        let (c, rest) ← readEscape rest
                        readLines quote escapes fuel (c :: read) rest
                  else if isPlain c then readLines quote escapes fuel (c :: read) rest
                  else none

def dropFirstBreak (s : List Char) : List Char := (lineBreak? s).getD s

/-- A string in any of its four forms. -/
def readString (s : List Char) : Option (String × List Char) :=
  let fuel := s.length + 1
  match s with
  | '"' :: '"' :: '"' :: rest => readLines '"' true fuel [] (dropFirstBreak rest)
  | '"' :: rest => readBasic fuel [] rest
  | '\'' :: '\'' :: '\'' :: rest => readLines '\'' false fuel [] (dropFirstBreak rest)
  | '\'' :: rest => readLiteral rest
  | _ => none

def isBareKey (c : Char) : Bool :=
  ('a' ≤ c && c ≤ 'z') || ('A' ≤ c && c ≤ 'Z') || isDigit c || c = '-' || c = '_'

def readKeyPart (s : List Char) : Option (String × List Char) :=
  match s with
  | '"' :: rest => readBasic (s.length + 1) [] rest
  | '\'' :: rest => readLiteral rest
  | _ =>
      let bare := s.takeWhile isBareKey
      if bare.isEmpty then none else some (String.ofList bare, s.dropWhile isBareKey)

def readKeyRest : Nat → List String → Reader (List String)
  | 0, _, _ => none
  | fuel + 1, read, s =>
      match skipInline s with
      | '.' :: rest => do
          let (part, rest) ← readKeyPart (skipInline rest)
          readKeyRest fuel (part :: read) rest
      | s => some (read, s)

/-- Values nest less deep than this, and keys have fewer parts. -/
def nestingLimit : Nat := 80

/-- A key as the path to it and its last part. -/
def readKey (s : List Char) : Option ((List String × String) × List Char) := do
  let (part, rest) ← readKeyPart (skipInline s)
  let (parts, rest) ← readKeyRest (s.length + 1) [part] rest
  match parts with
  | key :: path =>
      if nestingLimit ≤ parts.length then none else some ((path.reverse, key), rest)
  | [] => none

/-- Digits of a number with single underscores between them; gives the digits alone. -/
def readDigits (isDigitOf : Char → Bool) : Nat → List Char → Reader (List Char)
  | 0, _, _ => none
  | fuel + 1, read, s =>
      match s with
      | '_' :: c :: rest =>
          if isDigitOf c && !read.isEmpty then readDigits isDigitOf fuel (c :: read) rest else none
      | ['_'] => none
      | c :: rest =>
          if isDigitOf c then readDigits isDigitOf fuel (c :: read) rest
          else if read.isEmpty then none
          else some (read.reverse, s)
      | [] => if read.isEmpty then none else some (read.reverse, [])

/-- A decimal integer; a zero in front stands alone. -/
def readWhole (s : List Char) : Option (List Char × List Char) :=
  match s with
  | '0' :: rest => some (['0'], rest)
  | _ => readDigits isDigit (s.length + 1) [] s

def valueInBase (base : Nat) (digits : List Char) : Nat :=
  digits.foldl (fun n c => base * n + (Json.hexValue? c).getD 0) 0

def isDigitBelow (base : Nat) (c : Char) : Bool :=
  match Json.hexValue? c with
  | some n => n < base
  | none => false

def integerValue (n : Int) : Option Toml := (int64? n).map .integer

def readInBase (base : Nat) (s : List Char) : Option (Toml × List Char) := do
  let (digits, rest) ← readDigits (isDigitBelow base) (s.length + 1) [] s
  let v ← integerValue (valueInBase base digits)
  some (v, rest)

/-- The fraction and exponent after the whole part of a float: the digits of the fraction and the
exponent. None when neither is there. -/
def readFloatRest (s : List Char) : Option ((List Char × Int) × List Char) := do
  let (fraction, s) ← match s with
    | '.' :: rest => readDigits isDigit (rest.length + 1) [] rest
    | c :: _ => if c = 'e' ∨ c = 'E' then some ([], s) else none
    | [] => none
  match s with
  | c :: rest =>
      if c = 'e' ∨ c = 'E' then do
        let (negative, rest) := splitSign rest
        let (digits, rest) ← readDigits isDigit (rest.length + 1) [] rest
        let n : Int := appendDigits 0 digits
        some ((fraction, if negative then -n else n), rest)
      else some ((fraction, 0), s)
  | [] => some ((fraction, 0), s)

def dropWord? (word : String) (s : List Char) : Option (List Char) :=
  if word.toList.isPrefixOf s then some (s.drop word.length) else none

/-- An integer or a float. Positive floats have to be finite. -/
def readNumber (s : List Char) : Option (Toml × List Char) :=
  let (negative, unsigned) := splitSign s
  match dropWord? "inf" unsigned, dropWord? "nan" unsigned, s with
  | some rest, _, _ => some (.float (.infinity .double negative), rest)
  | _, some rest, _ => some (.float (.nan .double), rest)
  | _, _, '0' :: 'x' :: rest => readInBase 16 rest
  | _, _, '0' :: 'o' :: rest => readInBase 8 rest
  | _, _, '0' :: 'b' :: rest => readInBase 2 rest
  | _, _, _ => do
      let (whole, rest) ← readWhole unsigned
      match rest with
      | c :: _ =>
          if c = '.' ∨ c = 'e' ∨ c = 'E' then do
            let ((fraction, exponent), rest) ← readFloatRest rest
            let x := readDecimal .double negative
              (appendDigits (appendDigits 0 whole) fraction) (exponent - fraction.length)
            if x = .infinity .double false then none else some (.float x, rest)
          else do
            let n : Int := appendDigits 0 whole
            let v ← integerValue (if negative then -n else n)
            some (v, rest)
      | [] => do
          let n : Int := appendDigits 0 whole
          let v ← integerValue (if negative then -n else n)
          some (v, rest)

def readNumeric (s : List Char) : Option (Toml × List Char) :=
  if startsDate s || startsTime s then do
    let (normal, rest) ← readDateTime s
    some (.dateTime normal, rest)
  else readNumber s

mutual

/-- A value. The first number bounds how deep values nest, the second the length of the lists. -/
def readValue : Nat → Nat → Reader Toml
  | 0, _, _ => none
  | depth + 1, fuel, s =>
      match s with
      | '[' :: rest =>
          if depth = 0 then none else readItems depth fuel [] (skipLines fuel rest)
      | '\x7b' :: rest =>
          if depth = 0 then none
          else match skipInline rest with
          | '\x7d' :: rest => some (.table [], rest)
          | rest => readPairs depth fuel [] rest
      | c :: _ =>
          if c = '"' ∨ c = '\'' then do
            let (t, rest) ← readString s
            some (.text t, rest)
          else if c = 't' then (dropWord? "true" s).map (.bool true, ·)
          else if c = 'f' then (dropWord? "false" s).map (.bool false, ·)
          else if c = '+' ∨ c = '-' ∨ c = 'i' ∨ c = 'n' ∨ isDigit c then readNumeric s
          else none
      | [] => none
termination_by depth => (depth, 0)

def readItems : Nat → Nat → List Toml → Reader Toml
  | _, 0, _, _ => none
  | depth, fuel + 1, read, s =>
      match s with
      | ']' :: rest => some (.array read.reverse, rest)
      | _ => do
          let (v, rest) ← readValue depth (fuel + 1) s
          match skipLines (fuel + 1) rest with
          | ',' :: rest => readItems depth fuel (v :: read) (skipLines (fuel + 1) rest)
          | ']' :: rest => some (.array (v :: read).reverse, rest)
          | _ => none
termination_by depth fuel => (depth, fuel + 1)

def readPairs : Nat → Nat → List Pair → Reader Toml
  | _, 0, _, _ => none
  | depth, fuel + 1, read, s => do
      let ((path, key), rest) ← readKey s
      let rest ← expect '=' (skipInline rest)
      let (value, rest) ← readValue depth (fuel + 1) (skipInline rest)
      let read := ⟨path, key, value⟩ :: read
      match skipInline rest with
      | ',' :: rest => readPairs depth fuel read rest
      | '\x7d' :: rest => (ofPairs? read.reverse).map (·, rest)
      | _ => none
termination_by depth fuel => (depth, fuel + 1)

end

def readLinePair (s : List Char) : Option (Pair × List Char) := do
  let ((path, key), rest) ← readKey s
  let rest ← expect '=' (skipInline rest)
  let (value, rest) ← readValue nestingLimit (s.length + 1) (skipInline rest)
  let rest ← endLine rest
  some (⟨path, key, value⟩, rest)

def readHeader (s : List Char) : Option (Header × List Char) :=
  match s with
  | '[' :: '[' :: rest => do
      let ((path, key), rest) ← readKey rest
      match rest with
      | ']' :: ']' :: rest =>
          let rest ← endLine rest
          some (.tables path key, rest)
      | _ => none
  | '[' :: rest => do
      let ((path, key), rest) ← readKey rest
      let rest ← expect ']' rest
      let rest ← endLine rest
      some (.table path key, rest)
  | _ => none

/-- The sections of a document; `header` and `read` are the section being read, its pairs in
reverse, and `done` the earlier ones in reverse. -/
def readSections : Nat → Header → List Pair → List Section → List Char → Option (List Section)
  | 0, _, _, _, _ => none
  | fuel + 1, header, read, done, s =>
      match skipLines (s.length + 1) s with
      | [] => some (⟨header, read.reverse⟩ :: done).reverse
      | '[' :: rest => do
          let (next, rest) ← readHeader ('[' :: rest)
          readSections fuel next [] (⟨header, read.reverse⟩ :: done) rest
      | s => do
          let (pair, rest) ← readLinePair s
          readSections fuel header (pair :: read) done rest

/-- The root table of a document; a byte order mark may stand in front. -/
def parse? (text : String) : Option (List (String × Toml)) := do
  let chars := text.toList
  let chars := match chars with
    | '\ufeff' :: rest => rest
    | _ => chars
  let sections ← readSections (chars.length + 1) .top [] [] chars
  ofSections? sections

end MessageCode.Toml
