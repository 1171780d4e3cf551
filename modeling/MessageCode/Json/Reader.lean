import MessageCode.Json.Basic
import MessageCode.Text.Numeral

/-!
Reading JSON texts. A number without point and exponent is an integer while it fits 64 bits; any
other is the number of its leading digits, as many as fit 64 bits, multiplied or divided by a power
of ten, with a rounding at each step. Of two members with one key the later one counts.
-/

namespace MessageCode.Json

open MessageCode.Numeric MessageCode.Text

def skipSpace (s : List Char) : List Char :=
  s.dropWhile fun c => c = ' ' ∨ c = '\t' ∨ c = '\n' ∨ c = '\r'

def hexValue? (c : Char) : Option Nat :=
  if '0' ≤ c ∧ c ≤ '9' then some (c.toNat - 48)
  else if 'a' ≤ c ∧ c ≤ 'f' then some (c.toNat - 87)
  else if 'A' ≤ c ∧ c ≤ 'F' then some (c.toNat - 55)
  else none

def readUnit : List Char → Option (Nat × List Char)
  | a :: b :: c :: d :: rest => do
      let a ← hexValue? a
      let b ← hexValue? b
      let c ← hexValue? c
      let d ← hexValue? d
      some (((a * 16 + b) * 16 + c) * 16 + d, rest)
  | _ => none

/-- The character of a code unit, or of it and the low surrogate that must follow. -/
def readEscapedUnit (s : List Char) : Option (Char × List Char) := do
  let (unit, rest) ← readUnit s
  if 0xd800 ≤ unit ∧ unit < 0xdc00 then
    match rest with
    | '\\' :: 'u' :: more =>
        let (low, rest) ← readUnit more
        if 0xdc00 ≤ low ∧ low < 0xe000 then
          some (Char.ofNat (0x10000 + (unit - 0xd800) * 0x400 + (low - 0xdc00)), rest)
        else none
    | _ => none
  else if 0xdc00 ≤ unit ∧ unit < 0xe000 then none
  else some (Char.ofNat unit, rest)

def simpleEscape? : Char → Option Char
  | '"' => some '"'
  | '\\' => some '\\'
  | '/' => some '/'
  | 'b' => some '\x08'
  | 'f' => some '\x0c'
  | 'n' => some '\n'
  | 'r' => some '\r'
  | 't' => some '\t'
  | _ => none

def readText : Nat → List Char → List Char → Option (String × List Char)
  | 0, _, _ => none
  | fuel + 1, read, s =>
      match s with
      | '"' :: rest => some (String.ofList read.reverse, rest)
      | '\\' :: 'u' :: rest => do
          let (c, rest) ← readEscapedUnit rest
          readText fuel (c :: read) rest
      | '\\' :: c :: rest => do
          let c ← simpleEscape? c
          readText fuel (c :: read) rest
      | c :: rest => if c.toNat < 0x20 then none else readText fuel (c :: read) rest
      | [] => none

def isPlainNumeral (digits : List Char) : Bool :=
  match digits with
  | [] => false
  | ['0'] => true
  | c :: _ => c ≠ '0'

/-- Whether a digit can follow a significand of 64 bits. -/
def takesDigit (significand : Nat) (c : Char) : Bool :=
  decide (appendDigits significand [c] < UInt64.size)

/-- Adds the digits in front of the point. The digits from the first that does not fit are left out,
and their number is given. -/
def addWhole : Nat → List Char → Nat × Nat
  | significand, [] => (significand, 0)
  | significand, c :: rest =>
      if takesDigit significand c then addWhole (appendDigits significand [c]) rest
      else (significand, rest.length + 1)

/-- Adds the digits behind the point up to the first that does not fit, and gives the number of
those added. -/
def addFraction : Nat → List Char → Nat × Nat
  | significand, [] => (significand, 0)
  | significand, c :: rest =>
      if takesDigit significand c then
        let (significand, added) := addFraction (appendDigits significand [c]) rest
        (significand, added + 1)
      else (significand, 0)

/-- The exponent of the greatest power of ten that is finite. -/
def greatestPower : Nat := 308

def powerOfTen (exponent : Nat) : Double := .ofRatio .double false (tenTo exponent) 1

/-- A number of 64 bits times a power of ten, which is rounded before. Below the least finite power
the division is done in two steps. None when the result is out of range. -/
def scaled (negative : Bool) (significand : Nat) (exponent : Int) : Option Double :=
  let x : Double := .ofRatio .double negative significand 1
  let below := (-exponent).toNat
  if 0 ≤ exponent then
    if exponent.toNat ≤ greatestPower then
      let y := x.product (powerOfTen exponent.toNat)
      if y.isFinite then some y else none
    else if significand = 0 then some x
    else none
  else if below ≤ greatestPower then some (x.quotient (powerOfTen below))
  else if below ≤ 2 * greatestPower then
    some ((x.quotient (powerOfTen greatestPower)).quotient (powerOfTen (below - greatestPower)))
  else some (.zero .double negative)

def integral (negative : Bool) (digits : List Char) : Option Json :=
  let magnitude := appendDigits 0 digits
  let n : Int := if negative then -(magnitude : Int) else magnitude
  if negative ∧ magnitude = 0 then some (.real (.zero .double true))
  else if Int64.minValue.toInt ≤ n ∧ n < UInt64.size then some (.integer n)
  else
    let (significand, dropped) := addWhole 0 digits
    (scaled negative significand dropped).map .real

def readNumber (s : List Char) : Option (Json × List Char) := do
  let (negative, s) := match s with
    | '-' :: rest => (true, rest)
    | _ => (false, s)
  let whole := s.takeWhile isDigit
  let s := s.dropWhile isDigit
  if !isPlainNumeral whole then none
  let (fraction, s, pointed) := match s with
    | '.' :: rest => (rest.takeWhile isDigit, rest.dropWhile isDigit, true)
    | _ => ([], s, false)
  if pointed && fraction.isEmpty then none
  let (exponent, s, hasExponent) ← match s with
    | c :: rest =>
        if c = 'e' ∨ c = 'E' then do
          let (minus, rest) := splitSign rest
          let n ← natural? (rest.takeWhile isDigit)
          some ((if minus then -(n : Int) else n), rest.dropWhile isDigit, true)
        else some ((0 : Int), s, false)
    | [] => some ((0 : Int), s, false)
  if pointed || hasExponent then
    let (significand, dropped) := addWhole 0 whole
    let (significand, added) := addFraction significand fraction
    let x ← scaled negative significand (exponent + dropped - added)
    some (.real x, s)
  else
    let j ← integral negative whole
    some (j, s)

/-- Members with a further one, which replaces an earlier one of its key. -/
def putMember (members : List (String × Json)) (key : String) (value : Json) :
    List (String × Json) :=
  members.filter (fun m => m.1 != key) ++ [(key, value)]

def dropWord (word : String) (s : List Char) : Option (List Char) :=
  if word.toList.isPrefixOf s then some (s.drop word.length) else none

mutual

/-- A value at the front of the text; the fuel bounds the number of values and separators. -/
def readValue : Nat → List Char → Option (Json × List Char)
  | 0, _ => none
  | fuel + 1, s =>
      match skipSpace s with
      | '"' :: rest => do
          let (t, rest) ← readText (rest.length + 1) [] rest
          some (.text t, rest)
      | '[' :: rest =>
          match skipSpace rest with
          | ']' :: rest => some (.array [], rest)
          | rest => readItems fuel [] rest
      | '\x7b' :: rest =>
          match skipSpace rest with
          | '\x7d' :: rest => some (.object [], rest)
          | rest => readMembers fuel [] rest
      | 't' :: rest => (dropWord "rue" rest).map (.bool true, ·)
      | 'f' :: rest => (dropWord "alse" rest).map (.bool false, ·)
      | 'n' :: rest => (dropWord "ull" rest).map (.null, ·)
      | rest => readNumber rest

def readItems : Nat → List Json → List Char → Option (Json × List Char)
  | 0, _, _ => none
  | fuel + 1, read, s => do
      let (j, s) ← readValue fuel s
      match skipSpace s with
      | ',' :: rest => readItems fuel (j :: read) rest
      | ']' :: rest => some (.array (j :: read).reverse, rest)
      | _ => none

def readMembers : Nat → List (String × Json) → List Char → Option (Json × List Char)
  | 0, _, _ => none
  | fuel + 1, read, s =>
      match skipSpace s with
      | '"' :: rest => do
          let (key, rest) ← readText (rest.length + 1) [] rest
          match skipSpace rest with
          | ':' :: rest =>
              let (j, rest) ← readValue fuel rest
              let read := putMember read key j
              match skipSpace rest with
              | ',' :: rest => readMembers fuel read rest
              | '\x7d' :: rest => some (.object read, rest)
              | _ => none
          | _ => none
      | _ => none

end

def parse? (s : String) : Option Json := do
  let chars := s.toList
  let (j, rest) ← readValue (chars.length + 1) chars
  if (skipSpace rest).isEmpty then some j else none

end MessageCode.Json
