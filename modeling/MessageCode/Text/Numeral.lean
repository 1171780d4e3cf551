import MessageCode.Numeric.Decimal

/-!
Reading the decimal numerals that literals and native calls accept.
-/

namespace MessageCode.Text

open MessageCode.Numeric

def digitValue? (c : Char) : Option Nat :=
  if '0' ≤ c ∧ c ≤ '9' then some (c.toNat - '0'.toNat) else none

def isDigit (c : Char) : Bool := (digitValue? c).isSome

/-- The value of digits, most significant first, after those already read. -/
def appendDigits (start : Nat) (digits : List Char) : Nat :=
  digits.foldl (fun n c => 10 * n + (digitValue? c).getD 0) start

/-- A non-empty run of digits and nothing else. -/
def natural? (s : List Char) : Option Nat :=
  if s ≠ [] ∧ s.all isDigit then some (appendDigits 0 s) else none

/-- Splits off an optional sign; true stands for minus. -/
def splitSign : List Char → Bool × List Char
  | '-' :: rest => (true, rest)
  | '+' :: rest => (false, rest)
  | s => (false, s)

def integer? (s : List Char) : Option Int :=
  let (negative, rest) := splitSign s
  (natural? rest).map fun n => if negative then -(n : Int) else n

/-- An integer of 64 bits in decimal digits with an optional sign. -/
def int64? (s : String) : Option Int64 :=
  (integer? s.toList).bind Numeric.int64?

def bool? (s : String) : Option Bool :=
  if s = "true" then some true else if s = "false" then some false else none

def exponent? : List Char → Option Int
  | [] => some 0
  | c :: rest => if c = 'e' ∨ c = 'E' then integer? rest else none

/-- Digits with an optional point, at least one digit in all, and an optional exponent. -/
def unsignedReal? (negative : Bool) (s : List Char) : Option Double :=
  let whole := s.takeWhile isDigit
  let afterWhole := s.dropWhile isDigit
  let (fraction, rest) := match afterWhole with
    | '.' :: more => (more.takeWhile isDigit, more.dropWhile isDigit)
    | _ => ([], afterWhole)
  if whole = [] ∧ fraction = [] then none
  else
    (exponent? rest).map fun e =>
      readDecimal .double negative (appendDigits (appendDigits 0 whole) fraction)
        (e - fraction.length)

/-- A 64-bit number: an optional sign, then digits with optional point and exponent, or one of the
words `inf`, `infinity` and `nan` in any case. -/
def double? (s : String) : Option Double :=
  let (negative, rest) := splitSign s.toList
  let word := String.ofList (rest.map Char.toLower)
  if word = "inf" ∨ word = "infinity" then some (.infinity .double negative)
  else if word = "nan" then some (.nan .double)
  else unsignedReal? negative rest

end MessageCode.Text
