import MessageCode.Json.Reader
import MessageCode.Toml.Basic

/-!
Dates and times: their texts in normal form, and the tables that stand for them. A table whose first
key is `dateTimeKey` is taken for the date or time that the key holds as a string; `withDates?` puts
these in the places of the tables.
-/

namespace MessageCode.Toml

open MessageCode.Numeric MessageCode.Text

def fixedDigits (count : Nat) (s : List Char) : Option (Nat × List Char) := do
  let n ← natural? (s.take count)
  if s.length < count then none else some (n, s.drop count)

def expect (c : Char) : List Char → Option (List Char)
  | d :: rest => if d = c then some rest else none
  | [] => none

def daysIn (year month : Nat) : Nat :=
  let leap := year % 4 = 0 ∧ (year % 100 ≠ 0 ∨ year % 400 = 0)
  match month with
  | 2 => if leap then 29 else 28
  | 4 | 6 | 9 | 11 => 30
  | _ => 31

def padded (width n : Nat) : String :=
  let digits := Nat.toDigits 10 n
  String.ofList (List.replicate (width - digits.length) '0' ++ digits)

def readDate (s : List Char) : Option (String × List Char) := do
  let (year, s) ← fixedDigits 4 s
  let s ← expect '-' s
  let (month, s) ← fixedDigits 2 s
  let s ← expect '-' s
  let (day, s) ← fixedDigits 2 s
  if month = 0 ∨ 12 < month ∨ day = 0 ∨ daysIn year month < day then none
  else some (padded 4 year ++ "-" ++ padded 2 month ++ "-" ++ padded 2 day, s)

/-- Nine digits of a second, without the zeros at their end. -/
def secondFraction (digits : List Char) : String :=
  let nine := (digits ++ List.replicate 9 '0').take 9
  let kept := (nine.reverse.dropWhile (· = '0')).reverse
  if kept.isEmpty then "" else "." ++ String.ofList kept

def readTime (s : List Char) : Option (String × List Char) := do
  let (hour, s) ← fixedDigits 2 s
  let s ← expect ':' s
  let (minute, s) ← fixedDigits 2 s
  let s ← expect ':' s
  let (second, s) ← fixedDigits 2 s
  if 23 < hour ∨ 59 < minute ∨ 60 < second then none
  else
    let text := padded 2 hour ++ ":" ++ padded 2 minute ++ ":" ++ padded 2 second
    match s with
    | '.' :: rest =>
        let digits := rest.takeWhile isDigit
        if digits.isEmpty then some (text, s)
        else some (text ++ secondFraction digits, rest.dropWhile isDigit)
    | _ => some (text, s)

def readOffset (s : List Char) : Option (String × List Char) :=
  match s with
  | 'Z' :: rest => some ("Z", rest)
  | 'z' :: rest => some ("Z", rest)
  | c :: rest =>
      if c = '+' ∨ c = '-' then do
        let (hour, rest) ← fixedDigits 2 rest
        let rest ← expect ':' rest
        let (minute, rest) ← fixedDigits 2 rest
        if 23 < hour ∨ 59 < minute then none
        else
          let sign := if hour = 0 ∧ minute = 0 then "+" else c.toString
          some (sign ++ padded 2 hour ++ ":" ++ padded 2 minute, rest)
      else some ("", s)
  | [] => some ("", [])

/-- Whether two digits and a colon follow: what comes is a time. -/
def startsTime (s : List Char) : Bool :=
  match s with
  | a :: b :: ':' :: _ => isDigit a && isDigit b
  | _ => false

/-- Whether four digits and a hyphen follow: what comes is a date. -/
def startsDate (s : List Char) : Bool :=
  match s with
  | a :: b :: c :: d :: '-' :: _ => [a, b, c, d].all isDigit
  | _ => false

/-- A time alone, or a date and after a mark or a space a time. -/
def readDateTime (s : List Char) : Option (String × List Char) :=
  if startsTime s then readTime s
  else do
    let (date, rest) ← readDate s
    match rest with
    | c :: more =>
        if (c = 'T' ∨ c = 't' ∨ c = ' ') ∧ startsTime more then do
          let (time, rest) ← readTime more
          let (offset, rest) ← readOffset rest
          some (date ++ "T" ++ time ++ offset, rest)
        else some (date, rest)
    | [] => some (date, [])

/-- The normal form of a text that is a date, a time or both. -/
def dateTime? (s : String) : Option String := do
  let (normal, rest) ← readDateTime s.toList
  if rest.isEmpty then some normal else none

/-- Whether a table may have more keys behind the one for a date. -/
inductive DateTables where
  /-- It may, and they are left out. -/
  | loose
  /-- It may not. -/
  | strict
  deriving DecidableEq

mutual

/-- The value with dates in the places of the tables that stand for them; none if one of these
tables holds no date. -/
def withDates? (tables : DateTables) : Toml → Option Toml
  | .array items => (itemsWithDates? tables items).map .array
  | .table ((key, v) :: rest) =>
      if key = dateTimeKey then
        match v with
        | .text s =>
            if tables = .strict ∧ !rest.isEmpty then none else (dateTime? s).map .dateTime
        | _ => none
      else do
        let v ← withDates? tables v
        let rest ← entriesWithDates? tables rest
        some (.table ((key, v) :: rest))
  | v => some v

def itemsWithDates? (tables : DateTables) : List Toml → Option (List Toml)
  | [] => some []
  | v :: rest => do
      let v ← withDates? tables v
      let rest ← itemsWithDates? tables rest
      some (v :: rest)

def entriesWithDates? (tables : DateTables) :
    List (String × Toml) → Option (List (String × Toml))
  | [] => some []
  | (key, v) :: rest => do
      let v ← withDates? tables v
      let rest ← entriesWithDates? tables rest
      some ((key, v) :: rest)

end

end MessageCode.Toml
