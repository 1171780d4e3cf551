import MessageCode.Numeric.Binary

/-!
Decimal texts of binary numbers. `Shortest.digits` finds the fewest decimal digits that lie in the
interval of reals which round to the number; `Layout` says how digits and exponent are set out.
`readDecimal` turns a sign, digits and a decimal exponent into the nearest number.
-/

namespace MessageCode.Numeric

/-- `significand * 10 ^ exponent`. -/
structure Decimal where
  significand : Nat
  exponent : Int
  deriving DecidableEq

/-- Which neighbour a tie goes to. -/
inductive Tie where
  | away
  | even
  deriving DecidableEq

namespace Shortest

/-- The reals that round to a number, in quarters of the format's unit. -/
structure Interval where
  low : Nat
  middle : Nat
  high : Nat
  closed : Bool
  /-- The quarters in one. -/
  scale : Nat

/-- The lower gap is half as wide where the exponent changes. -/
def Interval.of {f : Format} (x : Binary f) (magnitude : Nat) : Interval :=
  let gap := twoTo (x.exponentField - 1)
  let below := if x.fractionField = 0 ∧ 1 < x.exponentField then gap else 2 * gap
  { low := 4 * magnitude - below
    middle := 4 * magnitude
    high := 4 * magnitude + 2 * gap
    closed := x.fractionField % 2 = 0
    scale := 4 * twoTo f.unit }

/-- Whether `significand * up / down` of the scaled interval lies inside. -/
def Interval.contains (i : Interval) (up down significand : Nat) : Bool :=
  let point := significand * down
  if i.closed then i.low * up ≤ point && point ≤ i.high * up
  else i.low * up < point && point < i.high * up

/-- The better of the two neighbours of the number on the grid of multiples of `10 ^ exponent`,
among those inside the interval. -/
def onGrid (tie : Tie) (i : Interval) (exponent : Int) : Option Decimal :=
  let up := tenTo (-exponent).toNat
  let down := i.scale * tenTo exponent.toNat
  let floor := i.middle * up / down
  let remainder := 2 * (i.middle * up % down)
  let roundsUp := down < remainder || (remainder == down && (tie == .away || floor % 2 == 1))
  match i.contains up down floor && 0 < floor, i.contains up down (floor + 1) with
  | true, true => some ⟨if roundsUp then floor + 1 else floor, exponent⟩
  | true, false => some ⟨floor, exponent⟩
  | false, true => some ⟨floor + 1, exponent⟩
  | false, false => none

def decimalLength (n : Nat) : Nat := (Nat.toDigits 10 n).length

/-- The position of the decimal point of the number: it lies in `[10 ^ (p - 1), 10 ^ p)`. -/
def pointPosition (i : Interval) : Int :=
  if i.scale ≤ i.middle then decimalLength (i.middle / i.scale)
  else
    let places := decimalLength i.scale
    decimalLength (i.middle * tenTo places / i.scale) - places

def strip : Nat → Decimal → Decimal
  | 0, d => d
  | fuel + 1, d =>
      if d.significand ≠ 0 ∧ d.significand % 10 = 0 then
        strip fuel ⟨d.significand / 10, d.exponent + 1⟩
      else d

/-- The fewest digits inside the interval, of those the nearest; seventeen always suffice. -/
def digits (tie : Tie) (i : Interval) : Decimal :=
  let point := pointPosition i
  let found := (List.range 17).findSome? fun (n : Nat) => onGrid tie i (point - (n + 1))
  match found with
  | some d => strip 20 d
  | none => ⟨i.middle * tenTo 20 / i.scale, -20⟩

end Shortest

/-- How a number's digits are set out. -/
structure Layout where
  /-- The positional form is kept for `10 ^ (least - 1) ≤ |x| < 10 ^ greatest`, without these
  bounds for every number. -/
  positional : Option (Int × Int)
  /-- Whether a whole number in positional form ends in `.0`. -/
  keepsPoint : Bool
  /-- What stands in front of an exponent that is not negative. -/
  plus : String
  tie : Tie
  nan : String
  infinity : String

namespace Layout

def signed (negative : Bool) (text : String) : String := if negative then "-" ++ text else text

def zeros (n : Nat) : String := String.ofList (List.replicate n '0')

/-- Digits around the decimal point at `point` places from the left. -/
def positionalText (l : Layout) (digits : List Char) (point : Int) : String :=
  let count : Int := digits.length
  if point ≤ 0 then "0." ++ zeros (-point).toNat ++ String.ofList digits
  else if count ≤ point then
    String.ofList digits ++ zeros (point - count).toNat ++ (if l.keepsPoint then ".0" else "")
  else
    String.ofList (digits.take point.toNat) ++ "." ++ String.ofList (digits.drop point.toNat)

def exponentText (l : Layout) (digits : List Char) (point : Int) : String :=
  String.ofList (digits.take 1)
    ++ (if digits.length ≤ 1 then "" else "." ++ String.ofList (digits.drop 1))
    ++ "e" ++ (if 1 ≤ point then l.plus else "") ++ toString (point - 1)

def decimalText (l : Layout) (d : Decimal) : String :=
  let digits := Nat.toDigits 10 d.significand
  let point := d.exponent + digits.length
  match l.positional with
  | none => l.positionalText digits point
  | some (least, greatest) =>
      if least ≤ point ∧ point ≤ greatest then l.positionalText digits point
      else l.exponentText digits point

/-- The text of a number: its shortest digits, set out as the layout says. -/
def text {f : Format} (l : Layout) (x : Binary f) : String :=
  match x.read with
  | .nan => l.nan
  | .infinite negative => signed negative l.infinity
  | .finite negative 0 => signed negative (if l.keepsPoint then "0.0" else "0")
  | .finite negative magnitude =>
      signed negative (l.decimalText (Shortest.digits l.tie (Shortest.Interval.of x magnitude)))

end Layout

/-- The decimal length past which a number is infinite, or below which it is zero, whatever its
digits are. -/
def decimalReach : Int := 400

/-- The nearest number to `significand * 10 ^ exponent`. -/
def readDecimal (f : Format) (negative : Bool) (significand : Nat) (exponent : Int) : Binary f :=
  if significand = 0 then .zero f negative
  else
    let point := exponent + Shortest.decimalLength significand
    if decimalReach < point then .infinity f negative
    else if point < -decimalReach then .zero f negative
    else .ofRatio f negative (significand * tenTo exponent.toNat) (tenTo (-exponent).toNat)

end MessageCode.Numeric
