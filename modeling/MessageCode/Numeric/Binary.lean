import MessageCode.Numeric.Integer

/-!
Binary floating point as bit patterns. A finite number is a sign and a natural number of the
format's smallest positive units, so every conversion here is exact arithmetic on natural numbers
followed by one rounding to nearest, ties to even.
-/

namespace MessageCode.Numeric

/-- Widths of the stored fraction and of the exponent field. -/
structure Format where
  fraction : Nat
  exponent : Nat
  deriving DecidableEq

namespace Format

def single : Format := ⟨23, 8⟩

def double : Format := ⟨52, 11⟩

/-- All bits: the sign, the exponent field and the fraction. -/
def width (f : Format) : Nat := 1 + f.exponent + f.fraction

/-- The smallest positive number is `2 ^ -(unit f)`. -/
def unit (f : Format) : Nat := twoTo (f.exponent - 1) - 2 + f.fraction

/-- The pattern of positive infinity: all exponent bits set and no fraction. -/
def infinityBits (f : Format) : Nat := (twoTo f.exponent - 1) * twoTo f.fraction

end Format

/-- A number of the format, as its bits. -/
structure Binary (f : Format) where
  bits : BitVec f.width
  deriving DecidableEq

abbrev Single := Binary .single

abbrev Double := Binary .double

/-- What a bit pattern stands for. A finite magnitude counts the format's smallest units. -/
inductive Reading where
  | nan
  | infinite (negative : Bool)
  | finite (negative : Bool) (magnitude : Nat)
  deriving DecidableEq

/-- The quotient rounded to nearest, a tie to the even neighbour. -/
def divideToEven (numerator denominator : Nat) : Nat :=
  let quotient := numerator / denominator
  let twice := 2 * (numerator % denominator)
  if twice < denominator then quotient
  else if denominator < twice then quotient + 1
  else quotient + quotient % 2

namespace Binary

variable {f : Format}

/-- The pattern with a sign and the bits below it. -/
def assemble (f : Format) (negative : Bool) (body : Nat) : Binary f :=
  ⟨BitVec.ofNat f.width ((if negative then twoTo (f.exponent + f.fraction) else 0) + body)⟩

def negative (x : Binary f) : Bool := decide (twoTo (f.exponent + f.fraction) ≤ x.bits.toNat)

def exponentField (x : Binary f) : Nat := x.bits.toNat / twoTo f.fraction % twoTo f.exponent

def fractionField (x : Binary f) : Nat := x.bits.toNat % twoTo f.fraction

def nan (f : Format) : Binary f :=
  assemble f false (f.infinityBits + twoTo (f.fraction - 1))

def infinity (f : Format) (negative : Bool) : Binary f := assemble f negative f.infinityBits

def zero (f : Format) (negative : Bool) : Binary f := assemble f negative 0

/-- An exponent field of zero means that no leading bit is implied. -/
def read (x : Binary f) : Reading :=
  let exponent := x.exponentField
  let fraction := x.fractionField
  if exponent + 1 = twoTo f.exponent then
    if fraction = 0 then .infinite x.negative else .nan
  else if exponent = 0 then .finite x.negative fraction
  else .finite x.negative ((twoTo f.fraction + fraction) * twoTo (exponent - 1))

def isNaN (x : Binary f) : Bool := x.read = .nan

def isFinite (x : Binary f) : Bool :=
  match x.read with
  | .finite .. => true
  | _ => false

/-- The pattern nearest to a ratio of units. Rounding up past the last fraction carries into the
exponent field, and past the last exponent it reaches infinity. -/
def bodyOfUnits (f : Format) (numerator denominator : Nat) : Nat :=
  let whole := numerator / denominator
  let shift := if whole < twoTo (f.fraction + 1) then 0 else whole.log2 - f.fraction
  min (shift * twoTo f.fraction + divideToEven numerator (denominator * twoTo shift)) f.infinityBits

/-- The number nearest to a ratio of natural numbers with a sign. -/
def ofRatio (f : Format) (negative : Bool) (numerator denominator : Nat) : Binary f :=
  assemble f negative (bodyOfUnits f (numerator * twoTo f.unit) denominator)

def convert (g : Format) (x : Binary f) : Binary g :=
  match x.read with
  | .nan => nan g
  | .infinite negative => infinity g negative
  | .finite negative magnitude => ofRatio g negative magnitude (twoTo f.unit)

def ofInt (f : Format) (n : Int) : Binary f := ofRatio f (decide (n < 0)) n.natAbs 1

def product (x y : Binary f) : Binary f :=
  let negative := x.negative != y.negative
  match x.read, y.read with
  | .nan, _ => nan f
  | _, .nan => nan f
  | .infinite _, .finite _ 0 => nan f
  | .finite _ 0, .infinite _ => nan f
  | .finite _ m, .finite _ n => ofRatio f negative (m * n) (twoTo f.unit * twoTo f.unit)
  | _, _ => infinity f negative

def quotient (x y : Binary f) : Binary f :=
  let negative := x.negative != y.negative
  match x.read, y.read with
  | .nan, _ => nan f
  | _, .nan => nan f
  | .infinite _, .infinite _ => nan f
  | .finite _ 0, .finite _ 0 => nan f
  | .infinite _, _ => infinity f negative
  | .finite _ _, .infinite _ => zero f negative
  | .finite _ _, .finite _ 0 => infinity f negative
  | .finite _ m, .finite _ n => ofRatio f negative m n

/-- The integer part, held within bounds; what is no number becomes zero. -/
def truncate (least greatest : Int) (x : Binary f) : Int :=
  match x.read with
  | .nan => 0
  | .infinite negative => if negative then least else greatest
  | .finite negative magnitude =>
      let whole : Int := (magnitude / twoTo f.unit : Nat)
      max least (min greatest (if negative then -whole else whole))

/-- The integer part as a 32-bit integer, the nearest one when it is out of range. -/
def toInt32 (x : Binary f) : Int32 :=
  Int32.ofInt (x.truncate Int32.minValue.toInt Int32.maxValue.toInt)

def toInt64 (x : Binary f) : Int64 :=
  Int64.ofInt (x.truncate Int64.minValue.toInt Int64.maxValue.toInt)

end Binary

def Single.widen (x : Single) : Double := x.convert .double

def Double.narrow (x : Double) : Single := x.convert .single

end MessageCode.Numeric
