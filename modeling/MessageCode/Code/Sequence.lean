import MessageCode.Code.Op

/-!
Finished instruction sequences: instructions with their effect on the operand stack.
-/

namespace MessageCode

/-- Consumes its inputs and leaves its output, and nothing else. -/
structure Sequence where
  ops : List Op
  /-- Deepest first. -/
  inputs : List NativeType
  output : Option NativeType
  /-- The value produced is never null. -/
  nonNull : Bool
  maxLocals : Nat

namespace Sequence

def constant (c : Constant) : Sequence :=
  { ops := [.push c]
    inputs := []
    output := some c.type
    nonNull := c ≠ .null
    maxLocals := 0 }

def withNonNull (s : Sequence) (nonNull : Bool) : Sequence := { s with nonNull }

/-- The number of instructions, those inside regions included. -/
def length (s : Sequence) : Nat := Op.countAll s.ops

def isEmpty (s : Sequence) : Bool := s.ops.isEmpty

def any (s : Sequence) (p : Op → Bool) : Bool := Op.anyOf p s.ops

end Sequence

end MessageCode
