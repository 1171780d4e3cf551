import MessageCode.Text.Quoted

/-!
Faults: why a run stops without a result.
-/

namespace MessageCode

inductive Fault where
  | nullPointer (op : String)
  | classCast (expected found : String)
  | unknownMethod (name : String)
  | unknownField (name : String)
  | illegalArgument (reason : String)
  /-- A text that is no decimal integer. -/
  | numberFormat (text : String)
  | stackUnderflow (op : String)
  | badOperand (op expected found : String)
  deriving DecidableEq

def Fault.message : Fault → String
  | .nullPointer op => "null pointer in " ++ op
  | .classCast expected found => "class cast: " ++ found ++ " is not " ++ expected
  | .unknownMethod name => "unknown method " ++ name
  | .unknownField name => "unknown static field " ++ name
  | .illegalArgument reason => "illegal argument: " ++ reason
  | .numberFormat text => "number format: " ++ Text.quoted text ++ " is not a decimal integer"
  | .stackUnderflow op => "stack underflow in " ++ op
  | .badOperand op expected found => op ++ ": expected " ++ expected ++ ", found " ++ found

end MessageCode
