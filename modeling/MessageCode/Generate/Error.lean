import MessageCode.Code.Assembler

/-!
Why code cannot be generated. Each cause is a disagreement between the schema and the caller.
-/

namespace MessageCode

inductive GenerateError where
  | unknownMessage (name : String)
  | unknownField (message field : String)
  | unsupported (context what : String)
  | argumentMismatch (field expected found : String)
  | baseMismatch (message found : String)
  | emit (e : EmitError)
  deriving DecidableEq

def GenerateError.message : GenerateError → String
  | .unknownMessage name => "unknown message type " ++ name
  | .unknownField message field => message ++ " has no field " ++ field
  | .unsupported context what => context ++ ": unsupported " ++ what
  | .argumentMismatch field expected found =>
      "argument for " ++ field ++ ": expected " ++ expected ++ ", found " ++ found
  | .baseMismatch message found => "base value for " ++ message ++ " has type " ++ found
  | .emit e => e.message

instance : OfEmitError GenerateError := ⟨.emit⟩

end MessageCode
