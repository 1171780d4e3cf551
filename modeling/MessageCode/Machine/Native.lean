import MessageCode.Machine.Native.Boxed
import MessageCode.Machine.Native.Message
import MessageCode.Machine.Native.Support

/-!
Native operations by the type that owns them.
-/

namespace MessageCode

namespace Native

/-- The result of an operation, if its owner knows it. -/
def dispatch (schema : Schema) (c : Call) : Native (Option Value) :=
  match c.method.owner with
  | .message name => callMessage schema name c
  | .builder name => callBuilder schema name c
  | .extendableMessage => callExtendableMessage schema c
  | .extendableBuilder => callExtendableBuilder schema c
  | .enum name => callEnum schema name c
  | .oneofCase _ => callOneofCase c
  | .boxed kind => callBoxed schema kind c
  | .provider => callProvider c
  | .wrapper content => callWrapper content c
  | .number => callNumber c
  | .object => callObject c
  | .byteString => callByteString c
  | .codec => callCodec c
  | .list => callList c
  | .runtime => callRuntime c
  | _ => return none

def invoke (schema : Schema) (c : Call) : Native Value := do
  match ← dispatch schema c with
  | some v => return v
  | none => throw (.unknownMethod c.describe)

end Native

end MessageCode
