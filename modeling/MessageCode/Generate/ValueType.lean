import MessageCode.Code.Type
import MessageCode.Schema.Sanitized

/-!
Logical types: what the expression language knows about a value, whichever form it travels in.
-/

namespace MessageCode

inductive ValueType where
  | any
  | null
  | bool
  | int
  | float
  | text
  | message (name : String)
  | sanitized (kind : SanitizedKind)
  | list (element : ValueType)
  /-- The literal `[]`, known to be empty. -/
  | emptyList
  deriving DecidableEq

namespace ValueType

def boxedKind : ValueType → BoxedKind
  | .any | .null => .any
  | .bool => .bool
  | .int => .int
  | .float => .float
  | .text => .text
  | .message _ => .proto
  | .sanitized _ => .sanitized
  | .list _ | .emptyList => .list

/-- The unboxed form; sanitized content travels as plain text. -/
def nativeType : ValueType → NativeType
  | .any => .boxed .any
  | .null => .null
  | .bool => .bool
  | .int => .long
  | .float => .double
  | .text | .sanitized _ => .text
  | .message name => .message name
  | .list _ | .emptyList => .ref .list

def boxedType (t : ValueType) : NativeType := .boxed t.boxedKind

def render : ValueType → String
  | .any => "?"
  | .null => "null"
  | .bool => "bool"
  | .int => "int"
  | .float => "float"
  | .text => "string"
  | .message name => name
  | .sanitized kind => kind.render
  | .list element => "list<" ++ element.render ++ ">"
  | .emptyList => "list<?>"

end ValueType

end MessageCode
