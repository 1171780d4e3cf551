/-!
Types of operand-stack slots. References form a hierarchy with `Object` at the top and the type of
`null` at the bottom; primitives stand apart from it and from each other.
-/

namespace MessageCode

/-- Kinds of boxed values. A boxed value carries its kind at run time; `any` is the common
supertype. -/
inductive BoxedKind where
  | any
  | bool
  | int
  | float
  | text
  | proto
  | list
  | sanitized
  deriving DecidableEq

def BoxedKind.render : BoxedKind → String
  | .any => "Value"
  | .bool => "BoolValue"
  | .int => "IntValue"
  | .float => "FloatValue"
  | .text => "TextValue"
  | .proto => "ProtoValue"
  | .list => "ListValue"
  | .sanitized => "SanitizedValue"

mutual

inductive RefType where
  | object
  /-- The type of `null`. -/
  | null
  | text
  | byteString
  | byteArray
  | codec
  | list
  /-- A value yet to be materialised. -/
  | provider
  | boxed (kind : BoxedKind)
  /-- The common supertype of the wrappers of numbers. -/
  | number
  /-- The object a primitive is wrapped in. -/
  | wrapper (content : NativeType)
  | message (name : String)
  | builder (message : String)
  | enum (name : String)
  /-- The discriminant of a oneof, keyed by message and oneof name. -/
  | oneofCase (key : String)
  | extendableMessage
  | extendableBuilder
  /-- An extension identifier. -/
  | extension
  /-- The holder of the extension identifiers of a file. -/
  | extensionHolder (name : String)
  /-- The support library; it has static operations only. -/
  | runtime

inductive NativeType where
  | bool
  | int
  | long
  | float
  | double
  | ref (type : RefType)

end

deriving instance DecidableEq for RefType, NativeType

namespace NativeType

abbrev text : NativeType := .ref .text

abbrev null : NativeType := .ref .null

abbrev boxed (kind : BoxedKind) : NativeType := .ref (.boxed kind)

abbrev message (name : String) : NativeType := .ref (.message name)

abbrev builder (message : String) : NativeType := .ref (.builder message)

def isPrimitive : NativeType → Bool
  | .ref _ => false
  | _ => true

def isNumeric : NativeType → Bool
  | .int | .long | .float | .double => true
  | _ => false

def refType? : NativeType → Option RefType
  | .ref r => some r
  | _ => none

def boxedKind? : NativeType → Option BoxedKind
  | .ref (.boxed kind) => some kind
  | _ => none

end NativeType

mutual

def RefType.render : RefType → String
  | .object => "Object"
  | .null => "null"
  | .text => "Text"
  | .byteString => "ByteString"
  | .byteArray => "byte[]"
  | .codec => "Codec"
  | .list => "List"
  | .provider => "Provider"
  | .boxed kind => kind.render
  | .number => "Number"
  | .wrapper content => "Wrapper<" ++ content.render ++ ">"
  | .message name => name
  | .builder message => message ++ "$Builder"
  | .enum name => name
  | .oneofCase key => key ++ "$Case"
  | .extendableMessage => "ExtendableMessage"
  | .extendableBuilder => "ExtendableBuilder"
  | .extension => "Extension"
  | .extensionHolder name => name
  | .runtime => "Runtime"

def NativeType.render : NativeType → String
  | .bool => "bool"
  | .int => "int"
  | .long => "long"
  | .float => "float"
  | .double => "double"
  | .ref r => r.render

end

/-- Whether an object of the first type can stand where the second is expected. -/
def RefType.assignableTo (source target : RefType) : Bool :=
  source = target ||
    match source, target with
    | _, .object => true
    | .null, _ => true
    | .boxed _, .boxed .any => true
    | .message _, .extendableMessage => true
    | .builder _, .extendableBuilder => true
    | .wrapper content, .number => content.isNumeric
    | _, _ => false

def NativeType.assignableTo (source target : NativeType) : Bool :=
  match source, target with
  | .ref a, .ref b => a.assignableTo b
  | _, _ => source = target

/-- The least common type of two slots that meet. Primitives only meet themselves. -/
def NativeType.merge (a b : NativeType) : Option NativeType :=
  if a = b then some a
  else
    match a, b with
    | .ref r, .ref s =>
        if r.assignableTo s then some b
        else if s.assignableTo r then some a
        else some (.ref .object)
    | _, _ => none

/-- A stack in words, deepest slot first. -/
def NativeType.renderList (types : List NativeType) : String :=
  ", ".intercalate (types.map NativeType.render)

end MessageCode
