import MessageCode.Code.Type
import MessageCode.Machine.Record
import MessageCode.Schema.Sanitized

/-!
Values of the machine. Objects carry an identity, so that two references can be told apart even when
they are equal. What an object holds is part of it, but for builders and native lists, which change:
their contents are in the machine's store, under their identity.
-/

namespace MessageCode

abbrev ObjectId := Nat

/-- What slots of messages hold: primitives as themselves, enums as numbers, and texts, byte strings
and messages as objects. -/
inductive Stored where
  | bool (b : Bool)
  | int (n : Int32)
  | long (n : Int64)
  | float (x : Numeric.Single)
  | double (x : Numeric.Double)
  | text (id : ObjectId) (s : String)
  | bytes (id : ObjectId) (b : List UInt8)
  | message (id : ObjectId) (data : Record Stored)

abbrev MessageData := Record Stored

mutual

/-- A slot of the operand stack, or a local. -/
inductive Value where
  | null
  | bool (b : Bool)
  | int (n : Int32)
  | long (n : Int64)
  | float (x : Numeric.Single)
  | double (x : Numeric.Double)
  | ref (id : ObjectId) (object : Object)

inductive Object where
  | text (s : String)
  | byteString (b : List UInt8)
  | byteArray (b : List UInt8)
  | codec
  /-- The result of boxing a primitive. -/
  | wrapper (content : Value)
  | boxed (b : Boxed)
  | message (data : Record Stored)
  | builder (typeName : String)
  | enumConst (enum : String) (number : Int32)
  | oneofCase (key : String) (number : Int32)
  /-- The identifier of the extension that a type declares under a name. -/
  | extension (owner name : String)
  | list
  /-- A value that is materialised when it is resolved. -/
  | provider (value : Value)

/-- Values in the form in which the expression language exchanges them. -/
inductive Boxed where
  | bool (b : Bool)
  | int (n : Int64)
  | float (x : Numeric.Double)
  | text (s : String)
  /-- A message. -/
  | proto (value : Value)
  | list (items : List Value)
  | sanitized (kind : SanitizedKind) (content : String)

end

def Boxed.kind : Boxed → BoxedKind
  | .bool _ => .bool
  | .int _ => .int
  | .float _ => .float
  | .text _ => .text
  | .proto _ => .proto
  | .list _ => .list
  | .sanitized .. => .sanitized

def Stored.toValue : Stored → Value
  | .bool b => .bool b
  | .int n => .int n
  | .long n => .long n
  | .float x => .float x
  | .double x => .double x
  | .text id s => .ref id (.text s)
  | .bytes id b => .ref id (.byteString b)
  | .message id data => .ref id (.message data)

namespace Value

def isNull : Value → Bool
  | .null => true
  | _ => false

def object? : Value → Option Object
  | .ref _ object => some object
  | _ => none

def primitiveType? : Value → Option NativeType
  | .bool _ => some .bool
  | .int _ => some .int
  | .long _ => some .long
  | .float _ => some .float
  | .double _ => some .double
  | .null | .ref .. => none

/-- The integer in a number, its wrapper, a boxed integer or an enum constant. -/
def asLong? : Value → Option Int64
  | .int n => some n.toInt64
  | .long n => some n
  | .ref _ (.wrapper content) => content.asLong?
  | .ref _ (.boxed (.int n)) => some n
  | .ref _ (.enumConst _ number) => some number.toInt64
  | _ => none

def asDouble? : Value → Option Numeric.Double
  | .float x => some x.widen
  | .double x => some x
  | .ref _ (.wrapper content) => content.asDouble?
  | .ref _ (.boxed (.float x)) => some x
  | _ => none

def asBool? : Value → Option Bool
  | .bool b => some b
  | .ref _ (.wrapper content) => content.asBool?
  | .ref _ (.boxed (.bool b)) => some b
  | _ => none

def asText? : Value → Option String
  | .ref _ (.text s) => some s
  | .ref _ (.boxed (.text s)) => some s
  | .ref _ (.boxed (.sanitized _ content)) => some content
  | _ => none

def asMessage? : Value → Option MessageData
  | .ref _ (.message data) => some data
  | .ref _ (.boxed (.proto value)) => value.asMessage?
  | _ => none

def sameRef : Value → Value → Bool
  | .ref a _, .ref b _ => a = b
  | _, _ => false

end Value

mutual

def Value.typeName : Value → String
  | .null => "null"
  | .bool _ => "bool"
  | .int _ => "int"
  | .long _ => "long"
  | .float _ => "float"
  | .double _ => "double"
  | .ref _ object => object.typeName

def Object.typeName : Object → String
  | .text _ => "Text"
  | .byteString _ => "ByteString"
  | .byteArray _ => "byte[]"
  | .codec => "Codec"
  | .wrapper content => "Wrapper<" ++ content.typeName ++ ">"
  | .boxed b => b.kind.render
  | .message data => data.typeName
  | .builder typeName => typeName ++ "$Builder"
  | .enumConst enum _ => enum
  | .oneofCase key _ => key ++ "$Case"
  | .extension .. => "Extension"
  | .list => "List"
  | .provider _ => "Provider"

end

/-- Whether an object belongs to a type. Boxed values are their own providers. -/
def Object.isInstance (type : RefType) (object : Object) : Bool :=
  match type, object with
  | .object, _ => true
  | .text, .text _ => true
  | .byteString, .byteString _ => true
  | .byteArray, .byteArray _ => true
  | .codec, .codec => true
  | .list, .list => true
  | .provider, .provider _ => true
  | .provider, .boxed _ => true
  | .boxed .any, .boxed _ => true
  | .boxed kind, .boxed b => b.kind = kind
  | .number, .wrapper content => (content.primitiveType?.map (·.isNumeric)).getD false
  | .wrapper type, .wrapper content => content.primitiveType? = some type
  | .message name, .message data => data.typeName = name
  | .builder name, .builder typeName => typeName = name
  | .enum name, .enumConst enum _ => enum = name
  | .oneofCase name, .oneofCase key _ => key = name
  | .extendableMessage, .message _ => true
  | .extendableBuilder, .builder _ => true
  | .extension, .extension .. => true
  | _, _ => false

/-- Whether a value can stand where a reference of a type is expected; null always can. -/
def Value.isInstance (type : RefType) : Value → Bool
  | .null => true
  | .ref _ object => object.isInstance type
  | _ => false

end MessageCode
