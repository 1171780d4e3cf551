import MessageCode.Code.Op
import MessageCode.Generate.Error
import MessageCode.Schema.Naming

/-!
Signatures of the operations that generated code calls.
-/

namespace MessageCode

namespace Signature

def onInstance (owner : RefType) (name : String) (params : List NativeType)
    (returns : NativeType) : Method :=
  { owner, name, kind := .onInstance, params, returns := some returns, nonNull := false }

def onType (owner : RefType) (name : String) (params : List NativeType)
    (returns : NativeType) : Method :=
  { owner, name, kind := .onType, params, returns := some returns, nonNull := false }

def object : NativeType := .ref .object

def list : NativeType := .ref .list

def extension : NativeType := .ref .extension

/-! Messages and builders -/

def getter (f : Field) (returns : NativeType) : Method :=
  (onInstance (.message f.container) (Naming.getter f) [] returns).neverNull

def hasser (f : Field) : Method :=
  onInstance (.message f.container) (Naming.hasser f) [] .bool

def caseType (message oneof : String) : RefType := .oneofCase (message ++ "." ++ oneof)

def caseGetter (message oneof : String) : Method :=
  (onInstance (.message message) (Naming.caseGetter oneof) []
    (.ref (caseType message oneof))).neverNull

def caseNumber (message oneof : String) : Method :=
  onInstance (caseType message oneof) "get_number" [] .int

def defaultInstance (message : String) : Method :=
  (onType (.message message) Naming.defaultInstance [] (.message message)).neverNull

def newBuilder (message : String) : Method :=
  (onType (.message message) Naming.newBuilder [] (.builder message)).neverNull

def build (message : String) : Method :=
  (onInstance (.builder message) Naming.build [] (.message message)).neverNull

def setter (f : Field) (param : NativeType) : Method :=
  (onInstance (.builder f.container) (Naming.setter f) [param] (.builder f.container)).neverNull

/-! Extensions -/

/-- The static that holds the identifier of an extension. -/
def extensionId (f : Field) : Except GenerateError StaticField :=
  match f.extensionScope with
  | some (.message name) => .ok ⟨.message name, f.name, extension⟩
  | some (.file holder) => .ok ⟨.extensionHolder holder, f.name, extension⟩
  | none => .error (.unsupported f.fullName "extension access on a declared field")

def hasExtension : Method :=
  (onInstance .extendableMessage "has_extension" [extension] .bool).neverNull

def getExtension : Method :=
  (onInstance .extendableMessage "get_extension" [extension] object).neverNull

def setExtension : Method :=
  (onInstance .extendableBuilder "set_extension" [extension, object]
    (.ref .extendableBuilder)).neverNull

def addExtension : Method :=
  (onInstance .extendableBuilder "add_extension" [extension, object]
    (.ref .extendableBuilder)).neverNull

/-! Enums -/

def enumNumber (name : String) : Method := onInstance (.enum name) "get_number" [] .int

/-- A number that is not declared gives null, which the setter refuses. -/
def enumForNumber (name : String) : Method :=
  (onType (.enum name) "for_number" [.int] (.ref (.enum name))).neverNull

/-! Wrappers and numbers -/

def longToString : Method :=
  (onType (.wrapper .long) "to_string" [.long] .text).neverNull

def longParse : Method := onType (.wrapper .long) "parse" [.text] .long

def numberLongValue : Method := onInstance .number "long_value" [] .long

def numberDoubleValue : Method := onInstance .number "double_value" [] .double

def wrapperBooleanValue : Method := onInstance (.wrapper .bool) "boolean_value" [] .bool

def objectToString : Method := (onInstance .object "to_string" [] .text).neverNull

/-! Bytes -/

def byteStringToArray : Method :=
  (onInstance .byteString "to_byte_array" [] (.ref .byteArray)).neverNull

def byteStringCopyFrom : Method :=
  (onType .byteString "copy_from" [.ref .byteArray] (.ref .byteString)).neverNull

def base64 : Method := (onType .codec "base64" [] (.ref .codec)).neverNull

def base64Encode : Method := (onInstance .codec "encode" [.ref .byteArray] .text).neverNull

def base64Decode : Method := (onInstance .codec "decode" [.text] (.ref .byteArray)).neverNull

/-! Lists and the support library -/

def listGet : Method := onInstance .list "get" [.int] object

def listSize : Method := onInstance .list "size" [] .int

def listAdd : Method := onInstance .list "add" [object] .bool

def newList : Method := (onType .runtime "new_list" [] list).neverNull

def provider : Method := (onType .runtime "provider" [.boxed .any] (.ref .provider)).neverNull

def resolveAll : Method := (onType .runtime "resolve_all" [list] list).neverNull

/-! Boxed values -/

def getProto : Method := (onInstance (.boxed .proto) "get_proto" [] object).neverNull

def getField : Method := onInstance (.boxed .proto) "get_field" [.text] (.ref .provider)

def resolve : Method := onInstance .provider "resolve" [] (.boxed .any)

/-- The native type that boxes as a kind. -/
def boxParam : BoxedKind → NativeType
  | .bool => .bool
  | .int => .long
  | .float => .double
  | .text => .text
  | .list => list
  | _ => object

def forValue (kind : BoxedKind) : Method :=
  (onType (.boxed kind) "for_value" [boxParam kind] (.boxed kind)).neverNull

/-- Marks a text as sanitized content of the kind with an ordinal. -/
def ordain : Method :=
  (onType (.boxed .sanitized) "ordain" [.text, .int] (.boxed .sanitized)).neverNull

def unbox (name : String) (returns : NativeType) : Method :=
  onInstance (.boxed .any) name [] returns

def asList : Method := (onInstance (.boxed .list) "as_list" [] list).neverNull

def toSafeProto (kind : SanitizedKind) : Method :=
  onInstance (.boxed .sanitized) kind.toProtoMethod [] (.message kind.messageName)

def wrappedValue (kind : SanitizedKind) : Method :=
  (onInstance (.message kind.messageName) ("get_" ++ kind.wrappedField) [] .text).neverNull

end Signature

end MessageCode
