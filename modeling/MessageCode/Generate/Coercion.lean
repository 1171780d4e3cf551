import MessageCode.Generate.Signature
import MessageCode.Generate.ValueType
import MessageCode.Schema.Basic

/-!
Coercions. A field has a storage type, which its getter returns and its setter takes, a native type,
which generated code computes with, and a logical type, which the expression language sees. A
coercion says what the three are and writes the code between them.
-/

namespace MessageCode

inductive Coercion where
  | bool
  | int32
  | int64
  /-- A 64-bit integer that travels as decimal text. -/
  | int64AsText
  | float
  | double
  | text
  /-- Bytes that travel as base64 text. -/
  | bytes
  /-- An enum that is accessed through its constants. -/
  | legacyEnum (name : String)
  /-- An enum that is accessed through numbers, known or not. -/
  | modernEnum (name : String)
  | message (name : String)
  | sanitized (kind : SanitizedKind)
  deriving DecidableEq

namespace Coercion

def of (schema : Schema) (f : Field) : Except GenerateError Coercion :=
  let unsupported (what : String) : Except GenerateError Coercion :=
    .error (.unsupported f.fullName what)
  if f.numericAsText ∧ f.kind ≠ .int64 then
    unsupported ("numeric-as-text on " ++ f.kind.render ++ " field")
  else
    match f.kind with
    | .bool => .ok .bool
    | .int32 => .ok .int32
    | .int64 => .ok (if f.numericAsText then .int64AsText else .int64)
    | .float => .ok .float
    | .double => .ok .double
    | .text => .ok .text
    | .bytes => .ok .bytes
    | .enum name =>
        if (schema.enum? name).isSome then
          match f.revision with
          | .legacy => .ok (.legacyEnum name)
          | .modern => .ok (.modernEnum name)
        else unsupported ("unresolved enum " ++ name)
    | .message name =>
        match SanitizedKind.ofMessage? name with
        | some kind => .ok (.sanitized kind)
        | none =>
            if (schema.message? name).isSome then .ok (.message name)
            else unsupported ("unresolved message " ++ name)

/-- What the getter returns and the setter takes. -/
def storageType : Coercion → NativeType
  | .bool => .bool
  | .int32 | .modernEnum _ => .int
  | .int64 | .int64AsText => .long
  | .float => .float
  | .double => .double
  | .text => .text
  | .bytes => .ref .byteString
  | .legacyEnum name => .ref (.enum name)
  | .message name => .message name
  | .sanitized kind => .message kind.messageName

/-- What generated code computes with. -/
def nativeType : Coercion → NativeType
  | .bool => .bool
  | .int32 | .int64 | .legacyEnum _ | .modernEnum _ => .long
  | .float | .double => .double
  | .int64AsText | .text | .bytes | .sanitized _ => .text
  | .message name => .message name

def logicalType : Coercion → ValueType
  | .bool => .bool
  | .int32 | .int64 | .legacyEnum _ | .modernEnum _ => .int
  | .float | .double => .float
  | .int64AsText | .text | .bytes => .text
  | .message name => .message name
  | .sanitized kind => .sanitized kind

/-- What a boxed argument is unboxed to before it is coerced; sanitized content stays boxed. -/
def unboxTarget : Coercion → Option NativeType
  | .sanitized _ => none
  | c => some c.nativeType

open Assembler

def encodeBytes : Assembler GenerateError Unit := do
  invoke Signature.byteStringToArray
  invoke Signature.base64
  swap
  invoke Signature.base64Encode

def unwrapSanitized (kind : SanitizedKind) : Assembler GenerateError Unit := do
  checkCast (.message kind.messageName)
  invoke (Signature.wrappedValue kind)

/-- What a getter returned to native form. -/
def interpret : Coercion → Assembler GenerateError Unit
  | .bool | .double | .text | .int64 => pure ()
  | .float => convert .double
  | .int32 | .modernEnum _ => convert .long
  | .int64AsText => invoke Signature.longToString
  | .legacyEnum name => do
      invoke (Signature.enumNumber name)
      convert .long
  | .bytes => encodeBytes
  | .message name => checkCast (.message name)
  | .sanitized kind => unwrapSanitized kind

/-- What `get_extension` returned, an object of no known type, to native form. -/
def interpretExtension : Coercion → Assembler GenerateError Unit
  | .float | .double => do
      checkCast .number
      invoke Signature.numberDoubleValue
  | .int32 | .int64 | .modernEnum _ => do
      checkCast .number
      invoke Signature.numberLongValue
  | .int64AsText => invoke Signature.objectToString
  | .legacyEnum name => do
      checkCast (.enum name)
      invoke (Signature.enumNumber name)
      convert .long
  | .bool => do
      checkCast (.wrapper .bool)
      invoke Signature.wrapperBooleanValue
  | .text => checkCast .text
  | .bytes => do
      checkCast .byteString
      encodeBytes
  | .message name => checkCast (.message name)
  | .sanitized kind => unwrapSanitized kind

/-- An unboxed argument to storage form. -/
def coerce : Coercion → Assembler GenerateError Unit
  | .bool | .double | .text | .int64 => pure ()
  | .float => convert .float
  | .int32 | .modernEnum _ => convert .int
  | .int64AsText => invoke Signature.longParse
  | .legacyEnum name => do
      convert .int
      invoke (Signature.enumForNumber name)
  | .bytes => do
      invoke Signature.base64
      swap
      invoke Signature.base64Decode
      invoke Signature.byteStringCopyFrom
  | .message name => checkCast (.message name)
  | .sanitized kind => do
      checkCast (.boxed .sanitized)
      invoke (Signature.toSafeProto kind)

end Coercion

end MessageCode
