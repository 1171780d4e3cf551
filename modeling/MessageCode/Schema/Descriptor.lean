import MessageCode.Numeric.Binary
import MessageCode.Schema.Sanitized

/-!
Descriptors of messages, fields and enums, with every type name resolved.
-/

namespace MessageCode

/-- The rules for presence that a file is declared under. -/
inductive Revision where
  /-- Every singular field tracks whether it was set. -/
  | legacy
  /-- Only message fields do; the others have implicit defaults. -/
  | modern
  deriving DecidableEq

inductive Label where
  | singular
  | repeated
  deriving DecidableEq

inductive FieldKind where
  | bool
  | int32
  | int64
  | float
  | double
  | text
  | bytes
  | enum (name : String)
  | message (name : String)
  deriving DecidableEq

def FieldKind.render : FieldKind → String
  | .bool => "bool"
  | .int32 => "int32"
  | .int64 => "int64"
  | .float => "float"
  | .double => "double"
  | .text => "text"
  | .bytes => "bytes"
  | .enum _ => "enum"
  | .message _ => "message"

inductive DefaultValue where
  | bool (b : Bool)
  | int (n : Int64)
  | float (x : Numeric.Double)
  /-- A text, or the bytes of its encoding for a field of bytes. -/
  | text (s : String)
  /-- The number of an enum value. -/
  | enum (number : Int32)
  deriving DecidableEq

inductive ExtensionScope where
  /-- Inside a message, as a static of it. -/
  | message (name : String)
  /-- At the top of a file, on the file's holder. -/
  | file (holder : String)
  deriving DecidableEq

/-- The full name of the type that owns the identifier. -/
def ExtensionScope.owner : ExtensionScope → String
  | .message name => name
  | .file holder => holder

structure Field where
  name : String
  number : Int32
  kind : FieldKind
  label : Label
  revision : Revision
  /-- The message it belongs to; the one it extends for an extension. -/
  container : String
  oneof : Option String
  default : Option DefaultValue
  /-- Its 64-bit integers travel as decimal texts. -/
  numericAsText : Bool
  extensionScope : Option ExtensionScope
  deriving DecidableEq

namespace Field

def fullName (f : Field) : String := f.container ++ "." ++ f.name

def isRepeated (f : Field) : Bool := f.label = .repeated

def isExtension (f : Field) : Bool := f.extensionScope.isSome

def hasDefault (f : Field) : Bool := f.default.isSome

/-- Enums of modern files are read and written as bare numbers. -/
def isModernEnum (f : Field) : Bool :=
  match f.kind with
  | .enum _ => f.revision = .modern
  | _ => false

/-- The kind of sanitized content, for a field that holds a wrapper message. -/
def sanitizedKind? (f : Field) : Option SanitizedKind :=
  match f.kind with
  | .message name => SanitizedKind.ofMessage? name
  | _ => none

end Field

structure Message where
  fullName : String
  revision : Revision
  extendable : Bool
  /-- In the order of their declaration. -/
  fields : List Field
  /-- In the order in which members mention them first. -/
  oneofs : List String
  deriving DecidableEq

namespace Message

def field? (m : Message) (name : String) : Option Field := m.fields.find? fun f => f.name = name

def fieldByNumber? (m : Message) (number : Int32) : Option Field :=
  m.fields.find? fun f => f.number = number

def members (m : Message) (oneof : String) : List Field :=
  m.fields.filter fun f => f.oneof = some oneof

end Message

structure EnumValue where
  name : String
  number : Int32
  deriving DecidableEq

structure EnumType where
  fullName : String
  revision : Revision
  /-- In the order of their declaration; the first is the default of a legacy enum. -/
  values : List EnumValue
  deriving DecidableEq

namespace EnumType

def valueByNumber? (e : EnumType) (number : Int32) : Option EnumValue :=
  e.values.find? fun v => v.number = number

def valueByName? (e : EnumType) (name : String) : Option EnumValue :=
  e.values.find? fun v => v.name = name

/-- The number that an unset field reads as. -/
def defaultNumber (e : EnumType) : Int32 :=
  match e.revision with
  | .legacy =>
      match e.values with
      | first :: _ => first.number
      | [] => 0
  | .modern => 0

end EnumType

end MessageCode
