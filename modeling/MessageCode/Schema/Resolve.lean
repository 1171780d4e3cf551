import MessageCode.Schema.Basic
import MessageCode.Schema.Description
import MessageCode.Toml.Writer

/-!
Resolution of schema descriptions. Type names are looked up as full names first and then relative to
the package of the file; every rule that a description breaks has an error of its own.
-/

namespace MessageCode

inductive SchemaError where
  /-- The document cannot be read. -/
  | unreadable
  /-- The document is no schema description. -/
  | malformed
  | duplicateType (name : String)
  | duplicateField (container field : String)
  | duplicateNumber (container : String) (number : Int32)
  | invalidNumber (field : String) (number : Int32)
  | missingTypeName (field kind : String)
  | unresolvedType (field name : String)
  | numericAsText (field : String)
  | repeatedOneof (field : String)
  | extensionOneof (field : String)
  | invalidDefault (field reason : String)
  | notExtendable (field message : String)
  | emptyEnum (name : String)
  deriving DecidableEq

def SchemaError.message : SchemaError → String
  | .unreadable => "failed to read schema"
  | .malformed => "failed to parse schema"
  | .duplicateType name => "duplicate type name: " ++ name
  | .duplicateField container field => "duplicate field " ++ field ++ " in " ++ container
  | .duplicateNumber container number =>
      "duplicate field number " ++ toString number.toInt ++ " in " ++ container
  | .invalidNumber field number =>
      field ++ ": field numbers must be positive, got " ++ toString number.toInt
  | .missingTypeName field kind => field ++ ": " ++ kind ++ " fields need a type_name"
  | .unresolvedType field name => field ++ ": unresolved type " ++ name
  | .numericAsText field => field ++ ": numeric_as_text only applies to int64 fields"
  | .repeatedOneof field => field ++ ": repeated fields cannot be oneof members"
  | .extensionOneof field => field ++ ": extensions cannot be oneof members"
  | .invalidDefault field reason => field ++ ": invalid default: " ++ reason
  | .notExtendable field message => field ++ ": " ++ message ++ " is not extendable"
  | .emptyEnum name => "enum " ++ name ++ " declares no values"

inductive TypeSort where
  | message
  | enum
  deriving DecidableEq

/-- The full names of all types with their sorts. -/
abbrev TypeTable := List (String × TypeSort)

def SanitizedKind.wrapper (kind : SanitizedKind) : Message :=
  { fullName := kind.messageName
    revision := .legacy
    extendable := false
    fields :=
      [{ name := kind.wrappedField
         number := 1
         kind := .text
         label := .singular
         revision := .legacy
         container := kind.messageName
         oneof := none
         default := none
         numericAsText := false
         extensionScope := none }]
    oneofs := [] }

def SanitizedKind.wrappers : List Message := SanitizedKind.all.map SanitizedKind.wrapper

namespace FileDescription

def qualify (file : FileDescription) (name : String) : String := file.package ++ "." ++ name

def types (file : FileDescription) : TypeTable :=
  file.messages.map (fun m => (file.qualify m.name, .message))
    ++ file.enums.map fun e => (file.qualify e.name, .enum)

end FileDescription

namespace TypeTable

def has (types : TypeTable) (name : String) (sort : TypeSort) : Bool :=
  match types.find? fun entry => entry.1 = name with
  | some entry => entry.2 = sort
  | none => false

/-- Adds a type whose name has to be new. -/
def declare (types : TypeTable) (entry : String × TypeSort) : Except SchemaError TypeTable :=
  if types.any fun known => known.1 = entry.1 then .error (.duplicateType entry.1)
  else .ok (types ++ [entry])

def ofFiles (files : List FileDescription) : Except SchemaError TypeTable :=
  let builtIn : TypeTable := SanitizedKind.wrappers.map fun m => (m.fullName, .message)
  (files.flatMap FileDescription.types).foldlM declare builtIn

def resolve (types : TypeTable) (file : FileDescription) (name : String) (sort : TypeSort)
    (field : String) : Except SchemaError String :=
  if types.has name sort then .ok name
  else if types.has (file.qualify name) sort then .ok (file.qualify name)
  else .error (.unresolvedType field name)

end TypeTable

/-- Refuses a list in which a key comes up again; the error is made from the first such item. -/
def refuseRepeats {α κ : Type} [DecidableEq κ] (key : α → κ) (error : α → SchemaError) :
    List κ → List α → Except SchemaError Unit
  | _, [] => .ok ()
  | seen, a :: rest =>
      if key a ∈ seen then .error (error a) else refuseRepeats key error (key a :: seen) rest

def EnumDescription.resolve (file : FileDescription) (e : EnumDescription) :
    Except SchemaError EnumType := do
  let fullName := file.qualify e.name
  if e.values.isEmpty then throw (.emptyEnum fullName)
  refuseRepeats (·.name) (fun v => .duplicateField fullName v.name) [] e.values
  return { fullName, revision := file.revision, values := e.values }

/-- A default value for a field of a kind; integers can stand for floats. -/
def DefaultValue.resolve (enums : List EnumType) (field : String) (kind : FieldKind)
    (label : Label) (value : Toml) : Except SchemaError DefaultValue :=
  let invalid {α : Type} (reason : String) : Except SchemaError α :=
    .error (.invalidDefault field reason)
  if label = .repeated then invalid "repeated fields have no default"
  else
    match kind, value with
    | .bool, .bool b => .ok (.bool b)
    | .int32, .integer n =>
        if (Numeric.int32? n.toInt).isSome then .ok (.int n)
        else invalid (toString n.toInt ++ " does not fit in 32 bits")
    | .int64, .integer n => .ok (.int n)
    | .float, .float x => .ok (.float x)
    | .double, .float x => .ok (.float x)
    | .float, .integer n => .ok (.float (.ofInt .double n.toInt))
    | .double, .integer n => .ok (.float (.ofInt .double n.toInt))
    | .text, .text s => .ok (.text s)
    | .bytes, .text s => .ok (.text s)
    | .enum name, .text s =>
        match (enums.find? fun e => e.fullName = name).bind (·.valueByName? s) with
        | some v => .ok (.enum v.number)
        | none => invalid (name ++ " has no value named " ++ s)
    | .message _, _ => invalid "message fields have no default"
    | _, _ => invalid (value.renderAlone ++ " is not a valid " ++ kind.render ++ " value")

namespace FieldDescription

/-- The type name that enum and message fields need. -/
def requireTypeName (f : FieldDescription) (fullName kind : String) : Except SchemaError String :=
  match f.typeName with
  | some name => .ok name
  | none => .error (.missingTypeName fullName kind)

def resolveKind (types : TypeTable) (file : FileDescription) (fullName : String)
    (f : FieldDescription) : Except SchemaError FieldKind :=
  match f.kind with
  | .bool => .ok .bool
  | .int32 => .ok .int32
  | .int64 => .ok .int64
  | .float => .ok .float
  | .double => .ok .double
  | .text => .ok .text
  | .bytes => .ok .bytes
  | .enum => do
      let name ← f.requireTypeName fullName "enum"
      return .enum (← types.resolve file name .enum fullName)
  | .message => do
      let name ← f.requireTypeName fullName "message"
      return .message (← types.resolve file name .message fullName)

/-- A field of a container, as yet without the scope of an extension. -/
def resolve (types : TypeTable) (enums : List EnumType) (file : FileDescription)
    (container : String) (f : FieldDescription) : Except SchemaError Field := do
  let fullName := container ++ "." ++ f.name
  if f.number ≤ 0 then throw (.invalidNumber fullName f.number)
  let kind ← f.resolveKind types file fullName
  if f.numericAsText && kind ≠ .int64 then throw (.numericAsText fullName)
  let default ← f.default.mapM (DefaultValue.resolve enums fullName kind f.label)
  return {
    name := f.name
    number := f.number
    kind, container, default
    label := f.label
    revision := file.revision
    oneof := f.oneof
    numericAsText := f.numericAsText
    extensionScope := none }

end FieldDescription

/-- The rules that a field keeps against the fields declared before it. -/
def Field.refuseClash (fullName : String) (earlier : List Field) (f : Field) :
    Except SchemaError Unit := do
  if earlier.any fun g => g.name = f.name then throw (.duplicateField fullName f.name)
  if earlier.any fun g => g.number = f.number then throw (.duplicateNumber fullName f.number)

def distinct (names : List String) : List String :=
  names.foldl (fun seen name => if name ∈ seen then seen else seen ++ [name]) []

namespace MessageDescription

def addField (types : TypeTable) (enums : List EnumType) (file : FileDescription)
    (fullName : String) (fields : List Field) (f : FieldDescription) :
    Except SchemaError (List Field) := do
  let field ← f.resolve types enums file fullName
  field.refuseClash fullName fields
  if field.oneof.isSome && field.isRepeated then throw (.repeatedOneof field.fullName)
  return fields ++ [field]

def resolve (types : TypeTable) (enums : List EnumType) (file : FileDescription)
    (m : MessageDescription) : Except SchemaError Message := do
  let fullName := file.qualify m.name
  let fields ← m.fields.foldlM (addField types enums file fullName) []
  return {
    fullName, fields
    revision := file.revision
    extendable := m.extendable
    oneofs := distinct (fields.filterMap (·.oneof)) }

end MessageDescription

namespace ExtensionDescription

def resolveScope (types : TypeTable) (file : FileDescription) (label : String)
    (e : ExtensionDescription) : Except SchemaError ExtensionScope :=
  match e.scope with
  | some name => do return .message (← types.resolve file name .message label)
  | none => .ok (.file (file.qualify file.holder))

def add (types : TypeTable) (messages : List Message) (enums : List EnumType)
    (extensions : List Field) (entry : FileDescription × ExtensionDescription) :
    Except SchemaError (List Field) := do
  let (file, e) := entry
  let label := e.extendee ++ "." ++ e.field.name
  let extendee ← types.resolve file e.extendee .message label
  let target ← match messages.find? fun m => m.fullName = extendee with
    | some m => pure m
    | none => throw (.unresolvedType label e.extendee)
  unless target.extendable do throw (.notExtendable label extendee)
  let scope ← e.resolveScope types file label
  let field ← e.field.resolve types enums file extendee
  if field.oneof.isSome then throw (.extensionOneof field.fullName)
  field.refuseClash extendee
    (target.fields ++ extensions.filter fun g => g.container = extendee)
  return extensions ++ [{ field with extensionScope := some scope }]

end ExtensionDescription

namespace Schema

def resolve (files : List FileDescription) : Except SchemaError Schema := do
  let types ← TypeTable.ofFiles files
  let enums ← (files.flatMap fun file => file.enums.map (file, ·)).mapM
    fun (file, e) => e.resolve file
  let messages ← (files.flatMap fun file => file.messages.map (file, ·)).mapM
    fun (file, m) => m.resolve types enums file
  let messages := SanitizedKind.wrappers ++ messages
  let extensions ← (files.flatMap fun file => file.extensions.map (file, ·)).foldlM
    (ExtensionDescription.add types messages enums) []
  return { messages, enums, extensions }

def parse (text : String) : Except SchemaError Schema :=
  match (Toml.parse? text).bind FileDescription.ofDocument? with
  | some files => resolve files
  | none => .error .malformed

def ofBytes (bytes : ByteArray) : Except SchemaError Schema :=
  match String.fromUTF8? bytes with
  | some text => parse text
  | none => .error .unreadable

end Schema

end MessageCode
