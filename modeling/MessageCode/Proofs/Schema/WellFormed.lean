import MessageCode.Proofs.Schema.Loaded

/-!
Well-formed descriptions of schemas, and what schema a description describes. Both are said of the
descriptions as a whole, without the order in which resolution comes to their parts.
-/

namespace MessageCode

namespace FileDescription

def declaredTypes (files : List FileDescription) : TypeTable :=
  SanitizedKind.wrappers.map (fun m => (m.fullName, .message)) ++ files.flatMap types

def DeclaresValue (files : List FileDescription) (enum value : String) (number : Int32) : Prop :=
  ∃ file ∈ files, ∃ e ∈ file.enums, file.qualify e.name = enum ∧ ⟨value, number⟩ ∈ e.values

end FileDescription

/-- The name as the file writes it stands for the full name of a type of the sort: for itself, or, where
there is no such type, for the name in the package. -/
def TypeTable.Stands (types : TypeTable) (file : FileDescription) (sort : TypeSort)
    (name full : String) : Prop :=
  (full, sort) ∈ types ∧ (full = name ∨ (name, sort) ∉ types ∧ full = file.qualify name)

/-- What a default means for a field of the kind, where the values of enums are known by name. -/
inductive DefaultValue.Meant (values : String → String → Int32 → Prop) :
    FieldKind → Toml → DefaultValue → Prop
  | bool (b : Bool) : Meant values .bool (.bool b) (.bool b)
  | int32 (n : Int64) : -2147483648 ≤ n.toInt → n.toInt ≤ 2147483647 →
      Meant values .int32 (.integer n) (.int n)
  | int64 (n : Int64) : Meant values .int64 (.integer n) (.int n)
  | float (x : Numeric.Double) : Meant values .float (.float x) (.float x)
  | double (x : Numeric.Double) : Meant values .double (.float x) (.float x)
  | wholeFloat (n : Int64) : Meant values .float (.integer n) (.float (.ofInt .double n.toInt))
  | wholeDouble (n : Int64) : Meant values .double (.integer n) (.float (.ofInt .double n.toInt))
  | text (s : String) : Meant values .text (.text s) (.text s)
  | bytes (s : String) : Meant values .bytes (.text s) (.text s)
  | enum {name value : String} {number : Int32} : values name value number →
      Meant values (.enum name) (.text value) (.enum number)

section

variable (types : TypeTable) (values : String → String → Int32 → Prop) (file : FileDescription)

namespace FieldDescription

/-- The kind that is declared, with its type name resolved. -/
inductive HasKind (d : FieldDescription) : FieldKind → Prop
  | bool : d.kind = .bool → HasKind d .bool
  | int32 : d.kind = .int32 → HasKind d .int32
  | int64 : d.kind = .int64 → HasKind d .int64
  | float : d.kind = .float → HasKind d .float
  | double : d.kind = .double → HasKind d .double
  | text : d.kind = .text → HasKind d .text
  | bytes : d.kind = .bytes → HasKind d .bytes
  | enum {name full : String} : d.kind = .enum → d.typeName = some name →
      types.Stands file .enum name full → HasKind d (.enum full)
  | message {name full : String} : d.kind = .message → d.typeName = some name →
      types.Stands file .message name full → HasKind d (.message full)

/-- The rules for a field on its own. -/
structure WellFormed (d : FieldDescription) : Prop where
  positive : 0 < d.number
  kind : ∃ kind, d.HasKind types file kind
  asText : d.numericAsText = true → d.kind = .int64
  default : ∀ v kind, d.default = some v → d.HasKind types file kind →
    d.label = .singular ∧ ∃ value, DefaultValue.Meant values kind v value

structure Describes (container : String) (scope : Option ExtensionScope) (d : FieldDescription)
    (f : Field) : Prop where
  name : f.name = d.name
  number : f.number = d.number
  kind : d.HasKind types file f.kind
  label : f.label = d.label
  revision : f.revision = file.revision
  container : f.container = container
  oneof : f.oneof = d.oneof
  default : Option.Rel (DefaultValue.Meant values f.kind) d.default f.default
  asText : f.numericAsText = d.numericAsText
  scope : f.extensionScope = scope

end FieldDescription

namespace MessageDescription

structure WellFormed (m : MessageDescription) : Prop where
  field : ∀ d ∈ m.fields, d.WellFormed types values file
  names : (m.fields.map (·.name)).Nodup
  numbers : (m.fields.map (·.number)).Nodup
  oneof : ∀ d ∈ m.fields, d.oneof.isSome = true → d.label = .singular

structure Describes (m : MessageDescription) (message : Message) : Prop where
  fullName : message.fullName = file.qualify m.name
  revision : message.revision = file.revision
  extendable : message.extendable = m.extendable
  fields : List.Forall₂ (FieldDescription.Describes types values file (file.qualify m.name) none)
    m.fields message.fields
  oneofs : message.oneofs = distinct (message.fields.filterMap (·.oneof))

end MessageDescription

namespace ExtensionDescription

inductive HasScope (e : ExtensionDescription) : ExtensionScope → Prop
  | message {name full : String} : e.scope = some name → types.Stands file .message name full →
      HasScope e (.message full)
  | file : e.scope = none → HasScope e (.file (file.qualify file.holder))

/-- The rules for an extension on its own: it extends an extendable message of one of the files, none of
whose fields has its name or its number. -/
structure WellFormed (files : List FileDescription) (e : ExtensionDescription) : Prop where
  extendee : ∃ full, types.Stands file .message e.extendee full ∧
    ∃ home ∈ files, ∃ m ∈ home.messages, home.qualify m.name = full ∧ m.extendable = true ∧
      ∀ d ∈ m.fields, d.name ≠ e.field.name ∧ d.number ≠ e.field.number
  scope : ∀ name, e.scope = some name → ∃ full, types.Stands file .message name full
  field : e.field.WellFormed types values file
  alone : e.field.oneof = none

def Describes (e : ExtensionDescription) (f : Field) : Prop :=
  ∃ extendee scope, types.Stands file .message e.extendee extendee ∧ e.HasScope types file scope ∧
    e.field.Describes types values file extendee (some scope) f

end ExtensionDescription

end

def ExtensionDescription.ApartFrom (types : TypeTable)
    (e e' : FileDescription × ExtensionDescription) : Prop :=
  ∀ full, types.Stands e.1 .message e.2.extendee full → types.Stands e'.1 .message e'.2.extendee full →
    e.2.field.name ≠ e'.2.field.name ∧ e.2.field.number ≠ e'.2.field.number

namespace EnumDescription

structure WellFormed (e : EnumDescription) : Prop where
  values : e.values ≠ []
  names : (e.values.map (·.name)).Nodup

def enumType (file : FileDescription) (e : EnumDescription) : EnumType :=
  { fullName := file.qualify e.name, revision := file.revision, values := e.values }

end EnumDescription

namespace FileDescription

def allEnums (files : List FileDescription) : List (FileDescription × EnumDescription) :=
  files.flatMap fun file => file.enums.map (file, ·)

def allMessages (files : List FileDescription) : List (FileDescription × MessageDescription) :=
  files.flatMap fun file => file.messages.map (file, ·)

def allExtensions (files : List FileDescription) : List (FileDescription × ExtensionDescription) :=
  files.flatMap fun file => file.extensions.map (file, ·)

structure WellFormed (files : List FileDescription) : Prop where
  types : ((declaredTypes files).map Prod.fst).Nodup
  enum : ∀ file ∈ files, ∀ e ∈ file.enums, e.WellFormed
  message : ∀ file ∈ files, ∀ m ∈ file.messages,
    m.WellFormed (declaredTypes files) (DeclaresValue files) file
  extension : ∀ file ∈ files, ∀ e ∈ file.extensions,
    e.WellFormed (declaredTypes files) (DeclaresValue files) file files
  apart : (allExtensions files).Pairwise (ExtensionDescription.ApartFrom (declaredTypes files))

/-- The schema has what the files say: behind the wrappers their messages, their enums and their
extensions, all in order. -/
structure Describe (files : List FileDescription) (s : Schema) : Prop where
  messages : ∃ own, s.messages = SanitizedKind.wrappers ++ own ∧
    List.Forall₂ (fun m => m.2.Describes (declaredTypes files) (DeclaresValue files) m.1)
      (allMessages files) own
  enums : s.enums = (allEnums files).map fun e => e.2.enumType e.1
  extensions : List.Forall₂
    (fun e => e.2.Describes (declaredTypes files) (DeclaresValue files) e.1)
    (allExtensions files) s.extensions

end FileDescription

/-- What the generators and the machine rely on in a schema. -/
structure Schema.WellFormed (s : Schema) : Prop where
  loaded : s.Loaded
  names : (s.messages.map (·.fullName) ++ s.enums.map (·.fullName)).Nodup
  values : ∀ e ∈ s.enums, e.values ≠ [] ∧ (e.values.map (·.name)).Nodup
  apart : ∀ m ∈ s.messages, Apart (m.fields ++ s.extensionsOf m.fullName)
  oneofs : ∀ m ∈ s.messages, ∀ oneof, oneof ∈ m.oneofs ↔ ∃ f ∈ m.fields, f.oneof = some oneof
  container : ∀ f ∈ s.extensions, ∃ m ∈ s.messages, m.fullName = f.container ∧ m.extendable = true
  scope : ∀ f ∈ s.extensions, ∀ name, f.extensionScope = some (.message name) →
    ∃ m ∈ s.messages, m.fullName = name
  enumDefault : ∀ f, (∃ m ∈ s.messages, f ∈ m.fields) ∨ f ∈ s.extensions → ∀ number,
    f.default = some (.enum number) → ∃ name, f.kind = .enum name ∧
      ∃ e ∈ s.enums, e.fullName = name ∧ ∃ v ∈ e.values, v.number = number

end MessageCode
