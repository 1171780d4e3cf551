import MessageCode.Json.Basic
import MessageCode.Schema.Descriptor

/-!
Descriptors from their JSON form. Alternatives are words or objects with one member; records are
objects, or arrays that give all the fields in order.
-/

namespace MessageCode

namespace SanitizedKind

def toWord : SanitizedKind → String
  | .html => "html"
  | .script => "script"
  | .style => "style"
  | .styleSheet => "style_sheet"
  | .url => "url"
  | .trustedResourceUrl => "trusted_resource_url"

def ofJson? (j : Json) : Option SanitizedKind := do
  let word ← j.word?
  all.find? fun kind => kind.toWord = word

end SanitizedKind

namespace Revision

def toWord : Revision → String
  | .legacy => "legacy"
  | .modern => "modern"

def ofWord? : String → Option Revision
  | "legacy" => some .legacy
  | "modern" => some .modern
  | _ => none

def ofJson? (j : Json) : Option Revision := j.word?.bind ofWord?

end Revision

namespace Label

def toWord : Label → String
  | .singular => "singular"
  | .repeated => "repeated"

def ofWord? : String → Option Label
  | "singular" => some .singular
  | "repeated" => some .repeated
  | _ => none

def ofJson? (j : Json) : Option Label := j.word?.bind ofWord?

end Label

namespace FieldKind

def ofWord? : String → Option FieldKind
  | "bool" => some .bool
  | "int32" => some .int32
  | "int64" => some .int64
  | "float" => some .float
  | "double" => some .double
  | "text" => some .text
  | "bytes" => some .bytes
  | _ => none

def ofJson? (j : Json) : Option FieldKind :=
  match j.untag? with
  | some ("enum", some (.text name)) => some (.enum name)
  | some ("message", some (.text name)) => some (.message name)
  | _ => j.word?.bind ofWord?

def toJson : FieldKind → Json
  | .enum name => .tagged "enum" (.text name)
  | .message name => .tagged "message" (.text name)
  | kind => .text kind.render

end FieldKind

def DefaultValue.ofJson? (j : Json) : Option DefaultValue :=
  match j.untag? with
  | some ("bool", some v) => v.bool?.map .bool
  | some ("int", some v) => v.int64?.map .int
  | some ("float", some v) => v.real?.map .float
  | some ("text", some v) => v.text?.map .text
  | some ("enum", some v) => v.int32?.map .enum
  | _ => none

namespace ExtensionScope

def ofJson? (j : Json) : Option ExtensionScope :=
  match j.untag? with
  | some ("message", some (.text name)) => some (.message name)
  | some ("file", some (.text holder)) => some (.file holder)
  | _ => none

def toJson : ExtensionScope → Json
  | .message name => .tagged "message" (.text name)
  | .file holder => .tagged "file" (.text holder)

end ExtensionScope

def Field.ofJson? (j : Json) : Option Field :=
  match j.fields? ["name", "number", "kind", "label", "revision", "containing_type", "oneof",
      "default", "numeric_as_text", "extension"] with
  | some [name, number, kind, label, revision, container, oneof, default, asText, scope] => do
      let name ← Json.required? Json.text? name
      let number ← Json.required? Json.int32? number
      let kind ← Json.required? FieldKind.ofJson? kind
      let label ← Json.required? Label.ofJson? label
      let revision ← Json.required? Revision.ofJson? revision
      let container ← Json.required? Json.text? container
      let oneof ← Json.optional? Json.text? oneof
      let default ← Json.optional? DefaultValue.ofJson? default
      let numericAsText ← Json.required? Json.bool? asText
      let extensionScope ← Json.optional? ExtensionScope.ofJson? scope
      return { name, number, kind, label, revision, container, oneof, default, numericAsText,
               extensionScope }
  | _ => none

def Message.ofJson? (j : Json) : Option Message :=
  match j.fields? ["full_name", "revision", "extendable", "fields", "oneofs"] with
  | some [fullName, revision, extendable, fields, oneofs] => do
      let fullName ← Json.required? Json.text? fullName
      let revision ← Json.required? Revision.ofJson? revision
      let extendable ← Json.required? Json.bool? extendable
      let fields ← Json.required? (Json.list? Field.ofJson?) fields
      let oneofs ← Json.required? (Json.list? Json.text?) oneofs
      return { fullName, revision, extendable, fields, oneofs }
  | _ => none

end MessageCode
