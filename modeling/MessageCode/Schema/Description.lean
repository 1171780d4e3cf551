import MessageCode.Schema.Interchange
import MessageCode.Toml.DateTime

/-!
Schema descriptions: what a schema document says before names are resolved, and how a TOML document
is read as one. Keys that a description does not know are ignored.
-/

namespace MessageCode

/-- The kind a field declares; the type name stands apart. -/
inductive KindTag where
  | bool
  | int32
  | int64
  | float
  | double
  | text
  | bytes
  | enum
  | message
  deriving DecidableEq

structure FieldDescription where
  name : String
  number : Int32
  kind : KindTag
  typeName : Option String
  label : Label
  oneof : Option String
  default : Option Toml
  numericAsText : Bool

structure MessageDescription where
  name : String
  extendable : Bool
  fields : List FieldDescription

structure EnumDescription where
  name : String
  values : List EnumValue

structure ExtensionDescription where
  extendee : String
  /-- The message that the identifier is declared in; none at the top of the file. -/
  scope : Option String
  field : FieldDescription

structure FileDescription where
  package : String
  revision : Revision
  /-- The name of the holder of the identifiers declared at the top. -/
  holder : String
  messages : List MessageDescription
  enums : List EnumDescription
  extensions : List ExtensionDescription

namespace Toml

/-- The fields of a record. An array gives them by position, in the order of the keys. -/
def fields? (keys : List String) : Toml → Option (List (String × Toml))
  | .table entries => some entries
  | .array items => some (keys.zip items)
  | _ => none

def text? : Toml → Option String
  | .text s => some s
  | _ => none

def bool? : Toml → Option Bool
  | .bool b => some b
  | _ => none

def int32? : Toml → Option Int32
  | .integer n => Numeric.int32? n.toInt
  | _ => none

/-- A word: a string, or a table that has the word as its only key and nothing in it. -/
def word? : Toml → Option String
  | .text s => some s
  | .table [(word, .table [])] => some word
  | _ => none

/-- A word, where an empty array is nothing too. -/
def looseWord? : Toml → Option String
  | .table [(word, .array [])] => some word
  | v => v.word?

def list? {α : Type} (decode : Toml → Option α) : Toml → Option (List α)
  | .array items => items.mapM decode
  | _ => none

def required? {α : Type} (fields : List (String × Toml)) (key : String)
    (decode : Toml → Option α) : Option α := do
  decode (← lookup key fields)

def optional? {α : Type} (fields : List (String × Toml)) (key : String)
    (decode : Toml → Option α) : Option (Option α) :=
  match lookup key fields with
  | some v => (decode v).map some
  | none => some none

end Toml

def KindTag.ofWord? : String → Option KindTag
  | "bool" => some .bool
  | "int32" => some .int32
  | "int64" => some .int64
  | "float" => some .float
  | "double" => some .double
  | "text" => some .text
  | "bytes" => some .bytes
  | "enum" => some .enum
  | "message" => some .message
  | _ => none

/-- Where the keys of a field description stand. -/
inductive Placement where
  /-- In a table of their own. -/
  | apart
  /-- Beside the keys of the extension that the field is. Such a description is read more strictly:
  words are not written with an empty array, and a table that stands for a date has no other key. -/
  | beside
  deriving DecidableEq

namespace Placement

def word? : Placement → Toml → Option String
  | .apart => Toml.looseWord?
  | .beside => Toml.word?

def dateTables : Placement → Toml.DateTables
  | .apart => .loose
  | .beside => .strict

end Placement

namespace FieldDescription

def ofFields? (placement : Placement) (fields : List (String × Toml)) :
    Option FieldDescription := do
  let name ← Toml.required? fields "name" Toml.text?
  let number ← Toml.required? fields "number" Toml.int32?
  let kind ← Toml.required? fields "kind" fun v => (placement.word? v).bind KindTag.ofWord?
  let typeName ← Toml.optional? fields "type_name" Toml.text?
  let label ← Toml.optional? fields "label" fun v => (placement.word? v).bind Label.ofWord?
  let oneof ← Toml.optional? fields "oneof" Toml.text?
  let default ← Toml.optional? fields "default" (Toml.withDates? placement.dateTables)
  let numericAsText ← Toml.optional? fields "numeric_as_text" Toml.bool?
  return {
    name, number, kind, typeName, oneof, default
    label := label.getD .singular
    numericAsText := numericAsText.getD false }

def ofToml? (v : Toml) : Option FieldDescription := do
  let keys :=
    ["name", "number", "kind", "type_name", "label", "oneof", "default", "numeric_as_text"]
  ofFields? .apart (← v.fields? keys)

end FieldDescription

def MessageDescription.ofToml? (v : Toml) : Option MessageDescription := do
  let fields ← v.fields? ["name", "extendable", "field"]
  let name ← Toml.required? fields "name" Toml.text?
  let extendable ← Toml.optional? fields "extendable" Toml.bool?
  let inner ← Toml.optional? fields "field" (Toml.list? FieldDescription.ofToml?)
  return { name, extendable := extendable.getD false, fields := inner.getD [] }

def EnumValue.ofToml? (v : Toml) : Option EnumValue := do
  let fields ← v.fields? ["name", "number"]
  let name ← Toml.required? fields "name" Toml.text?
  let number ← Toml.required? fields "number" Toml.int32?
  return { name, number }

def EnumDescription.ofToml? (v : Toml) : Option EnumDescription := do
  let fields ← v.fields? ["name", "values"]
  let name ← Toml.required? fields "name" Toml.text?
  let values ← Toml.required? fields "values" (Toml.list? EnumValue.ofToml?)
  return { name, values }

/-- The keys of the field stand beside those of the extension, so that it needs a table. -/
def ExtensionDescription.ofToml? : Toml → Option ExtensionDescription
  | .table fields => do
      let extendee ← Toml.required? fields "extendee" Toml.text?
      let scope ← Toml.optional? fields "scope" Toml.text?
      let field ← FieldDescription.ofFields? .beside fields
      return { extendee, scope, field }
  | _ => none

def FileDescription.ofToml? (v : Toml) : Option FileDescription := do
  let fields ← v.fields? ["package", "revision", "holder", "message", "enum", "extension"]
  let package ← Toml.required? fields "package" Toml.text?
  let revision ← Toml.optional? fields "revision" fun v => v.looseWord?.bind Revision.ofWord?
  let holder ← Toml.optional? fields "holder" Toml.text?
  let messages ← Toml.optional? fields "message" (Toml.list? MessageDescription.ofToml?)
  let enums ← Toml.optional? fields "enum" (Toml.list? EnumDescription.ofToml?)
  let extensions ← Toml.optional? fields "extension" (Toml.list? ExtensionDescription.ofToml?)
  return {
    package
    revision := revision.getD .legacy
    holder := holder.getD "Extensions"
    messages := messages.getD []
    enums := enums.getD []
    extensions := extensions.getD [] }

def FileDescription.ofDocument? (document : List (String × Toml)) :
    Option (List FileDescription) := do
  let files ← Toml.optional? document "file" (Toml.list? FileDescription.ofToml?)
  return files.getD []

end MessageCode
