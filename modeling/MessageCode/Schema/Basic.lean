import MessageCode.Schema.Descriptor

/-!
Schemas: all messages, enums and extensions that code is generated for.
-/

namespace MessageCode

structure Schema where
  /-- The wrappers of sanitized content first. -/
  messages : List Message
  enums : List EnumType
  /-- In the order of their declaration. -/
  extensions : List Field

namespace Schema

def message? (s : Schema) (name : String) : Option Message :=
  s.messages.find? fun m => m.fullName = name

def enum? (s : Schema) (name : String) : Option EnumType :=
  s.enums.find? fun e => e.fullName = name

def sortedMessages (s : Schema) : List Message :=
  s.messages.mergeSort fun a b => decide (a.fullName ≤ b.fullName)

def extensionsOf (s : Schema) (message : String) : List Field :=
  s.extensions.filter fun f => f.container = message

/-- A field by name: a declared one, or else an extension of the message. -/
def field? (s : Schema) (message name : String) : Option Field :=
  match (s.message? message).bind (·.field? name) with
  | some f => some f
  | none => s.extensions.find? fun f => f.container = message && f.name = name

/-- The extension whose identifier is a static of the owner. -/
def extensionById? (s : Schema) (owner name : String) : Option Field :=
  s.extensions.find? fun f => f.name = name && f.extensionScope.map (·.owner) = some owner

end Schema

end MessageCode
