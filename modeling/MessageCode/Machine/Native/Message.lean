import MessageCode.Machine.Storage
import MessageCode.Schema.Naming

/-!
The operations of messages, builders, enums and oneof discriminants. An operation gives none for a
name it does not know.
-/

namespace MessageCode

namespace Native

open Storage

def messageReceiver (c : Call) (typeName : String) : Except Fault MessageData := do
  match ← c.receiverObject with
  | (_, .message data) =>
      if data.typeName = typeName then .ok data
      else .error (Call.castError typeName (.message data))
  | (_, other) => .error (Call.castError typeName other)

def builderReceiver (c : Call) : Except Fault (ObjectId × String) := do
  match ← c.receiverObject with
  | (id, .builder typeName) => .ok (id, typeName)
  | (_, other) => .error (Call.castError "Builder" other)

/-- The number of the member of a oneof that is set, and zero when none is. -/
def caseNumber (m : Message) (oneof : String) (data : MessageData) : Int32 :=
  match (m.members oneof).find? fun f => data.isSet f.number with
  | some f => f.number
  | none => 0

def callMessage (schema : Schema) (typeName : String) (c : Call) : Native (Option Value) := do
  match schema.message? typeName with
  | none => return none
  | some m =>
      if c.method.isStatic then
        if c.name = Naming.defaultInstance then return some (← defaultInstance schema typeName)
        else if c.name = Naming.newBuilder then
          return some (← (Machine.allocBuilder (.empty typeName) : StateM Machine Value))
        else return none
      else
        let data ← ofExcept (messageReceiver c typeName)
        match m.method? c.name with
        | none => return none
        | some (.get f) => return some (← readThrough getterView schema data f)
        | some (.has f) => return some (.bool (data.isSet f.number))
        | some (.case oneof) =>
            return some (← alloc (.oneofCase (typeName ++ "." ++ oneof) (caseNumber m oneof data)))

/-- The contents of a builder after a field is set: the members of its oneof are cleared first. -/
def setField (m : Message) (f : Field) (stored : Stored) (data : MessageData) : MessageData :=
  let cleared := match f.oneof with
    | some oneof => data.clearAll ((m.members oneof).map Field.number)
    | none => data
  cleared.set f.number f.name (.single stored)

def changeBuilder (c : Call) (id : ObjectId) (typeName : String)
    (change : MessageData → MessageData) : Native (Option Value) := do
  let data ← (Machine.builderData id typeName : StateM Machine MessageData)
  Machine.setBuilder id (change data)
  return some (← ofExcept c.receiverValue)

def callBuilder (schema : Schema) (typeName : String) (c : Call) : Native (Option Value) := do
  match schema.message? typeName with
  | none => return none
  | some m =>
      let (id, builderType) ← ofExcept (builderReceiver c)
      if builderType ≠ typeName then
        throw (Call.castError (typeName ++ "$Builder") (.builder builderType))
      match m.builderMethod? c.name with
      | none => return none
      | some .build =>
          let data ← (Machine.builderData id builderType : StateM Machine MessageData)
          return some (← alloc (.message data))
      | some (.set f) =>
          let stored ← ofExcept (do ofValue c f (← c.arg 0))
          changeBuilder c id builderType (setField m f stored)
      | some (.add f) =>
          let stored ← ofExcept (do ofValue c f (← c.arg 0))
          changeBuilder c id builderType fun data => data.push f.number f.name stored

/-- The extension that the first argument identifies; it has to extend the receiver's type. -/
def extensionArg (schema : Schema) (c : Call) (receiverType : String) : Except Fault Field := do
  match ← c.objectArg 0 with
  | (_, .extension owner name) =>
      match schema.extensionById? owner name with
      | none => .error (.unknownField (owner ++ "." ++ name))
      | some f =>
          if f.container = receiverType then .ok f
          else
            .error (.illegalArgument
              ("extension " ++ f.fullName ++ " does not extend " ++ receiverType))
  | (_, other) => .error (Call.castError "Extension" other)

def callExtendableMessage (schema : Schema) (c : Call) : Native (Option Value) := do
  match ← ofExcept c.receiverObject with
  | (_, .message data) =>
      let f ← ofExcept (extensionArg schema c data.typeName)
      if c.name = "has_extension" then return some (.bool (data.isSet f.number))
      else if c.name = "get_extension" then
        return some (← readThrough extensionView schema data f)
      else return none
  | (_, other) => throw (Call.castError "ExtendableMessage" other)

def callExtendableBuilder (schema : Schema) (c : Call) : Native (Option Value) := do
  let (id, typeName) ← ofExcept (builderReceiver c)
  let f ← ofExcept (extensionArg schema c typeName)
  let stored ← ofExcept (do ofExtensionValue c f (← c.arg 1))
  if c.name = "set_extension" then
    changeBuilder c id typeName fun data => data.set f.number f.name (.single stored)
  else if c.name = "add_extension" then
    changeBuilder c id typeName fun data => data.push f.number f.name stored
  else return none

/-- A number that is not declared has no constant and gives null. -/
def callEnum (schema : Schema) (name : String) (c : Call) : Native (Option Value) := do
  match schema.enum? name with
  | none => return none
  | some e =>
      if c.name = "for_number" then
        let n ← ofExcept (c.intArg 0)
        match e.valueByNumber? n with
        | some v => return some (← alloc (.enumConst name v.number))
        | none => return some .null
      else if c.name = "get_number" then
        match ← ofExcept c.receiverObject with
        | (_, .enumConst _ number) => return some (.int number)
        | (_, other) => throw (Call.castError name other)
      else return none

def callOneofCase (c : Call) : Native (Option Value) := do
  let (_, receiver) ← ofExcept c.receiverObject
  if c.name = "get_number" then
    match receiver with
    | .oneofCase _ number => return some (.int number)
    | other => throw (Call.castError "OneofCase" other)
  else return none

end Native

end MessageCode
